import AppletHost.Number.Double

/-!
# Shortest decimal digits

`Dyadic.shortest` gives the fewest decimal digits that read back as the same double, and among those
the nearest to it. The reals that round to `m · 2 ^ e` form an interval around it; for one digit,
two digits, … the two neighbours of the value on that decimal grid are tested against the interval,
and the first grid with a hit wins. Seventeen digits always suffice.

`positional` writes such digits without an exponent; `withExponent` switches to scientific notation
for very large and very small values and always shows that the number is not an integer.
-/

namespace AppletHost.Number

/-- `digits · 10 ^ exponent`. -/
structure Decimal where
  digits : Nat
  exponent : Int
deriving Repr, DecidableEq, Inhabited

/-- How many decimal digits a number has; zero has one. -/
def digitCount (n : Nat) : Nat :=
  if n < 10 then 1 else digitCount (n / 10) + 1

/-- Moves the trailing zeros of the digits into the exponent. -/
def Decimal.stripZeros (d : Decimal) : Decimal :=
  if h : d.digits ≠ 0 ∧ d.digits % 10 = 0 then
    Decimal.stripZeros ⟨d.digits / 10, d.exponent + 1⟩
  else d
termination_by d.digits
decreasing_by omega

/-- Which of two equally near neighbours `n` and `n + 1` is written. -/
inductive Tie where
  | up
  | toEven
deriving DecidableEq, Repr

/-- The upper neighbour of `n` wins a tie. -/
def Tie.takesUpper : Tie → Nat → Bool
  | .up, _ => true
  | .toEven, n => n % 2 = 1

/--
The reals that round to a double, over the unit `num / den`: they reach from `low` to `high` units,
both ends included iff `closed`, around the double's own value `value`.
-/
structure Rounding where
  value : Nat
  low : Nat
  high : Nat
  closed : Bool
  num : Nat
  den : Nat

/--
The rounding interval of a positive double. Its lower half is half as wide at a power of two, where
the doubles below lie twice as dense; the ends belong to it iff the mantissa is even.
-/
def Dyadic.rounding (d : Dyadic) : Rounding :=
  let unit := d.exponent - 2
  { value := 4 * d.mantissa
    low := 4 * d.mantissa - (if d.mantissa = hiddenBit ∧ d.exponent ≠ -1074 then 1 else 2)
    high := 4 * d.mantissa + 2
    closed := d.mantissa % 2 = 0
    num := Nat.pow 2 unit.toNat
    den := Nat.pow 2 (-unit).toNat }

namespace Rounding

/-- `n` steps of the decimal grid `10 ^ k` lie in the interval. -/
def contains (r : Rounding) (n : Nat) (k : Int) : Bool :=
  let a := n * r.den * Nat.pow 10 k.toNat
  let b := r.num * Nat.pow 10 (-k).toNat
  if r.closed then r.low * b ≤ a && a ≤ r.high * b else r.low * b < a && a < r.high * b

/-- The value's lower neighbour on the grid `10 ^ k`, in steps. -/
def stepsBelow (r : Rounding) (k : Int) : Nat :=
  r.value * r.num * Nat.pow 10 (-k).toNat / (r.den * Nat.pow 10 k.toNat)

/-- The value is nearer to the upper neighbour `n + 1` than to `n`; `tie` decides in the middle. -/
def upperNearer (r : Rounding) (tie : Tie) (n : Nat) (k : Int) : Bool :=
  let middle := (2 * n + 1) * r.den * Nat.pow 10 k.toNat
  let value := 2 * r.value * r.num * Nat.pow 10 (-k).toNat
  middle < value || (middle == value && tie.takesUpper n)

/-- The neighbour of the value on the grid `10 ^ k` that reads back, the nearer if both do. -/
def onGrid? (r : Rounding) (tie : Tie) (k : Int) : Option Decimal :=
  let n := r.stepsBelow k
  let below := r.contains n k
  let above := r.contains (n + 1) k
  if above && (!below || r.upperNearer tie n k) then some ⟨n + 1, k⟩
  else if below then some ⟨n, k⟩
  else none

/-- How many digits the value has before the decimal point; zero or less below one. -/
def magnitude (r : Rounding) : Int :=
  (digitCount (r.value * r.num * Nat.pow 10 350 / r.den) : Int) - 350

/-- Tries the grids of `used`, `used + 1`, … digits, `left` of them. -/
def search (r : Rounding) (tie : Tie) (used left : Nat) : Decimal :=
  let k := r.magnitude - used
  match left with
  | 0 => ⟨r.stepsBelow k, k⟩
  | left + 1 => (r.onGrid? tie k).getD (r.search tie (used + 1) left)

end Rounding

/-- The fewest digits that read back as the same magnitude, the nearest of those. -/
def Dyadic.shortest (d : Dyadic) (tie : Tie) : Decimal :=
  if d.mantissa = 0 then ⟨0, 0⟩ else (d.rounding.search tie 1 17).stripZeros

/-- Decimal digits of a natural number. -/
def natDigits (n : Nat) : List Char := Nat.toDigits 10 n

/-- A run of zeros. -/
def zeros (n : Nat) : List Char := List.replicate n '0'

/-- The digits with the point where it belongs: no exponent, no trailing `.0`. -/
def Decimal.positional (d : Decimal) : List Char :=
  let ds := natDigits d.digits
  if 0 ≤ d.exponent then ds ++ zeros d.exponent.toNat
  else
    let places := (-d.exponent).toNat
    if places < ds.length then
      ds.take (ds.length - places) ++ '.' :: ds.drop (ds.length - places)
    else '0' :: '.' :: (zeros (places - ds.length) ++ ds)

/-- The sign, and then the text of the magnitude. -/
def signed (negative : Bool) (text : List Char) : List Char :=
  if negative then '-' :: text else text

/-- A double as plain positional text: `2`, `0.1`, `-0`, `NaN`, `inf`. A tie goes up. -/
def plainText (x : Float) : String :=
  match Dyadic.ofFloat? x with
  | some d => String.ofList (signed d.negative (d.shortest .up).positional)
  | none => if x == x then String.ofList (signed (signBit x) "inf".toList) else "NaN"

/--
How a double is written beside integers: positional while the position of the decimal point,
counted from the first digit, lies in `(lowest, highest]`, and with an exponent elsewhere. `plus`
tells whether an exponent that is not negative has a sign too.
-/
structure MarkedStyle where
  tie : Tie
  lowest : Int
  highest : Int
  plus : Bool

/-- The exponent of ten after a mantissa: `e16` or `e+16`, and `e-7`. -/
def MarkedStyle.exponentText (style : MarkedStyle) (power : Int) : List Char :=
  let sign := if power < 0 then ['-'] else if style.plus then ['+'] else []
  'e' :: (sign ++ natDigits power.natAbs)

/-- The text of a magnitude that no integer has: `1.0`, `0.00001`, `1e16`, `1.5e-7`. -/
def Decimal.marked (style : MarkedStyle) (d : Decimal) : List Char :=
  let ds := natDigits d.digits
  let point := (ds.length : Int) + d.exponent
  if style.lowest < point ∧ point ≤ style.highest then
    if 0 ≤ d.exponent then d.positional ++ ['.', '0'] else d.positional
  else
    let head := match ds with
      | [] => []
      | [c] => [c]
      | c :: rest => c :: '.' :: rest
    head ++ style.exponentText (point - 1)

/-- The text of a finite double in the given style. -/
def Dyadic.marked (style : MarkedStyle) (d : Dyadic) : List Char :=
  signed d.negative ((d.shortest style.tie).marked style)

end AppletHost.Number
