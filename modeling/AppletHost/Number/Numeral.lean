import AppletHost.Number.Double

/-!
# Reading decimal numerals

A numeral `digits . digits e exponent` denotes an exact decimal, and `scaled` gives the double nearest
to it. `ofText?` is the reader for free text: a sign, then `inf`, `infinity` or `nan` in any letter
case, or a numeral in which one of the two digit runs may be empty.
-/

namespace AppletHost.Number

/-- The value of a decimal digit. -/
def digitValue (c : Char) : Nat := c.toNat - '0'.toNat

/-- The number a run of decimal digits denotes. -/
def ofDigits (cs : List Char) : Nat := cs.foldl (fun n c => 10 * n + digitValue c) 0

/--
The double nearest to `n · 10 ^ e`. Where only zero or infinity can result, the power itself is not
computed: `10 ^ 400` is above every double, and `2 ^ -1100` is below half the smallest one.
-/
def scaled (n : Nat) (e : Int) : Float :=
  if n = 0 then 0.0
  else if 400 < e then 1.0 / 0.0
  else if (Nat.log2 n : Int) + 3 * e < -1100 then 0.0
  else if 0 ≤ e then Float.ofScientific n false e.toNat
  else Float.ofScientific n true (-e).toNat

/-- An exponent: an optional sign and at least one digit, nothing else. -/
def exponentOf? (cs : List Char) : Option Int :=
  let digits (ds : List Char) : Option Nat :=
    if ds ≠ [] ∧ ds.all Char.isDigit then some (ofDigits ds) else none
  match cs with
  | '-' :: ds => (digits ds).map fun n => -(n : Int)
  | '+' :: ds => (digits ds).map fun n => (n : Int)
  | ds => (digits ds).map fun n => (n : Int)

/-- The magnitude of a numeral without its sign. -/
def magnitudeOf? (cs : List Char) : Option Float :=
  let whole := cs.takeWhile Char.isDigit
  let afterWhole := cs.dropWhile Char.isDigit
  let (places, rest) := match afterWhole with
    | '.' :: r => (r.takeWhile Char.isDigit, r.dropWhile Char.isDigit)
    | r => ([], r)
  if whole = [] ∧ places = [] then none
  else
    let n := ofDigits (whole ++ places)
    match rest with
    | [] => some (scaled n (-(places.length : Int)))
    | c :: r =>
      if c = 'e' ∨ c = 'E' then (exponentOf? r).map fun e => scaled n (e - places.length)
      else none

/-- The number that a whole text denotes, if it is a numeral or the name of a special value. -/
def ofText? (s : String) : Option Float :=
  let unsigned (cs : List Char) : Option Float :=
    let name := cs.map Char.toLower
    if name = "inf".toList ∨ name = "infinity".toList then some (1.0 / 0.0)
    else if name = "nan".toList then some nan
    else magnitudeOf? cs
  match s.toList with
  | '-' :: cs => (unsigned cs).map fun x => -x
  | '+' :: cs => unsigned cs
  | cs => unsigned cs

end AppletHost.Number
