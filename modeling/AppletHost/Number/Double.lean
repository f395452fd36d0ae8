/-!
# Doubles as exact rationals

A finite double is `± mantissa · 2 ^ exponent`. Everything the program decides about a double (is it
a whole number, which whole number, what is left after division) is decided here on that exact
decomposition, in `Nat` and `Int` arithmetic.
-/

namespace AppletHost.Number

/-- The exact value `± mantissa · 2 ^ exponent` of a finite double. -/
structure Dyadic where
  negative : Bool
  mantissa : Nat
  exponent : Int
deriving Repr, DecidableEq, Inhabited

/-- The sign bit. -/
def signBit (x : Float) : Bool := x.toBits >>> 63 == 1

/-- The eleven exponent bits. -/
def exponentBits (x : Float) : Nat := ((x.toBits >>> 52) &&& 0x7ff).toNat

/-- The fifty-two fraction bits. -/
def fractionBits (x : Float) : Nat := (x.toBits &&& 0xfffffffffffff).toNat

/-- The leading bit of a mantissa, which is not stored. -/
def hiddenBit : Nat := 0x10000000000000

/-- The exact value of a finite double; `none` for the infinities and for not-a-number. -/
def Dyadic.ofFloat? (x : Float) : Option Dyadic :=
  let e := exponentBits x
  if e = 0x7ff then none
  else if e = 0 then some ⟨signBit x, fractionBits x, -1074⟩
  else some ⟨signBit x, fractionBits x + hiddenBit, (e : Int) - 1075⟩

/-- Neither an infinity nor not-a-number. -/
def isFinite (x : Float) : Bool := exponentBits x != 0x7ff

namespace Dyadic

/-- The whole part of the magnitude. -/
def truncNat (d : Dyadic) : Nat :=
  if 0 ≤ d.exponent then d.mantissa * Nat.pow 2 d.exponent.toNat
  else d.mantissa / Nat.pow 2 (-d.exponent).toNat

/-- No fractional part is left. -/
def isWhole (d : Dyadic) : Bool :=
  0 ≤ d.exponent || d.mantissa % Nat.pow 2 (-d.exponent).toNat == 0

/-- The whole part, toward zero. -/
def trunc (d : Dyadic) : Int :=
  if d.negative then -(d.truncNat : Int) else d.truncNat

/-- The double with the value of `d`, exact whenever a double has that value. -/
def toFloat (d : Dyadic) : Float :=
  let magnitude :=
    if 0 ≤ d.exponent then Float.ofScientific (d.mantissa * Nat.pow 2 d.exponent.toNat) false 0
    else
      let places := (-d.exponent).toNat
      Float.ofScientific (d.mantissa * Nat.pow 5 places) true places
  if d.negative then -magnitude else magnitude

end Dyadic

/-- The integer a double is equal to, if it is a whole number. -/
def toWhole? (x : Float) : Option Int :=
  (Dyadic.ofFloat? x).bind fun d => if d.isWhole then some d.trunc else none

/-- The whole part of a finite double, toward zero. -/
def trunc? (x : Float) : Option Int := (Dyadic.ofFloat? x).map Dyadic.trunc

/-- Not-a-number. -/
def nan : Float := 0.0 / 0.0

/--
The remainder of truncating division, exact, with the sign of the dividend. Not-a-number when the
dividend is infinite, the divisor zero or either side not-a-number; an infinite divisor leaves the
dividend as it is.
-/
def remainder (x y : Float) : Float :=
  match Dyadic.ofFloat? x, Dyadic.ofFloat? y with
  | some a, some b =>
    if b.mantissa = 0 then nan
    else
      let e := min a.exponent b.exponent
      let p := a.mantissa * Nat.pow 2 (a.exponent - e).toNat
      let q := b.mantissa * Nat.pow 2 (b.exponent - e).toNat
      Dyadic.toFloat ⟨a.negative, p % q, e⟩
  | some _, none => if y == y then x else nan
  | none, _ => nan

end AppletHost.Number
