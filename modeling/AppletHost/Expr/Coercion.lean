import AppletHost.Number.Numeral
import AppletHost.Number.Shortest
import AppletHost.Text.Blank
import AppletHost.Value.Basic

/-!
# Loose values

Expressions treat values loosely: every value, and `none` for an undefined one, counts as true or
false, as a number and as a text. Numbers are doubles; a whole result small enough to be exact
becomes an integer again, and a result that is not finite is undefined.
-/

namespace AppletHost

/-- Largest magnitude below which every whole double is exact. -/
def maxSafeInteger : Int := 0x1fffffffffffff

namespace Value

/-- The value of a numeric result; `none` (undefined) unless it is finite. -/
def ofNumber? (x : Float) : Option Value :=
  if Number.isFinite x then
    match Number.toWhole? x with
    | some n => if n.natAbs ≤ maxSafeInteger then some (.int n) else some (.float x)
    | none => some (.float x)
  else none

/-- Undefined, `null`, `false`, zero, not-a-number and the empty string count as false. -/
def truthy : Option Value → Bool
  | none => false
  | some .null => false
  | some (.bool b) => b
  | some (.int n) => n != 0
  | some (.float x) => !(x == 0.0) && x == x
  | some (.str s) => s != ""
  | some (.arr _) => true
  | some (.obj _) => true

/-- The text of a number: whole and exact as an integer, any other as a plain decimal. -/
def numberText (x : Float) : String :=
  match Number.toWhole? x with
  | some n => if n.natAbs ≤ maxSafeInteger then toString n else Number.plainText x
  | none => Number.plainText x

mutual

/-- The text a value becomes when it is joined to another text. -/
def joinedText : Value → String
  | .null => "null"
  | .bool true => "true"
  | .bool false => "false"
  | .int n => toString n
  | .float x => numberText x
  | .str s => s
  | .arr items => ",".intercalate (shownItems items)
  | .obj _ => "[object Object]"

/-- The texts of the items of an array; `null` shows nothing. -/
def shownItems : List Value → List String
  | [] => []
  | .null :: vs => "" :: shownItems vs
  | v :: vs => joinedText v :: shownItems vs

end

/-- The text of an operand of `+`. -/
def operandText : Option Value → String
  | none => "undefined"
  | some v => joinedText v

/-- The text a placeholder shows; nothing for an undefined value and for `null`. -/
def display : Option Value → String
  | none => ""
  | some .null => ""
  | some v => joinedText v

/-- The number a text counts as: nothing but blanks is zero, no numeral is not-a-number. -/
def numberOfText (s : String) : Float :=
  let trimmed := Text.trim s.toList
  if trimmed = [] then 0.0 else (Number.ofText? (String.ofList trimmed)).getD Number.nan

/-- The number a value counts as; an array of one item counts as its item. -/
def toNumber : Value → Float
  | .null => 0.0
  | .bool b => if b then 1.0 else 0.0
  | .int n => Float.ofInt n
  | .float x => x
  | .str s => numberOfText s
  | .arr [] => 0.0
  | .arr [v] => toNumber v
  | .arr _ => Number.nan
  | .obj _ => Number.nan

/-- The number an operand counts as. -/
def operandNumber : Option Value → Float
  | none => Number.nan
  | some v => toNumber v

/-- The double of a number value. -/
def number? : Value → Option Float
  | .int n => some (Float.ofInt n)
  | .float x => some x
  | _ => none

/-- Equality without conversion; numbers compare as doubles. -/
def strictEq : Option Value → Option Value → Bool
  | none, none => true
  | some a, some b =>
    match number? a, number? b with
    | some x, some y => x == y
    | _, _ => same a b
  | _, _ => false

/-- Undefined or `null`. -/
def isNullish : Option Value → Bool
  | none => true
  | some .null => true
  | _ => false

/-- A number, a string or a truth value. -/
def isScalar : Value → Bool
  | .bool _ | .int _ | .float _ | .str _ => true
  | _ => false

/-- Equality that compares scalars of different kinds as numbers. -/
def looseEq (a b : Option Value) : Bool :=
  if isNullish a || isNullish b then isNullish a && isNullish b
  else
    match a, b with
    | some (.str x), some (.str y) => x == y
    | some x, some y =>
      if isScalar x && isScalar y then toNumber x == toNumber y else strictEq a b
    | _, _ => strictEq a b

/-- The order of two operands: two strings by their characters, all else as numbers. -/
def order? (a b : Option Value) : Option Ordering :=
  match a, b with
  | some (.str x), some (.str y) => some (compare x y)
  | _, _ =>
    let x := operandNumber a
    let y := operandNumber b
    if x < y then some .lt else if y < x then some .gt else if x == y then some .eq else none

/-- The operand makes `+` join texts. -/
def joins : Option Value → Bool
  | some (.str _) | some (.arr _) | some (.obj _) => true
  | _ => false

/-- The sum of numbers, or the two texts joined. -/
def add (a b : Option Value) : Option Value :=
  if joins a || joins b then some (.str (operandText a ++ operandText b))
  else ofNumber? (operandNumber a + operandNumber b)

/-- The property of a value: a field, or the length of an array or a string. -/
def property? (base : Value) (name : String) : Option Value :=
  match base with
  | .arr items => if name = "length" then some (.int items.length) else none
  | .str s => if name = "length" then some (.int s.length) else none
  | .obj fields => Fields.get? fields name
  | _ => none

/-- The item of a value at a whole position. -/
def item? (base : Value) (n : Nat) : Option Value :=
  match base with
  | .str s => s.toList[n]?.map fun c => .str (String.singleton c)
  | .arr items => items[n]?
  | _ => none

/-- `base[key]`: a property under a string, an item under a whole number. -/
def index? (base key : Value) : Option Value :=
  match key with
  | .str name => property? base name
  | .int n => if n < 0 then none else item? base n.toNat
  | .float x =>
    match Number.toWhole? x with
    | some n => if n < 0 then none else item? base n.toNat
    | none => none
  | _ => none

end Value

end AppletHost
