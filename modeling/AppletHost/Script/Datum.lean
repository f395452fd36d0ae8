import AppletHost.Json.Writer
import AppletHost.Number.Word
import AppletHost.Script.Basic
import AppletHost.Text.Printable

/-!
# Data of programs

What a program computes with: JSON values with integers of 64 bits, and closures, which no JSON
value denotes. `Datum.ofValue` and `Datum.toValue?` go from one to the other. A datum has two texts,
one for people (`display`) and one that shows what kind of datum it is (`debug`).
-/

namespace AppletHost.Script

/-- What a program computes with. A closure holds the variables it was made among. -/
inductive Datum where
  | unit
  | bool (b : Bool)
  | int (n : Int)
  | float (x : Float)
  | str (s : String)
  | array (items : List Datum)
  | map (fields : List (String × Datum))
  | closure (params : List String) (body : List Statement) (captured : List (String × Datum))
deriving Inhabited

/-- A closure on its own. -/
structure Closure where
  params : List String
  body : List Statement
  captured : Fields Datum
deriving Inhabited

/-- The name that every closure is shown under. -/
def closureName : String := "anon$"

namespace Datum

/-- The closure, if this is one. -/
def closure? : Datum → Option Closure
  | .closure params body captured => some ⟨params, body, captured⟩
  | _ => none

/-! ## Values -/

mutual

/-- The datum of a value; an integer beyond 64 signed bits becomes a double. -/
def ofValue : Value → Datum
  | .null => .unit
  | .bool b => .bool b
  | .int n => if Number.isSigned64 n then .int n else .float (Float.ofInt n)
  | .float x => .float x
  | .str s => .str s
  | .arr items => .array (ofItems items)
  | .obj fields => .map (ofFields fields)

/-- `ofValue` item by item. -/
def ofItems : List Value → List Datum
  | [] => []
  | v :: vs => ofValue v :: ofItems vs

/-- `ofValue` field by field. -/
def ofFields : List (String × Value) → List (String × Datum)
  | [] => []
  | (k, v) :: rest => (k, ofValue v) :: ofFields rest

end

mutual

/-- The value of a datum that holds no closure; a double that is no number becomes `null`. -/
def toValue? : Datum → Option Value
  | .unit => some .null
  | .bool b => some (.bool b)
  | .int n => some (.int n)
  | .float x => some (if Number.isFinite x then .float x else .null)
  | .str s => some (.str s)
  | .array items => (toItems? items).map .arr
  | .map fields => (toFields? fields).map Value.object
  | .closure .. => none

/-- `toValue?` item by item. -/
def toItems? : List Datum → Option (List Value)
  | [] => some []
  | d :: ds => do some ((← toValue? d) :: (← toItems? ds))

/-- `toValue?` field by field. -/
def toFields? : List (String × Datum) → Option (List (String × Value))
  | [] => some []
  | (k, d) :: rest => do some ((k, ← toValue? d) :: (← toFields? rest))

end

/-! ## Texts -/

/-- The name of the type, as faults give it. -/
def typeName : Datum → String
  | .unit => "()"
  | .bool _ => "bool"
  | .int _ => "i64"
  | .float _ => "f64"
  | .str _ => "string"
  | .array _ => "array"
  | .map _ => "map"
  | .closure .. => "Fn"

/-- The least magnitude that people see without an exponent: `10 ^ -13` in single precision. -/
def leastPlain : Float := 9.9999998245167e-14

/-- The greatest magnitude that people see without an exponent: `10 ^ 13` in single precision. -/
def greatestPlain : Float := 9999999827968

/-- A double for people: positional from `leastPlain` to `greatestPlain`, with an exponent elsewhere. -/
def displayStyle (x : Float) : Number.MarkedStyle :=
  if leastPlain ≤ x.abs ∧ x.abs ≤ greatestPlain then ⟨.up, -14, 13, false⟩
  else ⟨.up, 0, 0, false⟩

/-- A double as a datum: positional from `0.00001` up to sixteen digits. -/
def debugStyle : Number.MarkedStyle := ⟨.up, -5, 16, false⟩

/-- The text of a double. -/
def floatText (style : Number.MarkedStyle) (x : Float) : String :=
  match Number.Dyadic.ofFloat? x with
  | some d => String.ofList (d.marked style)
  | none => if x == x then (if x < 0 then "-inf" else "inf") else "NaN"

mutual

/-- The text that shows what kind of datum it is. -/
def debug : Datum → String
  | .unit => "()"
  | .bool b => if b then "true" else "false"
  | .int n => String.ofList (Json.intText n)
  | .float x => floatText debugStyle x
  | .str s => Text.quoted s
  | .array items => "[" ++ ", ".intercalate (debugItems items) ++ "]"
  | .map fields => "#\x7b" ++ ", ".intercalate (debugFields fields) ++ "\x7d"
  | .closure .. => "Fn(" ++ closureName ++ ")"

/-- `debug` item by item. -/
def debugItems : List Datum → List String
  | [] => []
  | d :: ds => debug d :: debugItems ds

/-- `debug` field by field. -/
def debugFields : List (String × Datum) → List String
  | [] => []
  | (k, d) :: rest => (Text.quoted k ++ ": " ++ debug d) :: debugFields rest

end

/-- The text for people: a string as it is, the unit as nothing, zero without a sign. -/
def display : Datum → String
  | .unit => ""
  | .str s => s
  | .float x => if x == 0 then "0.0" else floatText (displayStyle x) x
  | d => d.debug

/-- The value that goes into a log line; a datum that has none is shown for people. -/
def toValue (d : Datum) : Value := d.toValue?.getD (.str d.display)

/-! ## Sizes -/

/-- How much a datum holds: the bytes of its strings, the items of its arrays, the fields of its
maps, each over all levels. -/
structure Extent where
  bytes : Nat := 0
  items : Nat := 0
  fields : Nat := 0
deriving DecidableEq, Repr, Inhabited

/-- The extent of two data together. -/
def Extent.add (a b : Extent) : Extent :=
  ⟨a.bytes + b.bytes, a.items + b.items, a.fields + b.fields⟩

mutual

/-- How much a datum holds. -/
def extent : Datum → Extent
  | .str s => { bytes := s.utf8ByteSize }
  | .array items => extentItems items
  | .map fields => extentFields fields
  | _ => {}

/-- The extent of the items and their number. -/
def extentItems : List Datum → Extent
  | [] => {}
  | d :: ds => (Extent.add (extent d) { items := 1 }).add (extentItems ds)

/-- The extent of the fields and their number. -/
def extentFields : List (String × Datum) → Extent
  | [] => {}
  | (_, d) :: rest => (Extent.add (extent d) { fields := 1 }).add (extentFields rest)

end

/-! ## Comparing -/

mutual

/-- Equality as programs see it: numbers compare by value, data of different types differ. -/
def equals : Datum → Datum → Bool
  | .unit, .unit => true
  | .bool a, .bool b => a == b
  | .int a, .int b => a == b
  | .float a, .float b => a == b
  | .int a, .float b => Float.ofInt a == b
  | .float a, .int b => a == Float.ofInt b
  | .str a, .str b => a == b
  | .array a, .array b => equalItems a b
  | .map a, .map b => equalFields a b
  | _, _ => false

/-- `equals` item by item. -/
def equalItems : List Datum → List Datum → Bool
  | [], [] => true
  | a :: as, b :: bs => equals a b && equalItems as bs
  | _, _ => false

/-- `equals` field by field. -/
def equalFields : List (String × Datum) → List (String × Datum) → Bool
  | [], [] => true
  | (k, a) :: as, (l, b) :: bs => k == l && equals a b && equalFields as bs
  | _, _ => false

end

end Datum

end AppletHost.Script
