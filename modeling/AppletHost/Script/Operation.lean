import AppletHost.Sandbox.Limits
import AppletHost.Script.Fault
import AppletHost.Text.Search

/-!
# Operations on data

The operators of the language. Integers do not wrap: a sum that leaves 64 bits is a fault. Beside a
string, `+` appends the text of whatever the other side is. A datum that an operation makes must
stay within the limits on sizes; a limit of zero stands for none.
-/

namespace AppletHost.Script

open Sandbox (Limits)

/-- `n` exceeds the limit. -/
def exceeds (n limit : Nat) : Bool := limit != 0 && limit < n

/-- The limit that a datum exceeds. -/
def Datum.excess? (limits : Limits) (d : Datum) : Option Excess :=
  let extent := d.extent
  if exceeds extent.bytes limits.maxStringSize then some .text
  else if exceeds extent.items limits.maxArraySize then some .array
  else if exceeds extent.fields limits.maxMapSize then some .map
  else none

/-- The datum, if it stays within the limits. -/
def Datum.within (limits : Limits) (d : Datum) : Except Fault Datum :=
  match d.excess? limits with
  | some excess => .error (.tooLarge excess)
  | none => .ok d

/-- The two numbers as doubles, if both are numbers and not both integers. -/
def Datum.floats? : Datum → Datum → Option (Float × Float)
  | .float x, .float y => some (x, y)
  | .int n, .float y => some (Float.ofInt n, y)
  | .float x, .int n => some (x, Float.ofInt n)
  | _, _ => none

/-- The sum of two data. -/
def Datum.plus (a b : Datum) : Except Fault Datum :=
  match a, b with
  | .int m, .int n =>
    if Number.isSigned64 (m + n) then .ok (.int (m + n)) else .error (.additionOverflow m n)
  | .str s, d => .ok (.str (s ++ d.display))
  | d, .str s => .ok (.str (d.display ++ s))
  | .array xs, .array ys => .ok (.array (xs ++ ys))
  | .map xs, .map ys => .ok (.map (Fields.merge xs ys))
  | a, b =>
    match floats? a b with
    | some (x, y) => .ok (.float (x + y))
    | none => .error (.functionNotFound Operator.add.symbol)

/-- A string with another one taken out wherever it stands; out of nothing, the other one is left. -/
def textWithout (s t : String) : String :=
  if s = "" then t else String.ofList (Text.without t.toList s.toList)

/-- The difference of two data. -/
def Datum.minus (a b : Datum) : Except Fault Datum :=
  match a, b with
  | .int m, .int n =>
    if Number.isSigned64 (m - n) then .ok (.int (m - n)) else .error (.subtractionOverflow m n)
  | .str s, .str t => .ok (.str (textWithout s t))
  | a, b =>
    match floats? a b with
    | some (x, y) => .ok (.float (x - y))
    | none => .error (.functionNotFound Operator.sub.symbol)

/-- Whether one datum comes before the other; data of different types never do. -/
def Datum.lessThan (a b : Datum) : Except Fault Bool :=
  match a, b with
  | .int m, .int n => .ok (m < n)
  | .str s, .str t => .ok (s < t)
  | .bool p, .bool q => .ok (!p && q)
  | .array _, .array _ => .error (.functionNotFound Operator.lt.symbol)
  | .map _, .map _ => .error (.functionNotFound Operator.lt.symbol)
  | .closure .., .closure .. => .error (.functionNotFound Operator.lt.symbol)
  | a, b =>
    match floats? a b with
    | some (x, y) => .ok (x < y)
    | none => .ok false

/-- What an operator makes of two data. -/
def Operator.apply (limits : Limits) (op : Operator) (a b : Datum) : Except Fault Datum :=
  match op with
  | .add => a.plus b >>= Datum.within limits
  | .sub => a.minus b
  | .lt => (a.lessThan b).map .bool
  | .eq => .ok (.bool (a.equals b))

/-- A property of a property … of a datum; a map has every property, if only as the unit. -/
def Datum.follow (d : Datum) : List String → Except Fault Datum
  | [] => .ok d
  | name :: rest =>
    match d with
    | .map fields => ((Fields.get? fields name).getD .unit).follow rest
    | d => .error (.noGetter name d.typeName)

/-- Sets a property of a datum; only a map has properties to set. -/
def Datum.assign (d : Datum) (name : String) (v : Datum) : Except Fault Datum :=
  match d with
  | .map fields => .ok (.map (Fields.set fields name v))
  | d => .error (.noSetter name d.typeName v.typeName)

end AppletHost.Script
