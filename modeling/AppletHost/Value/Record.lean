import AppletHost.Number.Word
import AppletHost.Value.Basic

/-!
# Decoding records

A record is given as an object, by field name, or as the array of its fields in order. Fields that
the record does not know are ignored; an array may stop early but not go on too long. A missing
field takes its default if it has one.
-/

namespace AppletHost.Value

/-- A record before its fields are decoded. -/
inductive Record where
  | named (fields : Fields)
  | listed (items : List Value)
deriving Repr, Inhabited

/-- The value as a record with `arity` fields. -/
def record? (arity : Nat) : Value → Option Record
  | .obj fields => some (.named fields)
  | .arr items => if items.length ≤ arity then some (.listed items) else none
  | _ => none

namespace Record

variable {α : Type}

/-- The field of that name, which is the one at that position. -/
def get? (r : Record) (name : String) (position : Nat) : Option Value :=
  match r with
  | .named fields => Fields.get? fields name
  | .listed items => items[position]?

/-- A field that has to be there. -/
def required (r : Record) (name : String) (position : Nat) (decode : Value → Option α) :
    Option α :=
  (r.get? name position).bind decode

/-- A field that has a default. -/
def defaulted (r : Record) (name : String) (position : Nat) (decode : Value → Option α)
    (default : α) : Option α :=
  match r.get? name position with
  | none => some default
  | some v => decode v

end Record

/-- Any value. -/
def any? (v : Value) : Option Value := some v

/-- `null`, or a value that decodes. -/
def option? {α : Type} (decode : Value → Option α) : Value → Option (Option α)
  | .null => some none
  | v => (decode v).map some

/-- An array of values that all decode. -/
def list? {α : Type} (decode : Value → Option α) : Value → Option (List α)
  | .arr items => items.mapM decode
  | _ => none

/-- A natural number below `bound`. A double never is one. -/
def natBelow? (bound : Nat) : Value → Option Nat
  | .int n => if 0 ≤ n ∧ n < bound then some n.toNat else none
  | _ => none

/-- A signed integer of 64 bits. -/
def int64? : Value → Option Int
  | .int n => if Number.isSigned64 n then some n else none
  | _ => none

/-- The name of a constant: a string, or an object with `null` under that one name. -/
def constant? : Value → Option String
  | .str s => some s
  | .obj [(name, .null)] => some name
  | _ => none

end AppletHost.Value
