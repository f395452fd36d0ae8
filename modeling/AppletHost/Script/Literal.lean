import AppletHost.Script.Operation

/-!
# Sizes of literals

A program whose text itself holds a string, an array or a map beyond the limits is no program under
these limits. An array that is written out must stay below its limit, a string and a map may reach
theirs. What a program computes is bounded where it is computed.
-/

namespace AppletHost.Script

open Sandbox (Limits)

/-- A string of the program's text stays within its limit. -/
def textFits (limits : Limits) (s : String) : Bool := !exceeds s.utf8ByteSize limits.maxStringSize

/-- An array of so many items, written out, stays within its limit. -/
def arrayFits (limits : Limits) (n : Nat) : Bool := n == 0 || !exceeds (n + 1) limits.maxArraySize

/-- A map of so many fields, written out, stays within its limit. -/
def mapFits (limits : Limits) (n : Nat) : Bool := !exceeds n limits.maxMapSize

mutual

/-- Everything in a value that is written out stays within the limits. -/
def valueFits (limits : Limits) : Value → Bool
  | .str s => textFits limits s
  | .arr items => arrayFits limits items.length && itemsFit limits items
  | .obj fields => mapFits limits fields.length && fieldsFit limits fields
  | _ => true

/-- `valueFits` item by item. -/
def itemsFit (limits : Limits) : List Value → Bool
  | [] => true
  | v :: vs => valueFits limits v && itemsFit limits vs

/-- `valueFits` field by field, with the names. -/
def fieldsFit (limits : Limits) : List (String × Value) → Bool
  | [] => true
  | (name, v) :: rest => textFits limits name && valueFits limits v && fieldsFit limits rest

end

mutual

/-- Every literal of a term stays within the limits. -/
def Term.fits (limits : Limits) : Term → Bool
  | .literal v => valueFits limits v
  | .variable _ => true
  | .self _ => true
  | .operate _ a b => a.fits limits && b.fits limits
  | .array items => arrayFits limits items.length && Term.allFit limits items
  | .record fields => mapFits limits fields.length && Term.fieldsFit limits fields
  | .closure _ body => Statement.allFit limits body
  | .call _ args => Term.allFit limits args
  | .console _ args => Term.allFit limits args

/-- `Term.fits` term by term. -/
def Term.allFit (limits : Limits) : List Term → Bool
  | [] => true
  | t :: ts => t.fits limits && Term.allFit limits ts

/-- `Term.fits` field by field, with the names. -/
def Term.fieldsFit (limits : Limits) : List (String × Term) → Bool
  | [] => true
  | (name, t) :: rest => textFits limits name && t.fits limits && Term.fieldsFit limits rest

/-- Every literal of a statement stays within the limits. -/
def Statement.fits (limits : Limits) : Statement → Bool
  | .evaluate t => t.fits limits
  | .assign _ _ t => t.fits limits
  | .define _ t => t.fits limits
  | .branch condition yes no =>
    condition.fits limits && Statement.allFit limits yes && Statement.allFit limits no
  | .raise t => t.fits limits
  | .yield t => t.fits limits
  | .spin => true

/-- `Statement.fits` statement by statement. -/
def Statement.allFit (limits : Limits) : List Statement → Bool
  | [] => true
  | s :: rest => s.fits limits && Statement.allFit limits rest

end

/-- Every literal of a program stays within the limits. -/
def Program.fits (limits : Limits) (p : Program) : Bool := Statement.allFit limits p

end AppletHost.Script
