import AppletHost.Value.Basic

/-!
# Programs

The logic of an app is a program: a list of statements that runs once from top to bottom and
usually registers closures, which the host calls later. `this` is the app object of such a call.
There is no way for one closure to call another, so every run of a program is as finite as its text,
except for the statement that loops forever.
-/

namespace AppletHost.Script

/-- The operators between two values. -/
inductive Operator where
  | add | sub | lt | eq
deriving DecidableEq, Repr, Inhabited

/-- How an operator is written. -/
def Operator.symbol : Operator → String
  | .add => "+"
  | .sub => "-"
  | .lt => "<"
  | .eq => "=="

mutual

/-- What has a value. -/
inductive Term where
  | literal (v : Value)
  | variable (name : String)
  /-- `this`, or a property of a property … of `this`. -/
  | self (path : List String)
  | operate (op : Operator) (a b : Term)
  | array (items : List Term)
  | record (fields : List (String × Term))
  | closure (params : List String) (body : List Statement)
  | call (name : String) (args : List Term)
  /-- A method of the console, by its name. -/
  | console (method : String) (args : List Term)

/-- What is done. -/
inductive Statement where
  | evaluate (t : Term)
  /-- Assigns a property of `this`, or a property of that property. -/
  | assign (name : String) (inner : Option String) (t : Term)
  | define (name : String) (t : Term)
  | branch (condition : Term) (yes no : List Statement)
  | raise (t : Term)
  | yield (t : Term)
  /-- Loops forever. -/
  | spin

end

instance : Inhabited Term := ⟨.literal .null⟩

instance : Inhabited Statement := ⟨.spin⟩

/-- The logic of an app. -/
abbrev Program := List Statement

end AppletHost.Script
