import AppletHost.Toml.Moment
import AppletHost.Value.Basic

/-!
# Tables of a configuration file

What the lines of a file build, before it is a value. A key is set once, a table is opened once, and
neither an inline table nor a table made by dotted keys is opened again. Fields keep the order in
which they came, because the first one decides whether a table is a moment in disguise
(`momentName`).
-/

namespace AppletHost.Toml

/-- How a table came to be: on the way to another, by dotted keys, or by its own header. -/
inductive Origin where
  | implied
  | dotted
  | header
deriving DecidableEq, Repr

/-- What stands under a name. The newest of an array of tables comes first. -/
inductive Node where
  | leaf (v : Value)
  | moment (m : Moment)
  | array (items : List Node)
  | closed (fields : List (String × Node))
  | table (origin : Origin) (fields : List (String × Node))
  | tables (elements : List (List (String × Node)))
deriving Inhabited

/-- The fields of a table under construction. -/
abbrev Table := List (String × Node)

namespace Table

/-- The node under a name. -/
def get? (t : Table) (name : String) : Option Node := List.lookup name t

/-- Puts a node under a name: in the place of the one that is there, or at the end. -/
def set (t : Table) (name : String) (node : Node) : Table :=
  if (t.get? name).isSome then t.map fun f => if f.1 = name then (name, node) else f
  else t ++ [(name, node)]

/-- Takes the node under a name away. -/
def remove (t : Table) (name : String) : Table := t.filter fun f => f.1 != name

/--
Sets a dotted key; `none` if it is set already or runs through something that is closed to it. On
its way it may cross tables that no header opened and the newest of an array of tables, but it only
ends in a table that dotted keys made: `ends` tells whether it may end in this one.
-/
def setKey? (t : Table) (node : Node) (ends : Bool) : (key : List String) → Option Table
  | [] => none
  | [name] => if ends && (t.get? name).isNone then some (t.set name node) else none
  | name :: rest =>
    match t.get? name with
    | none => (setKey? [] node true rest).map fun inner => t.set name (.table .dotted inner)
    | some (.table .header _) => none
    | some (.table origin inner) =>
      (setKey? inner node (origin = .dotted) rest).map fun inner =>
        t.set name (.table origin inner)
    | some (.tables (last :: earlier)) =>
      (setKey? last node false rest).map fun last => t.set name (.tables (last :: earlier))
    | some _ => none

/-- Opens the table of a header. One that was only implied so far moves to the end. -/
def open? (t : Table) : (path : List String) → Option Table
  | [] => none
  | [name] =>
    match t.get? name with
    | none => some (t.set name (.table .header []))
    | some (.table .implied inner) => some ((t.remove name).set name (.table .header inner))
    | some _ => none
  | name :: rest =>
    match t.get? name with
    | none => (open? [] rest).map fun inner => t.set name (.table .implied inner)
    | some (.table origin inner) =>
      (open? inner rest).map fun inner => t.set name (.table origin inner)
    | some (.tables (last :: earlier)) =>
      (open? last rest).map fun last => t.set name (.tables (last :: earlier))
    | some _ => none

/-- Adds a table to the array of tables of a header. -/
def append? (t : Table) : (path : List String) → Option Table
  | [] => none
  | [name] =>
    match t.get? name with
    | none => some (t.set name (.tables [[]]))
    | some (.tables elements) => some (t.set name (.tables ([] :: elements)))
    | some _ => none
  | name :: rest =>
    match t.get? name with
    | none => (append? [] rest).map fun inner => t.set name (.table .implied inner)
    | some (.table origin inner) =>
      (append? inner rest).map fun inner => t.set name (.table origin inner)
    | some (.tables (last :: earlier)) =>
      (append? last rest).map fun last => t.set name (.tables (last :: earlier))
    | some _ => none

/-- Sets a dotted key of the table that was opened under a path. -/
def setAt? (t : Table) (key : List String) (node : Node) : (path : List String) → Option Table
  | [] => t.setKey? node true key
  | name :: rest =>
    match t.get? name with
    | some (.table origin inner) =>
      (setAt? inner key node rest).map fun inner => t.set name (.table origin inner)
    | some (.tables (last :: earlier)) =>
      (setAt? last key node rest).map fun last => t.set name (.tables (last :: earlier))
    | _ => none

end Table

/-! ## Values -/

/-- The name whose text, where it comes first in a table, makes the table a moment. -/
def momentName : String := "$__toml_private_datetime"

/-- The moment that a table stands for, if it is one in disguise; the inner `none` if it fails. -/
def momentOf? : Table → Option (Option Moment)
  | (name, node) :: _ =>
    if name = momentName then
      some (match node with
        | .leaf (.str text) => Moment.ofText? text
        | _ => none)
    else none
  | [] => none

/-- The value of a table, given the values of its fields. A moment is its text. -/
def tableValue? (t : Table) (values : Option (List (String × Value))) : Option Value :=
  match momentOf? t with
  | some moment => moment.map fun m => .str m.text
  | none => values.map fun fields => .obj (Fields.ofList fields)

mutual

/-- The value of a node; `none` if a table in it is a moment in disguise that does not read. -/
def Node.value? : Node → Option Value
  | .leaf v => some v
  | .moment m => some (.str m.text)
  | .array items => (itemValues? items).map .arr
  | .closed fields => tableValue? fields (fieldValues? fields)
  | .table _ fields => tableValue? fields (fieldValues? fields)
  | .tables elements => (elementValues? elements).map fun vs => .arr vs.reverse

/-- The values of the items of an array. -/
def itemValues? : List Node → Option (List Value)
  | [] => some []
  | node :: rest =>
    match Node.value? node, itemValues? rest with
    | some v, some vs => some (v :: vs)
    | _, _ => none

/-- The values of fields. -/
def fieldValues? : List (String × Node) → Option (List (String × Value))
  | [] => some []
  | (name, node) :: rest =>
    match Node.value? node, fieldValues? rest with
    | some v, some fields => some ((name, v) :: fields)
    | _, _ => none

/-- The values of the tables of an array. -/
def elementValues? : List (List (String × Node)) → Option (List Value)
  | [] => some []
  | t :: ts =>
    match tableValue? t (fieldValues? t), elementValues? ts with
    | some v, some vs => some (v :: vs)
    | _, _ => none

end

/--
The name of a constant: a string, or a table with an empty table or array under that one name.
-/
def constant? : Value → Option String
  | .str s => some s
  | .obj [(name, .obj [])] => some name
  | .obj [(name, .arr [])] => some name
  | _ => none

end AppletHost.Toml
