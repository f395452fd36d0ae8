import AppletHost.Json.Reader
import AppletHost.Script.Basic
import AppletHost.Text.Blank

/-!
# Reading programs

A program is written as a JSON array of statements, each an array that starts with its kind, and
terms are written the same way; a JSON value that is no array stands for itself. A text of nothing but
blanks is the empty program.
-/

namespace AppletHost.Script

/-- The operator of that name. -/
def Operator.ofName? : String → Option Operator
  | "add" => some .add
  | "sub" => some .sub
  | "lt" => some .lt
  | "eq" => some .eq
  | _ => none

/-- The strings of an array. -/
def names? (vs : List Value) : Option (List String) := vs.mapM Value.str?

/-- A property path: one name, or two joined by a dot. -/
def path (text : String) : String × Option String :=
  match text.splitOn "." with
  | [name, inner] => (name, some inner)
  | _ => (text, none)

mutual

/-- The term that a value denotes. -/
def term? (v : Value) : Option Term :=
  match v with
  | .arr (.str "lit" :: v :: _) => some (.literal v)
  | .arr (.str "data" :: keys) => (names? keys).map fun keys => .self ("data" :: keys)
  | .arr (.str "this" :: keys) => (names? keys).map .self
  | .arr (.str "var" :: .str name :: _) => some (.variable name)
  | .arr (.str "arr" :: items) => (terms? items).map .array
  | .arr (.str "map" :: .obj fields :: _) => (fieldTerms? fields).map .record
  | .arr (.str "fn" :: .arr params :: .arr body :: _) => do
    some (.closure (← names? params) (← statements? body))
  | .arr (.str "timeout" :: args) => (terms? args).map (.call "setTimeout")
  | .arr (.str "interval" :: args) => (terms? args).map (.call "setInterval")
  | .arr (.str "call" :: .str name :: args) => (terms? args).map (.call name)
  | .arr (.str op :: a :: b :: _) => do
    some (.operate (← Operator.ofName? op) (← term? a) (← term? b))
  | .arr _ => none
  | .obj _ => none
  | v => some (.literal v)

/-- The terms that values denote. -/
def terms? (vs : List Value) : Option (List Term) :=
  match vs with
  | [] => some []
  | v :: vs => do some ((← term? v) :: (← terms? vs))

/-- The terms that the fields of an object denote. -/
def fieldTerms? (fields : List (String × Value)) : Option (List (String × Term)) :=
  match fields with
  | [] => some []
  | (name, v) :: rest => do some ((name, ← term? v) :: (← fieldTerms? rest))

/-- The statement that a value denotes. -/
def statement? (v : Value) : Option Statement :=
  match v with
  | .arr (.str "setData" :: args) => (terms? args).map fun args => .evaluate (.call "setData" args)
  | .arr (.str "app" :: args) => (terms? args).map fun args => .evaluate (.call "App" args)
  | .arr (.str "print" :: args) => (terms? args).map fun args => .evaluate (.call "print" args)
  | .arr (.str "debug" :: args) => (terms? args).map fun args => .evaluate (.call "debug" args)
  | .arr (.str "console" :: .str method :: args) =>
    (terms? args).map fun args => .evaluate (.console method args)
  | .arr (.str "clear" :: .str name :: args) =>
    (terms? args).map fun args => .evaluate (.call name args)
  | .arr (.str "set" :: .str target :: v :: _) =>
    (term? v).map (.assign (path target).1 (path target).2)
  | .arr (.str "let" :: .str name :: v :: _) => (term? v).map (.define name)
  | .arr (.str "do" :: v :: _) => (term? v).map .evaluate
  | .arr (.str "throw" :: v :: _) => (term? v).map .raise
  | .arr (.str "return" :: v :: _) => (term? v).map .yield
  | .arr [.str "if", condition, .arr yes] => do
    some (.branch (← term? condition) (← statements? yes) [])
  | .arr (.str "if" :: condition :: .arr yes :: .arr no :: _) => do
    some (.branch (← term? condition) (← statements? yes) (← statements? no))
  | .arr (.str "spin" :: _) => some .spin
  | _ => none

/-- The statements that values denote. -/
def statements? (vs : List Value) : Option (List Statement) :=
  match vs with
  | [] => some []
  | v :: vs => do some ((← statement? v) :: (← statements? vs))

end

/-- The program that a value denotes. -/
def Program.ofValue? : Value → Option Program
  | .arr statements => statements? statements
  | _ => none

/-- The program that a text is. -/
def Program.read? (text : String) : Option Program :=
  if Text.allBlank text.toList then some []
  else (Json.readWithin? text.length text).bind ofValue?

end AppletHost.Script
