import AppletHost.Script.Datum

/-!
# Faults

Why a program stops before its end. A fault is contained: it ends the call it happens in and is
reported as a log line of the app.
-/

namespace AppletHost.Script

/-- What is too large when a datum exceeds a limit. -/
inductive Excess where
  | text
  | array
  | map
deriving DecidableEq, Repr, Inhabited

/-- The words for what is too large. -/
def Excess.message : Excess → String
  | .text => "Length of string"
  | .array => "Size of array/BLOB"
  | .map => "Size of object map"

/-- Why a program stops. -/
inductive Fault where
  /-- The program raised it, or the host did with a text. -/
  | raised (d : Datum)
  | functionNotFound (name : String)
  | variableNotFound (name : String)
  | noThis
  | noGetter (property type : String)
  | noSetter (property type valueType : String)
  | notBoolean (type : String)
  | additionOverflow (a b : Int)
  | subtractionOverflow (a b : Int)
  | tooLarge (excess : Excess)
  | tooManyOperations
  /-- The text is no program. -/
  | notAProgram
deriving Inhabited

namespace Fault

/-- A fault that the host raises. -/
def ofText (text : String) : Fault := .raised (.str text)

/-- The text of the fault. -/
def message : Fault → String
  | .raised d =>
    if d.display = "" then "Runtime error" else "Runtime error: " ++ d.display
  | .functionNotFound name => "Function not found: " ++ name
  | .variableNotFound name => "Variable not found: " ++ name
  | .noThis => "'this' not bound"
  | .noGetter property type =>
    "Unknown property '" ++ property ++ "' - a getter is not registered for type '" ++ type ++ "'"
  | .noSetter property type valueType =>
    "No writable property '" ++ property ++ "' - a setter is not registered for type '" ++ type
      ++ "' to handle '" ++ valueType ++ "'"
  | .notBoolean type => "Data type incorrect: " ++ type ++ " (expecting bool)"
  | .additionOverflow a b =>
    "Addition overflow: " ++ (Datum.int a).debug ++ " + " ++ (Datum.int b).debug
  | .subtractionOverflow a b =>
    "Subtraction overflow: " ++ (Datum.int a).debug ++ " - " ++ (Datum.int b).debug
  | .tooLarge excess => excess.message ++ " too large"
  | .tooManyOperations => "Too many operations"
  | .notAProgram => "compile error"

end Fault

end AppletHost.Script
