import AppletHost.Value.Record

/-!
# Events between logic and host

The logic of an app tells its host about new state and log lines; the host asks the logic to run a
method. `MethodOutcome` is what such a request comes to.
-/

namespace AppletHost

/-- The level of a log line. -/
inductive LogLevel where
  | log | info | warn | error
deriving DecidableEq, Repr, Inhabited

namespace LogLevel

/-- The name of the level. -/
def name : LogLevel → String
  | .log => "log"
  | .info => "info"
  | .warn => "warn"
  | .error => "error"

/-- The level of that name. -/
def ofName? (name : String) : Option LogLevel :=
  [LogLevel.log, .info, .warn, .error].find? fun level => level.name = name

/-- The level that a value denotes. -/
def decode? (v : Value) : Option LogLevel := v.constant?.bind ofName?

/-- The level of a line when none is given. -/
def standard : LogLevel := .log

theorem ofName?_name (level : LogLevel) : ofName? level.name = some level := by
  cases level <;> decide

end LogLevel

/-- What running a method comes to. -/
inductive MethodOutcome where
  | completed (v : Value)
  | notFound
  | failed (message : String)
deriving Repr, Inhabited

namespace MethodOutcome

/-- The method ran to its end. -/
def isSuccess : MethodOutcome → Bool
  | .completed _ => true
  | _ => false

/-- The value the method returned, unless it is `null`. -/
def result? : MethodOutcome → Option Value
  | .completed .null => none
  | .completed v => some v
  | _ => none

/-- Why the method `method` has no result. -/
def errorMessage? (outcome : MethodOutcome) (method : String) : Option String :=
  match outcome with
  | .completed _ => none
  | .notFound => some ("Method not found: " ++ method)
  | .failed message => some message

end MethodOutcome

/-- Which side of the bridge an event goes to. -/
inductive Direction where
  | toHost
  | toLogic
deriving DecidableEq, Repr

/-- What crosses the bridge, with the component it comes from. -/
inductive Event where
  | stateMutated (source : String) (snapshot : Value) (patch : Fields)
  | logEmitted (source : String) (level : LogLevel) (args : List Value)
  | methodRequested (source : String) (method : String) (args : Value)
deriving Repr, Inhabited

namespace Event

/-- The name of the kind of event. -/
def kind : Event → String
  | .stateMutated .. => "state_mutated"
  | .logEmitted .. => "log_emitted"
  | .methodRequested .. => "method_invocation_requested"

/-- Where the event goes. -/
def direction : Event → Direction
  | .stateMutated .. => .toHost
  | .logEmitted .. => .toHost
  | .methodRequested .. => .toLogic

/-- The component the event comes from. -/
def source : Event → String
  | .stateMutated source .. => source
  | .logEmitted source .. => source
  | .methodRequested source .. => source

end Event

end AppletHost
