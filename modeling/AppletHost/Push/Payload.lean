import AppletHost.Bridge.Event

/-!
# Payloads of the push channel

What a frame of the push channel carries, by kind of message. `Payload.encode` and `Payload.decode?`
are each other's inverse on the kind of the payload.
-/

namespace AppletHost.Push

/-- The kinds of messages. -/
inductive MessageType where
  | render | console | callMethod | methodCallResponse | connection | error
deriving DecidableEq, Repr, Inhabited

namespace MessageType

/-- The name of a kind on the wire. -/
def name : MessageType → String
  | .render => "render"
  | .console => "console"
  | .callMethod => "callMethod"
  | .methodCallResponse => "methodCallResponse"
  | .connection => "connection"
  | .error => "error"

/-- The kind of that name. -/
def ofName? (name : String) : Option MessageType :=
  [MessageType.render, .console, .callMethod, .methodCallResponse, .connection, .error].find?
    fun kind => kind.name = name

theorem ofName?_name (kind : MessageType) : ofName? kind.name = some kind := by
  cases kind <;> decide

end MessageType

/-- The reply to a method call. -/
structure MethodCallResponse where
  success : Bool
  method : String
  result : Option Value
  error : Option String
deriving Repr, Inhabited

/-- The reply that tells an outcome. -/
def MethodCallResponse.ofOutcome (method : String) (outcome : MethodOutcome) :
    MethodCallResponse :=
  ⟨outcome.isSuccess, method, outcome.result?, outcome.errorMessage? method⟩

/-- The reply that tells a failure. -/
def MethodCallResponse.failure (method message : String) : MethodCallResponse :=
  ⟨false, method, none, some message⟩

/-- What a message carries. -/
inductive Payload where
  | render (html : String) (data : Value)
  | console (level : LogLevel) (args : List Value)
  | callMethod (method : String) (args : Value)
  | methodCallResponse (response : MethodCallResponse)
  | connection (connected : Bool) (timestamp : Int)
  | error (message : String) (code : Option String)
deriving Repr, Inhabited

namespace Payload

/-- The kind of message that carries the payload. -/
def kind : Payload → MessageType
  | .render .. => .render
  | .console .. => .console
  | .callMethod .. => .callMethod
  | .methodCallResponse _ => .methodCallResponse
  | .connection .. => .connection
  | .error .. => .error

/-- A field that is left out when it is empty. -/
def optionalField (name : String) : Option Value → Fields
  | none => []
  | some v => [(name, v)]

/-- The state of a connection on the wire. -/
def statusName (connected : Bool) : String := if connected then "connected" else "disconnected"

/-- The payload as a value. -/
def encode : Payload → Value
  | .render html data => .obj [("data", data), ("html", .str html)]
  | .console level args => .obj [("args", .arr args), ("level", .str level.name)]
  | .callMethod method args => .obj [("args", args), ("methodName", .str method)]
  | .methodCallResponse r =>
    .obj (optionalField "error" (r.error.map .str) ++ [("methodName", .str r.method)]
      ++ optionalField "result" r.result ++ [("success", .bool r.success)])
  | .connection connected timestamp =>
    .obj [("status", .str (statusName connected)), ("timestamp", .int timestamp)]
  | .error message code =>
    .obj (optionalField "code" (code.map .str) ++ [("message", .str message)])

/-- The state of a connection that a value denotes. -/
def status? (v : Value) : Option Bool :=
  v.constant?.bind fun name =>
    if name = "connected" then some true else if name = "disconnected" then some false else none

/-- The payload of that kind which a value denotes. -/
def decode? (kind : MessageType) (v : Value) : Option Payload :=
  match kind with
  | .render => do
    let r ← v.record? 2
    some (.render (← r.required "html" 0 Value.str?) (← r.required "data" 1 Value.any?))
  | .console => do
    let r ← v.record? 2
    some (.console (← r.required "level" 0 LogLevel.decode?)
      (← r.defaulted "args" 1 Value.arr? []))
  | .callMethod => do
    let r ← v.record? 2
    some (.callMethod (← r.required "methodName" 0 Value.str?)
      (← r.defaulted "args" 1 Value.any? .null))
  | .methodCallResponse => do
    let r ← v.record? 4
    let success ← r.required "success" 0 Value.bool?
    let method ← r.required "methodName" 1 Value.str?
    let result ← r.defaulted "result" 2 (Value.option? Value.any?) none
    let error ← r.defaulted "error" 3 (Value.option? Value.str?) none
    some (.methodCallResponse ⟨success, method, result, error⟩)
  | .connection => do
    let r ← v.record? 2
    some (.connection (← r.required "status" 0 status?)
      (← r.required "timestamp" 1 Value.int64?))
  | .error => do
    let r ← v.record? 2
    some (.error (← r.required "message" 0 Value.str?)
      (← r.defaulted "code" 1 (Value.option? Value.str?) none))

end Payload

end AppletHost.Push
