import AppletHost.Json.Reader
import AppletHost.Json.Writer
import AppletHost.Number.Word
import AppletHost.Push.Payload

/-!
# Envelopes

Every frame of the push channel is the JSON text of an object with `type`, `payload` and
`timestamp`. Reading checks the three in this order, after the JSON itself, and only then whether
the type is known. A frame without a usable timestamp gets the time it was read.
-/

namespace AppletHost.Push

/-- Why a text is no well-formed envelope. -/
inductive ProtocolFault where
  | invalidJson
  | notAnObject
  | typeNotString
  | payloadNotObject
  | timestampNotNumber
deriving DecidableEq, Repr, Inhabited

/-- Errors of the push channel. -/
inductive PushError where
  | malformed (fault : ProtocolFault)
  | unknownType (name : String)
  | notConnected
deriving DecidableEq, Repr, Inhabited

/-- What is wrong with the text. -/
def ProtocolFault.message : ProtocolFault → String
  | .invalidJson => "invalid JSON"
  | .notAnObject => "envelope must be an object"
  | .typeNotString => "\x60type\x60 must be a string"
  | .payloadNotObject => "\x60payload\x60 must be an object"
  | .timestampNotNumber => "\x60timestamp\x60 must be a number"

/-- The text of the error. -/
def PushError.message : PushError → String
  | .malformed fault => "Protocol error: " ++ fault.message
  | .unknownType name => "Unknown message type: " ++ name
  | .notConnected => "Not connected"

/-- A frame of the push channel; the payload is an object, the timestamp in milliseconds. -/
structure Envelope where
  kind : MessageType
  payload : Value
  timestamp : Int
deriving Repr, Inhabited

namespace Envelope

/-- The envelope of a payload. -/
def ofPayload (p : Payload) (timestamp : Int) : Envelope := ⟨p.kind, p.encode, timestamp⟩

/-- The payload of an envelope, decoded as its own kind. -/
def payload? (e : Envelope) : Option Payload := Payload.decode? e.kind e.payload

/-- The text of an envelope. -/
def write (e : Envelope) : List Char :=
  "\x7b\"type\":".toList ++ Json.quote e.kind.name ++ ",\"payload\":".toList
    ++ Json.write e.payload ++ ",\"timestamp\":".toList ++ Json.intText e.timestamp ++ ['\x7d']

/-- The text of an envelope as a string. -/
def toJson (e : Envelope) : String := String.ofList e.write

/-- The timestamp of a frame that is read at `now`. -/
def timestamp? (now : Int) : Option Value → Option Int
  | none => some now
  | some .null => some now
  | some (.int n) => some (if n < Number.signedLimit then n else now)
  | some (.float _) => some now
  | some _ => none

/-- The envelope that a value is. -/
def ofValue (now : Int) (v : Value) : Except PushError Envelope :=
  match v with
  | .obj fields =>
    match Fields.get? fields "type" with
    | some (.str name) =>
      match Fields.get? fields "payload" with
      | some (.obj payload) =>
        match timestamp? now (Fields.get? fields "timestamp") with
        | some timestamp =>
          match MessageType.ofName? name with
          | some kind => .ok ⟨kind, .obj payload, timestamp⟩
          | none => .error (.unknownType name)
        | none => .error (.malformed .timestampNotNumber)
      | _ => .error (.malformed .payloadNotObject)
    | _ => .error (.malformed .typeNotString)
  | _ => .error (.malformed .notAnObject)

/-- The envelope that a text is, read at `now`. -/
def parse (now : Int) (text : String) : Except PushError Envelope :=
  match Json.read? text with
  | none => .error (.malformed .invalidJson)
  | some v => ofValue now v

end Envelope

end AppletHost.Push
