import AppletHost.Push.Connections

/-!
# Serving the push channel

A viewer that connects gets a `connection` frame, joins the set, and is greeted by the handler. From
then on every text it sends is answered: a `callMethod` frame by what the handler makes of the call,
anything else by an error.

`Server.step` is one indivisible step of a connection's session, of its writer, or of whoever
broadcasts. A text is answered in two of them, since the call takes its time: it is read, and later
its reply is sent.
-/

namespace AppletHost.Push

/-- What a text from a viewer asks for. -/
inductive Inbound where
  | call (method : String) (args : Value)
  /-- A well-formed frame of a type that viewers do not send. -/
  | unknownType (name : String)
  | malformed
deriving Repr, Inhabited

namespace Inbound

/-- What a text asks for. -/
def ofText (text : String) : Inbound :=
  match Envelope.parse 0 text with
  | .error (.unknownType name) => .unknownType name
  | .error _ => .malformed
  | .ok e =>
    match e.kind with
    | .callMethod =>
      match e.payload? with
      | some (.callMethod method args) => .call method args
      | _ => .malformed
    | kind => .unknownType kind.name

/-- The code of the error about a malformed frame. -/
def malformedCode : String := "INVALID_FORMAT"

/-- The code of the error about a frame of an unknown type. -/
def unknownTypeCode : String := "UNKNOWN_TYPE"

/-- The payload that answers; `call` runs a method. -/
def reply {m : Type → Type} [Monad m] (call : String → Value → m MethodCallResponse) :
    Inbound → m Payload
  | .call method args => do
    let response ← call method args
    return .methodCallResponse response
  | .unknownType name =>
    return .error ("Unknown message type: " ++ name) (some unknownTypeCode)
  | .malformed => return .error "Invalid message format" (some malformedCode)

end Inbound

/-- What the push channel is for: greeting those that joined, and running methods. -/
structure Handler (σ : Type) where
  greet : σ → List Payload
  call : String → Value → StateM σ MethodCallResponse

/-- How far the session of a connection has come. -/
inductive SessionPhase where
  /-- The `connection` frame is queued. -/
  | opened
  | joined
  /-- It was greeted, and its texts are read. -/
  | serving
  /-- A text was read, and its reply is not sent yet. -/
  | answering (inbound : Inbound) (reply : Payload)
  | left
deriving Repr, Inhabited

/-- A text that was answered. -/
structure Answer where
  sender : ConnectionId
  inbound : Inbound
  reply : Envelope
  /-- Why the reply was not queued. -/
  refusal? : Option Refusal
deriving Repr, Inhabited

/-- The connections with their sessions, and the state behind the handler. -/
structure Server (σ : Type) where
  state : σ
  connections : Connections := {}
  sessions : List (ConnectionId × SessionPhase) := []
  /-- The texts that were read, with who sent them, oldest first. -/
  received : List (ConnectionId × Inbound) := []
  /-- The texts that were answered, oldest first. -/
  answers : List Answer := []
  /-- The time, as frames carry it. -/
  now : Int := 0

/-- A step of a session, a writer, a broadcaster or the clock. -/
inductive ServerStep where
  | tick (now : Int)
  | accept (capacity : Nat)
  | join (id : ConnectionId)
  | greet (id : ConnectionId)
  /-- The session reads a text, and does what it asks for. -/
  | receive (id : ConnectionId) (text : String)
  /-- The session sends the reply. -/
  | answer (id : ConnectionId)
  | leave (id : ConnectionId)
  | write (id : ConnectionId)
  | hangUp (id : ConnectionId)
  | broadcast (e : Envelope)
deriving Repr, Inhabited

namespace Server

variable {σ : Type}

/-- The phase of a session. -/
def phase? (s : Server σ) (id : ConnectionId) : Option SessionPhase := s.sessions.lookup id

/-- Puts a session into another phase. -/
def enter (s : Server σ) (id : ConnectionId) (phase : SessionPhase) : Server σ :=
  { s with sessions := s.sessions.map fun session => if session.1 = id then (id, phase) else session }

/-- Sends a frame to one connection. -/
def send (s : Server σ) (id : ConnectionId) (p : Payload) : Server σ :=
  { s with connections := (s.connections.send id (.ofPayload p s.now)).2 }

/-- The connection was evicted. -/
def isEvicted (s : Server σ) (id : ConnectionId) : Bool :=
  (s.connections.get? id).any (·.isEvicted)

/-- Why a frame for a connection is not queued, if it is not. -/
def refusal? (s : Server σ) (id : ConnectionId) (e : Envelope) : Option Refusal :=
  match s.connections.get? id with
  | none => some .closed
  | some c =>
    match c.offer e with
    | .ok _ => none
    | .error refusal => some refusal

/-- Sends the reply to a text, whether or not it can be queued. -/
def answer (s : Server σ) (id : ConnectionId) (inbound : Inbound) (reply : Payload) : Server σ :=
  let e := Envelope.ofPayload reply s.now
  { s.send id reply with answers := s.answers ++ [⟨id, inbound, e, s.refusal? id e⟩] }

/-- One step. A step whose session is not in a place to take it changes nothing. -/
def step (h : Handler σ) (s : Server σ) : ServerStep → Server σ
  | .tick now => { s with now }
  | .accept capacity =>
    let (id, connections) := s.connections.add capacity
    let s := { s with connections, sessions := s.sessions ++ [(id, SessionPhase.opened)] }
    s.send id (.connection true s.now)
  | .join id =>
    match s.phase? id with
    | some .opened => { s with connections := s.connections.insert id }.enter id .joined
    | _ => s
  | .greet id =>
    match s.phase? id with
    | some .joined => ((h.greet s.state).foldl (fun s p => s.send id p) s).enter id .serving
    | _ => s
  | .receive id text =>
    match s.phase? id with
    | some .serving =>
      if s.isEvicted id then s
      else
        let inbound := Inbound.ofText text
        let (reply, state) := (inbound.reply h.call).run s.state
        { s with state, received := s.received ++ [(id, inbound)] }.enter id
          (.answering inbound reply)
    | _ => s
  | .answer id =>
    match s.phase? id with
    | some (.answering inbound reply) => (s.answer id inbound reply).enter id .serving
    | _ => s
  | .leave id =>
    match s.phase? id with
    | some .serving =>
      let connections := s.connections.remove id
      let connections :=
        if s.isEvicted id then connections.modify id (·.close) else connections
      { s with connections }.enter id .left
    | _ => s
  | .write id => { s with connections := s.connections.modify id (·.takeNext) }
  | .hangUp id => { s with connections := s.connections.modify id (·.close) }
  | .broadcast e => { s with connections := (s.connections.broadcast e).2 }

/-- Steps one after another. -/
def run (h : Handler σ) (s : Server σ) (steps : List ServerStep) : Server σ :=
  steps.foldl (step h) s

end Server

end AppletHost.Push
