import AppletHost.Push.Envelope
import AppletHost.Push.Reconnect

/-!
# Push clients

A client keeps a connection open: it connects, tells what it sees as events, and connects again after
a failure, as its policy says. Its owner holds a handle to send frames while a connection is open, and
to close the client for good.

`Client.step` is one indivisible step of the client, of the network, or of the owner. The owner may
close the client at any time; the client notices at its next step, unless it is about to write a frame.
It waits for that to come to an end first, and where the write fails the connection is over like one
that has closed.
-/

namespace AppletHost.Push

/-- What a client tells. -/
inductive ClientEvent where
  | connected
  | message (e : Envelope)
  | disconnected
  /-- It stops after so many failures in a row. -/
  | gaveUp (attempts : Nat)
deriving Repr, Inhabited

/-- Where a client is. -/
inductive ClientPhase where
  | connecting
  /-- A connection has opened; nobody was told yet. -/
  | opened
  | serving
  /-- A frame of the owner is being written. -/
  | writing (text : String)
  /-- The connection is over, by the owner's wish or not; nobody was told yet. -/
  | parted (byOwner : Bool)
  /-- It waits before it connects again. -/
  | waiting (delay : Number.Duration)
  | stopped
deriving DecidableEq, Repr, Inhabited

/-- How many frames of the owner wait at most. -/
def outboundCapacity : Nat := 64

/-- A client and its handle. -/
structure Client where
  reconnect : ReconnectState
  phase : ClientPhase := .connecting
  /-- A connection is open, as the handle tells. -/
  isConnected : Bool := false
  /-- The failures in a row, as the handle tells. -/
  attempts : Nat := 0
  /-- The owner has closed the client. -/
  isClosing : Bool := false
  /-- The owner's frames that are not written yet, oldest first. -/
  outbound : List String := []
  /-- The frames that were written to the connection that is or was open last. -/
  written : List String := []
  /-- What was told so far, oldest first. -/
  events : List ClientEvent := []
deriving Repr, Inhabited

/-- A step of the client, the network or the owner. -/
inductive ClientStep where
  | connectFails
  | connectOpens
  /-- The client tells that a connection has opened or is over. -/
  | tell
  | receive (text : String)
  /-- The client begins to write the next frame of its owner. -/
  | write
  | wrote
  | writeFails
  /-- The connection closes or breaks. -/
  | lose
  /-- The time to wait is over. -/
  | wake
  | close
  /-- The client notices that it was closed. -/
  | notice
  | send (text : String)
deriving Repr, Inhabited

namespace Client

/-- A client before its first attempt. -/
def ofPolicy (policy : ReconnectPolicy) : Client := { reconnect := { policy } }

/-- Tells an event. -/
def tell (c : Client) (e : ClientEvent) : Client := { c with events := c.events ++ [e] }

/-- The client stops. -/
def stop (c : Client) : Client := { c with phase := .stopped, isConnected := false }

/-- A connection failed, or was lost. -/
def fail (c : Client) : Client :=
  let (decision, reconnect) := c.reconnect.onFailure
  let c := { c with reconnect, attempts := reconnect.attempts }
  match decision with
  | .retry delay => { c with phase := .waiting delay }
  | .giveUp => (c.tell (.gaveUp c.attempts)).stop

/-- The connection is over. -/
def part (c : Client) (byOwner : Bool) : Client :=
  { c with phase := .parted byOwner, isConnected := false }

/-- A connection opened. Frames that were meant for another one are dropped. -/
def opens (c : Client) : Client :=
  { c with
    reconnect := c.reconnect.onOpen
    attempts := 0
    outbound := []
    written := []
    isConnected := true
    phase := .opened }

/-- The owner sends a frame; tells whether it will be written while the connection lasts. -/
def send (c : Client) (text : String) : Except PushError Unit × Client :=
  if c.isConnected ∧ c.outbound.length < outboundCapacity then
    (.ok (), { c with outbound := c.outbound ++ [text] })
  else (.error .notConnected, c)

/-- The frame of a method call, sent at `now`. -/
def callText (method : String) (args : Value) (now : Int) : String :=
  (Envelope.ofPayload (.callMethod method args) now).toJson

/-- Tells the message of a frame, if the frame is well-formed. -/
def receive (c : Client) (text : String) (now : Int) : Client :=
  match Envelope.parse now text with
  | .ok e => c.tell (.message e)
  | .error _ => c

/-- One step at `now`. A step that the client is not in a place to take changes nothing. -/
def step (now : Int) (c : Client) : ClientStep → Client
  | .close => { c with isClosing := true }
  | .send text => (c.send text).2
  | .connectFails =>
    if c.phase = .connecting then (if c.isClosing then c.stop else c.fail) else c
  | .connectOpens =>
    if c.phase = .connecting then (if c.isClosing then c.stop else c.opens) else c
  | .tell =>
    match c.phase with
    | .opened => { c.tell .connected with phase := .serving }
    | .parted true => (c.tell .disconnected).stop
    | .parted false => (c.tell .disconnected).fail
    | _ => c
  | .receive text =>
    if c.phase = .serving then (if c.isClosing then c.part true else c.receive text now) else c
  | .write =>
    if c.phase = .serving then
      if c.isClosing then c.part true
      else match c.outbound with
        | [] => c
        | text :: outbound => { c with outbound, phase := .writing text }
    else c
  | .wrote =>
    match c.phase with
    | .writing text => { c with phase := .serving, written := c.written ++ [text] }
    | _ => c
  | .writeFails =>
    match c.phase with
    | .writing _ => c.part false
    | _ => c
  | .lose => if c.phase = .serving then c.part c.isClosing else c
  | .wake =>
    match c.phase with
    | .waiting _ => { c with phase := .connecting }
    | _ => c
  | .notice =>
    if c.isClosing then
      match c.phase with
      | .connecting => c.stop
      | .waiting _ => c.stop
      | .serving => c.part true
      | _ => c
    else c

/-- Steps one after another. -/
def run (now : Int) (c : Client) (steps : List ClientStep) : Client := steps.foldl (step now) c

/-- The client when nobody ever lets it connect. -/
def unreachable (now : Int) (c : Client) : Client :=
  c.run now (List.replicate (c.reconnect.policy.maxAttempts + 1) [.connectFails, .wake]).flatten

end Client

end AppletHost.Push
