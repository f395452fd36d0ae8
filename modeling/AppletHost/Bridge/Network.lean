import AppletHost.Bridge.Reply

/-!
# A bridge with its subscribers

Subscribers of a few simple kinds, and what becomes of the events that are published to them. A
subscriber that answers a log line with one of its own publishes from within a delivery, so deliveries
nest; the lines it publishes are not answered again, so they nest at most `deepestDelivery` levels.
-/

namespace AppletHost.Bridge

/-- What a subscriber does with an event that it accepts, beside taking note of it. -/
inductive Reaction where
  | observe
  /-- It breaks down, so that the event does not count as delivered to it. -/
  | breakDown
  /-- It unsubscribes. -/
  | leave
  /-- It publishes the values of a plain log line again, as information. -/
  | echo
  /-- It subscribes an observer. -/
  | recruit
  /-- It takes a request and answers it. -/
  | answer (outcome : String → Value → MethodOutcome)
  /-- It takes a request and never answers it. -/
  | letGo

/-- The subscriber breaks down whenever it is visited. -/
def Reaction.breaksDown : Reaction → Bool
  | .breakDown => true
  | _ => false

/-- A subscriber with its name and its ways. -/
structure Member where
  id : SubscriberId
  name : String
  reaction : Reaction

/-- A bridge with the last request made on it, and its subscribers with the newest first. -/
structure Network where
  current : Request := { method := "", exchange := {}, outer := 0 }
  members : List Member := []
  /-- What was noted and by whom, the newest first. -/
  noted : List (String × Event) := []

/-- How deep deliveries nest: an event, and an echo of it. -/
def deepestDelivery : Nat := 2

namespace Network

/-- The bridge. -/
def exchange (n : Network) : Exchange := n.current.exchange

/-- A step on the bridge, or with the reply slot. -/
def step (n : Network) (s : RequestStep) : Network := { n with current := n.current.step s }

/-- A step on the bridge. -/
def advance (n : Network) (s : Step) : Network := n.step (.bridge s)

/-- The number of the newest subscriber of that name. -/
def find? (n : Network) (name : String) : Option SubscriberId :=
  (n.members.find? fun m => m.name == name).map Member.id

/-- Adds a subscriber. -/
def subscribe (n : Network) (name : String) (accepts : Event → Bool) (reaction : Reaction) : Network :=
  let member := ⟨n.exchange.registry.next, name, reaction⟩
  { n.advance (.subscribe (.ofBool accepts)) with members := member :: n.members }

/-- Removes the registration of a subscriber; tells whether it was there. -/
def unsubscribe (n : Network) (id : SubscriberId) : Bool × Network :=
  (n.exchange.registry.isRegistered id, n.advance (.unsubscribe id))

/-- The owner of a subscriber lets go of it. -/
def release (n : Network) (id : SubscriberId) : Network := n.advance (.release id)

/-- A subscriber reaches for the reply slot; if it gets it, it answers or lets go of it. -/
def respond (n : Network) (id : SubscriberId) (outcome : Option MethodOutcome) : Network :=
  match outcome with
  | some outcome => (n.step (.take id)).step (.answer id outcome)
  | none => (n.step (.take id)).step (.letGo id)

/-- A subscriber reacts to an event; `publish` publishes another one. -/
def react (publish : Network → Event → Network) (n : Network) (m : Member) (e : Event) : Network :=
  match m.reaction, e with
  | .leave, _ => (n.unsubscribe m.id).2
  | .echo, .logEmitted _ .log args => publish n (.logEmitted "unknown" .info args)
  | .recruit, _ => n.subscribe (m.name ++ "+") (fun _ => true) .observe
  | .answer outcome, .methodRequested _ method args => n.respond m.id (some (outcome method args))
  | .letGo, .methodRequested .. => n.respond m.id none
  | _, _ => n

/-- The visit of the next subscriber. -/
def visit (publish : Network → Event → Network) (n : Network) : Network :=
  let n := n.advance .visit
  match n.exchange.busy? with
  | none => n
  | some (e, id) =>
    match n.members.find? fun m => m.id == id with
    | none => n.advance (.conclude false)
    | some m =>
      (react publish { n with noted := (m.name, e) :: n.noted } m e).advance
        (.conclude m.reaction.breaksDown)

/-- The delivery that has just begun, up to its end; tells how many got the event. -/
def deliver (publish : Network → Event → Network) (visits : Nat) (n : Network) : Nat × Network :=
  let n := visits.repeat (visit publish) n
  (n.exchange.result?.getD 0, n.advance .finish)

/-- Publishes an event, with deliveries nested at most so deep; tells how many got it. -/
def publishWithin : (depth : Nat) → Network → Event → Nat × Network
  | 0, n, _ => (0, n)
  | depth + 1, n, e =>
    deliver (fun n e => (publishWithin depth n e).2) n.exchange.live.length
      (n.advance (.publish .straight e))

/-- Publishes an event; tells how many got it. -/
def publish (n : Network) (e : Event) : Nat × Network := publishWithin deepestDelivery n e

/-- Requests a method; `none` while whoever took the request owes a reply. -/
def request (n : Network) (source method : String) (args : Value) :
    Option (Except RequestError MethodOutcome) × Network :=
  let (_, n) := deliver (fun n e => (publishWithin (deepestDelivery - 1) n e).2)
    n.exchange.live.length
    { n with current := .make n.exchange .straight source method args }
  -- once to see whether anyone took the slot, and once more for the reply
  let n := (n.step .look).step .look
  (n.current.result?, n)

end Network

end AppletHost.Bridge
