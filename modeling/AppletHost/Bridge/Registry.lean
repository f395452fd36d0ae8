import AppletHost.Bridge.Event

/-!
# Subscribers of a bridge

A bridge keeps a registration for each subscriber but does not keep the subscriber alive: once its
owner has let go of it and no delivery holds it any more, the registration is dead and goes away with
the next event. An event is delivered to those that are registered and alive at the moment it is
published (`Delivery`), one after another in any order (`Walk`), and the delivery holds them until it
is done with them. While one of them is busy with the event, subscribers may come and go and further
events may be published, whose deliveries end before its own goes on.

Whether a subscriber wants an event, its filter says when its turn comes, and by then the filter may
have changed its mind. A filter may also break down. Nobody catches that but whoever made the
publication, which is over then without having told how many it has reached; a subscriber that breaks
down while it is busy is caught, and merely does not count.

`Exchange.step` is one indivisible step of the bridge or of anyone who uses it; whatever subscribers
and their filters do, they do in such steps.
-/

namespace AppletHost.Bridge

/-- The number of a registration; numbers are never reused. -/
abbrev SubscriberId := Nat

/-- What a filter comes to when it is asked about an event. -/
inductive Answer where
  | accepts
  | skips
  | breaksDown
deriving DecidableEq, Repr, Inhabited

/-- What a filter would say to each event. -/
abbrev Filter := Event → Answer

/-- The filter of a subscriber that always answers, and always the same to the same event. -/
def Filter.ofBool (accepts : Event → Bool) : Filter := fun event =>
  if accepts event then .accepts else .skips

/-- The registrations of a bridge, and the subscribers that their owners hold. -/
structure Registry where
  registered : List SubscriberId := []
  owned : List SubscriberId := []
  next : SubscriberId := 0
deriving Inhabited

namespace Registry

/-- Registers a new subscriber, which its owner holds. -/
def subscribe (r : Registry) : Registry where
  registered := r.registered ++ [r.next]
  owned := r.owned ++ [r.next]
  next := r.next + 1

/-- There is a registration of that number. -/
def isRegistered (r : Registry) (id : SubscriberId) : Bool := r.registered.contains id

/-- Removes a registration. -/
def unsubscribe (r : Registry) (id : SubscriberId) : Registry :=
  { r with registered := r.registered.filter (· != id) }

/-- The owner of a subscriber lets go of it. -/
def release (r : Registry) (id : SubscriberId) : Registry :=
  { r with owned := r.owned.filter (· != id) }

/-- Someone holds the subscriber: its owner, or one of the deliveries that hold `held`. -/
def isAlive (r : Registry) (held : List SubscriberId) (id : SubscriberId) : Bool :=
  r.owned.contains id || held.contains id

/-- The subscribers that are registered and alive. -/
def live (r : Registry) (held : List SubscriberId := []) : List SubscriberId :=
  r.registered.filter (r.isAlive held)

/-- The number of subscribers that are registered and alive. -/
def count (r : Registry) (held : List SubscriberId := []) : Nat := (r.live held).length

end Registry

/-- A way to walk through registrations. -/
structure Walk where
  order : List SubscriberId → List SubscriberId
  perm : ∀ subscribers, (order subscribers).Perm subscribers

/-- The walk in the order of registration. -/
def Walk.straight : Walk := ⟨id, List.Perm.refl⟩

/-- An event on its way: who is still to be asked, who is busy with it, and how many are done with
it. -/
structure Delivery where
  event : Event
  pending : List SubscriberId
  busy : Option SubscriberId := none
  delivered : Nat := 0
deriving Inhabited

/-- The subscribers that the delivery holds. -/
def Delivery.holds (d : Delivery) : List SubscriberId := d.busy.toList ++ d.pending

/-- A bridge with the filters of its subscribers, and with the deliveries that are under way, the
innermost first. -/
structure Exchange where
  registry : Registry := {}
  filters : SubscriberId → Filter := fun _ _ => .skips
  deliveries : List Delivery := []
deriving Inhabited

/-- A step of the bridge or of anyone who uses it. -/
inductive Step where
  | subscribe (filter : Filter)
  | unsubscribe (id : SubscriberId)
  | release (id : SubscriberId)
  /-- The filter of a subscriber changes its mind. -/
  | alter (id : SubscriberId) (filter : Filter)
  | publish (walk : Walk) (event : Event)
  /-- The innermost delivery turns to its next subscriber, whose filter answers. -/
  | visit
  /-- The subscriber that is busy with the event of the innermost delivery is done with it, or has
  broken down. -/
  | conclude (brokeDown : Bool)
  /-- The innermost delivery ends. -/
  | finish

namespace Exchange

/-- The subscribers that deliveries hold. -/
def held (x : Exchange) : List SubscriberId := x.deliveries.flatMap Delivery.holds

/-- The subscriber is alive. -/
def isAlive (x : Exchange) (id : SubscriberId) : Bool := x.registry.isAlive x.held id

/-- The subscribers that are registered and alive. -/
def live (x : Exchange) : List SubscriberId := x.registry.live x.held

/-- Gives a subscriber another filter. -/
def alter (x : Exchange) (id : SubscriberId) (filter : Filter) : Exchange :=
  { x with filters := fun other => if other = id then filter else x.filters other }

/-- Registers a new subscriber with that filter. -/
def subscribe (x : Exchange) (filter : Filter) : Exchange :=
  { x.alter x.registry.next filter with registry := x.registry.subscribe }

/-- Starts the delivery of an event; registrations of subscribers that are not alive go away. -/
def publish (x : Exchange) (walk : Walk) (event : Event) : Exchange :=
  { x with
    registry := { x.registry with registered := x.live }
    deliveries := { event, pending := walk.order x.live } :: x.deliveries }

/-- Who is asked next about the event of the innermost delivery, and what the filter says. -/
def asked? (x : Exchange) : Option (SubscriberId × Answer) :=
  match x.deliveries with
  | ⟨event, id :: _, none, _⟩ :: _ => some (id, x.filters id event)
  | _ => none

/-- Turns to the next subscriber, which gets busy with the event if it accepts it. If its filter
breaks down, that is the end of the delivery. -/
def visit (x : Exchange) : Exchange :=
  match x.deliveries with
  | ⟨event, id :: pending, none, delivered⟩ :: outer =>
    match x.filters id event with
    | .accepts => { x with deliveries := ⟨event, pending, some id, delivered⟩ :: outer }
    | .skips => { x with deliveries := ⟨event, pending, none, delivered⟩ :: outer }
    | .breaksDown => { x with deliveries := outer }
  | _ => x

/-- Who is busy with the event of the innermost delivery. -/
def busy? (x : Exchange) : Option (Event × SubscriberId) :=
  match x.deliveries with
  | d :: _ => d.busy.map fun id => (d.event, id)
  | [] => none

/-- The visit that is under way ends; it counts as a delivery unless the subscriber broke down. -/
def conclude (x : Exchange) (brokeDown : Bool) : Exchange :=
  match x.deliveries with
  | ⟨event, pending, some _, delivered⟩ :: outer =>
    let delivered := if brokeDown then delivered else delivered + 1
    { x with deliveries := ⟨event, pending, none, delivered⟩ :: outer }
  | _ => x

/-- How many are done with the event of the innermost delivery, once everyone has been visited. -/
def result? (x : Exchange) : Option Nat :=
  match x.deliveries with
  | ⟨_, [], none, delivered⟩ :: _ => some delivered
  | _ => none

/-- Ends the innermost delivery, once everyone has been visited. -/
def finish (x : Exchange) : Exchange :=
  match x.deliveries with
  | ⟨_, [], none, _⟩ :: outer => { x with deliveries := outer }
  | _ => x

/-- One indivisible step. A step that is not possible changes nothing. -/
def step (x : Exchange) : Step → Exchange
  | .subscribe filter => x.subscribe filter
  | .unsubscribe id => { x with registry := x.registry.unsubscribe id }
  | .release id => { x with registry := x.registry.release id }
  | .alter id filter => x.alter id filter
  | .publish walk event => x.publish walk event
  | .visit => x.visit
  | .conclude brokeDown => x.conclude brokeDown
  | .finish => x.finish

/-- Steps one after another. -/
def run (x : Exchange) (steps : List Step) : Exchange := steps.foldl step x

end Exchange

end AppletHost.Bridge
