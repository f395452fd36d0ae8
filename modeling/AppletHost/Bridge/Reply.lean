import AppletHost.Bridge.Registry

/-!
# Replies to method requests

A method request carries a slot for its reply. The first subscriber to take the slot owns the reply;
it answers, or it lets go of the slot, and either ends the request. When the delivery of a request has
ended, the one who made it looks whether the slot is still there: if so, the request has no responder,
and otherwise its maker waits for what becomes of the slot.

`Request.step` is one step on the bridge, with the slot, or of the one who made the request. Whoever
has been asked about the request may reach for the slot, at once or later; a subscriber that breaks
down, or is done without having put the slot away, lets go of it first.
-/

namespace AppletHost.Bridge

/-- The reply slot of a method request. -/
inductive ReplySlot where
  | pending
  | taken (owner : SubscriberId)
  | answered (owner : SubscriberId) (outcome : MethodOutcome)
  | dropped (owner : SubscriberId)
deriving Repr, Inhabited

/-- Why a request has no outcome. -/
inductive RequestError where
  | noResponder (method : String)
  | replyDropped (method : String)
deriving DecidableEq, Repr, Inhabited

/-- The text of the error. -/
def RequestError.message : RequestError → String
  | .noResponder method => "no logic endpoint accepted method request: " ++ method
  | .replyDropped method => "reply dropped for method: " ++ method

namespace ReplySlot

/-- A subscriber reaches for the slot; tells whether it got it. -/
def take (slot : ReplySlot) (id : SubscriberId) : Bool × ReplySlot :=
  match slot with
  | .pending => (true, .taken id)
  | slot => (false, slot)

/-- The owner of the slot answers, or lets go of it. -/
def settle (slot : ReplySlot) (id : SubscriberId) (outcome : Option MethodOutcome) : ReplySlot :=
  match slot with
  | .taken owner =>
    if owner = id then
      match outcome with
      | some outcome => .answered id outcome
      | none => .dropped id
    else slot
  | slot => slot

/-- What the one who waits for the slot hears; `none` while the owner still owes a reply. -/
def received? (slot : ReplySlot) (method : String) : Option (Except RequestError MethodOutcome) :=
  match slot with
  | .pending => none
  | .taken _ => none
  | .answered _ outcome => some (.ok outcome)
  | .dropped _ => some (.error (.replyDropped method))

/-- Nobody has taken the slot. -/
def isPending : ReplySlot → Bool
  | .pending => true
  | _ => false

end ReplySlot

/-- How far the one who made a request has come with it. -/
inductive Stage where
  /-- The request is being delivered. -/
  | asking
  /-- The delivery has ended, and the slot has yet to be looked at. -/
  | delivered
  /-- Someone has taken the slot. -/
  | waiting
  | returned (result : Except RequestError MethodOutcome)
  /-- A filter broke down and put an end to the delivery, and to the request with it. -/
  | unwound
deriving Inhabited

/-- A step on the bridge, with the reply slot of a request, or of the one who made the request. -/
inductive RequestStep where
  | bridge (step : Step)
  /-- A subscriber that has been asked about the request reaches for the slot. -/
  | take (id : SubscriberId)
  | answer (id : SubscriberId) (outcome : MethodOutcome)
  | letGo (id : SubscriberId)
  /-- The one who made the request looks at the slot. -/
  | look

/-- A request on its way. -/
structure Request where
  method : String
  exchange : Exchange
  /-- How many deliveries were under way when the request was made. -/
  outer : Nat
  slot : ReplySlot := .pending
  /-- Who has been asked about the request. -/
  reached : List SubscriberId := []
  stage : Stage := .asking
deriving Inhabited

namespace Request

/-- Makes a request. -/
def make (x : Exchange) (walk : Walk) (source method : String) (args : Value) : Request where
  method
  exchange := x.publish walk (.methodRequested source method args)
  outer := x.deliveries.length

/-- The request is being delivered, and no other delivery goes on within its own. -/
def isInnermost (r : Request) : Bool :=
  match r.stage with
  | .asking => r.exchange.deliveries.length == r.outer + 1
  | _ => false

/-- Who is asked about the request in a step, and what the filter says. -/
def askedIn (r : Request) : Step → Option (SubscriberId × Answer)
  | .visit => if r.isInnermost then r.exchange.asked? else none
  | _ => none

/-- The delivery of the request ends in a step. -/
def endsIn (r : Request) : Step → Bool
  | .finish => r.isInnermost && r.exchange.result?.isSome
  | _ => false

/-- A filter breaks down in a step, and leaves the delivery of the request. -/
def unwindsIn (r : Request) (step : Step) : Bool := (r.askedIn step).any (·.2 == .breaksDown)

/-- A step on the bridge, which may end the delivery of the request. -/
def advance (r : Request) (step : Step) : Request :=
  { r with
    exchange := r.exchange.step step
    reached := r.reached ++ ((r.askedIn step).map Prod.fst).toList
    stage :=
      if r.endsIn step then .delivered
      else if r.unwindsIn step then .unwound
      else r.stage }

/-- A subscriber reaches for the slot, if it has the request at all. -/
def take (r : Request) (id : SubscriberId) : Request :=
  if id ∈ r.reached then { r with slot := (r.slot.take id).2 } else r

/-- The one who made the request looks at the slot: once when the delivery has ended, and then until
it has heard of the owner. -/
def look (r : Request) : Request :=
  match r.stage with
  | .delivered =>
    if r.slot.isPending then { r with stage := .returned (.error (.noResponder r.method)) }
    else { r with stage := .waiting }
  | .waiting =>
    match r.slot.received? r.method with
    | some result => { r with stage := .returned result }
    | none => r
  | _ => r

/-- One indivisible step. A step that is not possible changes nothing. -/
def step (r : Request) : RequestStep → Request
  | .bridge s => r.advance s
  | .take id => r.take id
  | .answer id outcome => { r with slot := r.slot.settle id (some outcome) }
  | .letGo id => { r with slot := r.slot.settle id none }
  | .look => r.look

/-- Steps one after another. -/
def run (r : Request) (steps : List RequestStep) : Request := steps.foldl step r

/-- What the request has come to. -/
def result? (r : Request) : Option (Except RequestError MethodOutcome) :=
  match r.stage with
  | .returned result => some result
  | _ => none

end Request

end AppletHost.Bridge
