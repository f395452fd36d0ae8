import AppletHost.Bridge.Event
import AppletHost.Sandbox.Timers
import AppletHost.Script.Operation

/-!
# What the logic of an app can touch

A session is the state behind the functions that the host offers to the logic of one app: its
committed data, its registration, its timers, and the events it has sent over the bridge, in order.
Logic changes any of it by a `HostCall` only.

While a call is tracked, `pending` collects what the call has committed so far.
-/

namespace AppletHost.Sandbox

open Script (Closure Datum Fault)

/-- A clock in milliseconds: its latest reading, and the readings that are still to come. -/
structure Clock where
  now : Nat := 0
  coming : List Nat := []
deriving DecidableEq, Repr, Inhabited

/-- Reads the clock. -/
def Clock.read (c : Clock) : Nat × Clock :=
  match c.coming with
  | [] => (c.now, c)
  | t :: ts => (t, ⟨t, ts⟩)

/-- What the logic of one app can touch. -/
structure Session where
  app : String
  limits : Limits
  data : Fields := []
  pending : Option Fields := none
  registration : Option (Fields Datum) := none
  timers : TimerQueue Closure := {}
  clock : Clock := {}
  sent : List Event := []
deriving Inhabited

namespace Session

/-- The committed data as a value. -/
def snapshot (s : Session) : Value := .obj s.data

/-- Sends an event over the bridge. -/
def send (s : Session) (event : Event) : Session := { s with sent := s.sent ++ [event] }

/-! ## Data -/

/-- An update wrapped into an object whose only field is `data` stands for what is inside. -/
def unwrap : Fields → Fields
  | [("data", .obj inner)] => inner
  | update => update

/-- Merges an update into the data and tells the host. -/
def commit (s : Session) (update : Fields) : Session :=
  let data := Fields.merge s.data update
  let pending := s.pending.map fun patch => Fields.merge patch update
  { s with data, pending }.send (.stateMutated s.app (.obj data) update)

/-- `setData` of the logic. -/
def setData (s : Session) (update : Fields Datum) : Except Fault Unit × Session :=
  match Datum.toFields? update with
  | some update => (.ok (), s.commit (unwrap (Fields.ofList update)))
  | none =>
    (.error (.ofText "setData: Output type incorrect: Fn (expecting serde_json::value::Value)"), s)

/-- Puts the initial data of a registration in place of all data and tells the host. -/
def initData (s : Session) (data : Fields) : Session :=
  { s with data }.send (.stateMutated s.app (.obj data) data)

/-- Starts collecting what a call commits. -/
def track (s : Session) : Session := { s with pending := some [] }

/-- Stops collecting: what the call has committed, if anything. -/
def untrack (s : Session) : Option Fields × Session :=
  (s.pending.filter fun patch => !patch.isEmpty, { s with pending := none })

/-! ## Log lines -/

/-- Sends a log line. -/
def log (s : Session) (level : LogLevel) (args : List Datum) : Session :=
  s.send (.logEmitted s.app level (args.map Datum.toValue))

/-- Sends the text of a fault as a log line, with where it comes from. -/
def report (s : Session) (origin message : String) : Session :=
  s.log .error [.str (origin ++ ": " ++ message)]

/-! ## Registration -/

/-- `App` of the logic. -/
def register (s : Session) (app : Fields Datum) : Except Fault Unit × Session :=
  match s.registration with
  | some _ => (.error (.ofText "App already registered"), s)
  | none => (.ok (), { s with registration := some app })

/-- Takes the registration out. -/
def takeRegistration (s : Session) : Option (Fields Datum) × Session :=
  (s.registration, { s with registration := none })

/-! ## Timers -/

/-- How long a timer waits: a negative delay is none, and intervals have a least length. -/
def delayOf (limits : Limits) (delay : Int) (repeats : Bool) : Nat :=
  if repeats then max delay.toNat limits.minTimerInterval else delay.toNat

/-- `setTimeout` and `setInterval` of the logic. -/
def addTimer (s : Session) (callback : Closure) (delay : Int) (repeats : Bool) :
    Except Fault TimerId × Session :=
  if s.limits.maxTimers ≤ s.timers.size then
    (.error (.ofText ("timer limit reached (" ++ String.ofList (Number.natDigits s.limits.maxTimers)
      ++ " live timers)")), s)
  else
    let (now, clock) := s.clock.read
    let (id, timers) := s.timers.schedule now callback (delayOf s.limits delay repeats) repeats
    (.ok id, { s with timers, clock })

/-- `clearTimeout` and `clearInterval` of the logic. -/
def clearTimer (s : Session) (id : TimerId) : Session :=
  { s with timers := (s.timers.cancel id).2 }

/-- Takes the timers that are due. -/
def takeDueTimers (s : Session) (now : Nat) : List (TimerId × Closure) × Session :=
  let (due, timers) := s.timers.takeDue now
  (due, { s with timers })

/-- The earliest deadline of a timer. -/
def nextDeadline (s : Session) : Option Nat × Session :=
  let (deadline, timers) := s.timers.nextDeadline
  (deadline, { s with timers })

/-- Ends every timer. -/
def clearTimers (s : Session) : Session := { s with timers := s.timers.clear }

end Session

/-! ## What logic can ask for -/

/-- A use of one of the functions that the host offers. -/
inductive HostCall where
  | setData (update : Fields Datum)
  | register (app : Fields Datum)
  | addTimer (callback : Closure) (delay : Int) (repeats : Bool)
  | clearTimer (id : TimerId)
  | log (level : LogLevel) (args : List Datum)
deriving Inhabited

/-- What a use of the host comes to, and what it makes of the session. -/
def Session.answer (s : Session) : HostCall → Except Fault Datum × Session
  | .setData update =>
    let (result, s) := s.setData update
    (result.map fun _ => .unit, s)
  | .register app =>
    let (result, s) := s.register app
    (result.map fun _ => .unit, s)
  | .addTimer callback delay repeats =>
    let (result, s) := s.addTimer callback delay repeats
    (result.map .int, s)
  | .clearTimer id => (.ok .unit, s.clearTimer id)
  | .log level args => (.ok .unit, s.log level args)

end AppletHost.Sandbox
