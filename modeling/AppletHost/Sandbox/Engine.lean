import AppletHost.Sandbox.Lifecycle
import AppletHost.Script.Evaluation
import AppletHost.Script.Literal

/-!
# Engines

An engine runs the logic of one app. Loading runs the program once and installs the app that it
registered; after that the host calls methods, hooks and timer callbacks, one at a time.

Each such call sees the app object as `this`, with `this.data` fresh from the committed data. What
the call assigns to `this` stays for the next call, whether or not it faults; `this.data` does not. A
call that leaves `this` bound to anything but a map leaves the app object as it was.

A top-level call, which is every call but `onUpdate`, is tracked: if it committed any data, `onUpdate`
is called with what was committed, and the outcome is still that of the call itself.
-/

namespace AppletHost.Sandbox

open Script (Closure Datum Fault Program Run)

/-- The logic of one app. -/
structure Engine where
  session : Session
  /-- The app object, once an app is registered. -/
  app : Option (Fields Datum) := none
  /-- The closures that the app was registered with. -/
  callbacks : Fields Closure := []
deriving Inhabited

/-- What loading came to. -/
structure LoadReport where
  registered : Bool
  fault : Option String
  methods : List String
  initialData : Value
deriving Inhabited

namespace Engine

/-- An engine before anything is loaded. -/
def create (app : String) (limits : Limits) : Engine := { session := { app, limits } }

/-- The committed data as a value. -/
def snapshot (e : Engine) : Value := e.session.snapshot

/-- The callback of a hook. -/
def hook? (e : Engine) (hook : Hook) : Option Closure := Fields.get? e.callbacks hook.name

/-- The method of that name; hooks are no methods. -/
def method? (e : Engine) (name : String) : Option Closure :=
  match Hook.ofName? name with
  | some _ => none
  | none => Fields.get? e.callbacks name

/-- The names of the methods, in order. -/
def methodNames (e : Engine) : List String :=
  (Fields.names e.callbacks).filter fun name => (Hook.ofName? name).isNone

/-- Sends a fault as a log line, with where it comes from. -/
def report (e : Engine) (origin message : String) : Engine :=
  { e with session := e.session.report origin message }

/-- Sends the fault that a call ended in, if it did. -/
def reportFault {α : Type} (e : Engine) (origin : String) : Except Fault α → Engine
  | .ok _ => e
  | .error fault => e.report origin fault.message

/-! ## Calls -/

/-- `this` for the next call: the app object with the committed data. -/
def self (e : Engine) : Fields Datum := Fields.set (e.app.getD []) "data" (.ofValue e.snapshot)

/-- The app object after a call that leaves `this` bound to that. -/
def appAfter (app : Fields Datum) : Option Datum → Fields Datum
  | some (.map fields) => fields
  | _ => app

/-- Makes a run with the app object as `this`. -/
def perform (e : Engine) (run : Run Datum) : Except Fault Datum × Engine :=
  let (result, scene) := run.exec { session := e.session, self := some (.map e.self) }
  (result, { e with
    session := scene.session
    app := e.app.map fun app => appAfter app scene.self })

/-- What `onUpdate` is called with: what a call committed. -/
def updateArguments (patch : Fields) : List Datum := [.ofValue (.obj [("data", .obj patch)])]

/-- Calls `onUpdate` with what a call committed. -/
def notifyUpdate (e : Engine) (patch : Fields) : Engine :=
  match e.hook? .update with
  | none => e
  | some callback =>
    let (result, e) := e.perform (callback.apply (updateArguments patch))
    e.reportFault Hook.update.name result

/-- Makes the run of a top-level call. -/
def performTracked (e : Engine) (run : Run Datum) : Except Fault Datum × Engine :=
  let (result, e) := { e with session := e.session.track }.perform run
  let (patch, session) := e.session.untrack
  let e := { e with session }
  match patch with
  | none => (result, e)
  | some patch => (result, e.notifyUpdate patch)

/-- The arguments of a call: an array holds them in order, `null` is none, all else is one. -/
def arguments : Value → List Datum
  | .null => []
  | .arr items => Datum.ofItems items
  | v => [.ofValue v]

/-- Calls a method by name. -/
def invoke (e : Engine) (method : String) (args : Value) : MethodOutcome × Engine :=
  match e.method? method with
  | none => (.notFound, e)
  | some callback =>
    let (result, e) := e.performTracked (callback.apply (arguments args))
    match result with
    | .ok d => (.completed d.toValue, e)
    | .error fault => (.failed fault.message, e.report method fault.message)

/-- Calls a hook, if the app declares it. -/
def trigger (e : Engine) (hook : Hook) (args : Value) : Engine :=
  match e.hook? hook with
  | none => e
  | some callback =>
    let (result, e) :=
      if hook = .update then e.perform (callback.apply (arguments args))
      else e.performTracked (callback.apply (arguments args))
    e.reportFault hook.name result

/-- Where the faults of a timer come from. -/
def timerOrigin (id : TimerId) : String := "timer " ++ String.ofList (Json.intText id)

/-- Calls the callback of a timer. -/
def fire (e : Engine) (timer : TimerId × Closure) : Engine :=
  let (result, e) := e.performTracked (timer.2.apply [])
  e.reportFault (timerOrigin timer.1) result

/-- Calls the callbacks of the timers that are due at `now`, in order. -/
def fireDue (e : Engine) (now : Nat) : Engine :=
  let (due, session) := e.session.takeDueTimers now
  due.foldl fire { e with session }

/-- The earliest deadline of a timer. -/
def nextDeadline (e : Engine) : Option Nat × Engine :=
  let (deadline, session) := e.session.nextDeadline
  (deadline, { e with session })

/-- Some timer is due by the clock. -/
def isDue (e : Engine) : Bool :=
  e.nextDeadline.1.any fun deadline => deadline ≤ e.session.clock.read.1

/-- The engine once the clock was read and the earliest deadline was looked for. -/
def awake (e : Engine) : Engine :=
  ({ e with session := { e.session with clock := e.session.clock.read.2 } }.nextDeadline).2

/-- Reads the clock, and calls the callbacks of the timers that are due by it, if any is. -/
def ring (e : Engine) : Engine :=
  if e.isDue then e.awake.fireDue e.awake.session.clock.now else e.awake

/-- Ends every timer. -/
def shutdown (e : Engine) : Engine := { e with session := e.session.clearTimers }

/-! ## Loading -/

/-- The closures among the properties of an app. -/
def closuresOf (app : Fields Datum) : Fields Closure :=
  app.filterMap fun f => f.2.closure?.map fun c => (f.1, c)

/-- The initial data of an app. -/
def initialData (app : Fields Datum) : Value := ((Fields.get? app "data").getD .unit).toValue

/-- Installs the app that the program registered, and commits its initial data. -/
def install (e : Engine) (app : Fields Datum) : Engine :=
  let (e, data) := match initialData app with
    | .obj data => (e, data)
    | .null => (e, [])
    | v => (e.report "App" ("initial data must be an object, got " ++ Json.text v), [])
  { e with
    callbacks := closuresOf app
    app := some app
    session := e.session.initData data }

/-- What is known of the engine after loading. -/
def loadReport (e : Engine) (fault : Option Fault) : LoadReport :=
  ⟨e.app.isSome, fault.map (·.message), e.methodNames, e.snapshot⟩

/-- Runs the program itself; what comes of a text that is no program is a fault as well. -/
def evaluate (e : Engine) (program : Option Program) : Option Fault × Engine :=
  match program with
  | none => (some .notAProgram, e)
  | some p =>
    let (result, scene) := p.run.exec { session := e.session }
    (match result with
      | .ok _ => none
      | .error fault => some fault, { e with session := scene.session })

/-- Runs the program and reports its fault. A program with literals beyond the limits counts as none. -/
def prepare (e : Engine) (program : Option Program) : Option Fault × Engine :=
  let (fault, e) := e.evaluate (program.filter (·.fits e.session.limits))
  match fault with
  | some fault => (some fault, e.report "load" fault.message)
  | none => (none, e)

/-- Loads a program, `none` if its text is none, and launches the app that it registers. -/
def load (e : Engine) (program : Option Program) : LoadReport × Engine :=
  let (fault, e) := e.prepare program
  let (registration, session) := e.session.takeRegistration
  let e := { e with session }
  match registration with
  | none => (e.loadReport fault, e)
  | some app =>
    let e := (e.install app).trigger .launch .null
    (e.loadReport fault, e)

/-- Takes the events out that have been sent so far. -/
def takeSent (e : Engine) : List Event × Engine :=
  (e.session.sent, { e with session := { e.session with sent := [] } })

end Engine

end AppletHost.Sandbox
