import AppletHost.Sandbox.Engine
import AppletHost.Proofs.Script.Runs

/-!
# What an engine does

An engine works on its session one thing at a time: logic uses a function of the host, the host starts
or stops to collect commits, tells of a fault, takes timers. `Deed` lists these things, and beside each
function of the engine stands the list of what it does, in order. The lists say no more than the code
does:

> `Engine.Did`: the session afterwards is what the deeds make of it, one after another; each call of
> logic finds `this` as the last one left it, with the committed data in it; and the app afterwards is
> what the last call left.

Nothing of this depends on the language of the logic: a call is any `Run`. What there is to see in the
course of some deeds is read off with `Session.observe`.
-/

namespace AppletHost.Sandbox

open Script (Closure Datum Fault Program Run)

/-! ## Deeds -/

/-- A call of logic: the run that is made, and `this` as it finds and leaves it. -/
structure Visit where
  run : Run Datum
  found : Fields Datum
  left : Option Datum

/-- One thing that is done to a session. -/
inductive Deed where
  /-- Logic uses a function of the host. -/
  | use (call : HostCall)
  /-- Logic is called; what the call does comes after. -/
  | visit (v : Visit)
  /-- The host starts to collect what is committed. -/
  | track
  | untrack
  /-- The host tells of a fault. -/
  | report (origin message : String)
  /-- The callback of a timer is started. -/
  | start (id : TimerId)
  /-- The timers that are due are taken. -/
  | due (now : Nat)
  | wind (readings : List Nat)
  | read
  /-- The earliest deadline is looked for. -/
  | look
  | clearTimers
  | takeRegistration
  | initData (data : Fields)

namespace Deed

/-- The call of logic, if it is one. -/
def visit? : Deed → Option Visit
  | .visit v => some v
  | _ => none

/-- It is done in the course of a call. -/
def isOfCall : Deed → Bool
  | .use _ | .visit _ | .track | .untrack | .report .. => true
  | _ => false

/-- It is done when an app is installed, and at no other time. -/
def installs : Deed → Bool
  | .takeRegistration | .initData _ => true
  | _ => false

theorem not_installs_of_isOfCall {d : Deed} (h : d.isOfCall = true) : d.installs = false := by
  cases d with
  | takeRegistration | initData => cases h
  | _ => rfl

end Deed

/-- The calls of logic among some deeds. -/
def visits (deeds : List Deed) : List Visit := deeds.filterMap Deed.visit?

/-- Visits are told deed by deed, so those of two rows of deeds follow one another. -/
theorem visits_append (deeds deeds' : List Deed) : visits (deeds ++ deeds') = visits deeds ++ visits deeds' :=
  List.filterMap_append

/-- The host functions are not what hands the app to a callback: a run that does nothing but call them
makes no visit of its own. -/
theorem visits_uses (calls : List HostCall) : visits (calls.map .use) = [] := by
  rw [visits, List.filterMap_map]
  exact List.filterMap_eq_nil_iff.2 fun _ _ => rfl

namespace Session

/-- A session after one deed. -/
def after (s : Session) : Deed → Session
  | .use call => (s.answer call).2
  | .track => s.track
  | .untrack => s.untrack.2
  | .report origin message => s.report origin message
  | .due now => (s.takeDueTimers now).2
  | .wind readings => { s with clock.coming := s.clock.coming ++ readings }
  | .read => { s with clock := s.clock.read.2 }
  | .look => s.nextDeadline.2
  | .clearTimers => s.clearTimers
  | .takeRegistration => s.takeRegistration.2
  | .initData data => s.initData data
  | .visit _ | .start _ => s

/-- A session after one deed after another. -/
def afterAll (s : Session) (deeds : List Deed) : Session := deeds.foldl after s

/-- What there is to see as the deeds are done one after another. -/
def observe {β : Type} (f : Session → Deed → List β) : Session → List Deed → List β
  | _, [] => []
  | s, d :: deeds => f s d ++ (s.after d).observe f deeds

variable {β : Type} (s : Session)

/-- What a session has come to after two rows of deeds is what the second row makes of what the first
one has left. -/
theorem afterAll_append (deeds deeds' : List Deed) :
    s.afterAll (deeds ++ deeds') = (s.afterAll deeds).afterAll deeds' :=
  List.foldl_append

/-- A row of calls to the host functions changes the session by what each of them answers in turn, and
by nothing else. -/
theorem afterAll_uses (calls : List HostCall) :
    s.afterAll (calls.map .use) = calls.foldl (fun s call => (s.answer call).2) s :=
  List.foldl_map

/-- What is observed of two rows of deeds is what is observed of the first, and then of the second
from where the first has led. -/
theorem observe_append (f : Session → Deed → List β) (deeds deeds' : List Deed) :
    s.observe f (deeds ++ deeds') = s.observe f deeds ++ (s.afterAll deeds).observe f deeds' := by
  induction deeds generalizing s with
  | nil => rfl
  | cons d deeds ih =>
    rw [List.cons_append, observe, observe, ih, List.append_assoc]
    rfl

/-- What each deed keeps, all of them keep. Invariants of the session are carried through calls by
this. -/
theorem afterAll_keeps {P : Session → Prop} {deeds : List Deed}
    (hstep : ∀ s, ∀ d ∈ deeds, P s → P (s.after d)) {s : Session} (hs : P s) : P (s.afterAll deeds) := by
  induction deeds generalizing s with
  | nil => exact hs
  | cons d deeds ih =>
    exact ih (fun s d hd => hstep s d (List.mem_cons_of_mem _ hd)) (hstep s d List.mem_cons_self hs)

end Session

/-! ## Deeds of an engine -/

namespace Engine

/-- The run is made, and uses the host. -/
def performDeeds (e : Engine) (run : Run Datum) : List Deed :=
  .visit ⟨run, e.self, (run.exec { session := e.session, self := some (.map e.self) }).2.self⟩ ::
    (run.calls { session := e.session, self := some (.map e.self) }).map .use

/-- A fault is reported. -/
def faultDeeds {α : Type} (origin : String) : Except Fault α → List Deed
  | .ok _ => []
  | .error fault => [.report origin fault.message]

/-- `onUpdate` is called, if the app declares it. -/
def updateDeeds (e : Engine) (patch : Fields) : List Deed :=
  match e.hook? .update with
  | none => []
  | some callback =>
    let run := callback.apply (updateArguments patch)
    e.performDeeds run ++ faultDeeds Hook.update.name (e.perform run).1

/-- The engine when the run of a top-level call is through, and with it what it has committed. -/
def tracked (e : Engine) (run : Run Datum) : Option Fields × Engine :=
  let (_, ran) := { e with session := e.session.track }.perform run
  (ran.session.untrack.1, { ran with session := ran.session.untrack.2 })

/-- The run is made while commits are collected, and `onUpdate` is told of them. -/
def trackedDeeds (e : Engine) (run : Run Datum) : List Deed :=
  .track :: { e with session := e.session.track }.performDeeds run ++ .untrack ::
    match (e.tracked run).1 with
    | none => []
    | some patch => (e.tracked run).2.updateDeeds patch

/-- A method is called. -/
def invokeDeeds (e : Engine) (method : String) (args : Value) : List Deed :=
  match e.method? method with
  | none => []
  | some callback =>
    let run := callback.apply (arguments args)
    e.trackedDeeds run ++ faultDeeds method (e.performTracked run).1

/-- A hook is called. -/
def triggerDeeds (e : Engine) (hook : Hook) (args : Value) : List Deed :=
  match e.hook? hook with
  | none => []
  | some callback =>
    let run := callback.apply (arguments args)
    if hook = .update then e.performDeeds run ++ faultDeeds hook.name (e.perform run).1
    else e.trackedDeeds run ++ faultDeeds hook.name (e.performTracked run).1

/-- The callback of a timer is called. -/
def fireDeeds (e : Engine) (timer : TimerId × Closure) : List Deed :=
  let run := timer.2.apply []
  .start timer.1 :: e.trackedDeeds run ++ faultDeeds (timerOrigin timer.1) (e.performTracked run).1

/-- The callbacks of a batch are called in order. -/
def batchDeeds (e : Engine) : List (TimerId × Closure) → List Deed
  | [] => []
  | timer :: due => e.fireDeeds timer ++ (e.fire timer).batchDeeds due

/-- The timers that are due are taken, and their callbacks are called. -/
def dueDeeds (e : Engine) (now : Nat) : List Deed :=
  .due now :: { e with session := (e.session.takeDueTimers now).2 }.batchDeeds
    (e.session.takeDueTimers now).1

/-- The clock is read, and what is due is called. -/
def ringDeeds (e : Engine) : List Deed :=
  .read :: .look :: if e.isDue then e.awake.dueDeeds e.awake.session.clock.now else []

/-- The program is run. -/
def evaluateDeeds (e : Engine) : Option Program → List Deed
  | none => []
  | some p => (p.run.calls { session := e.session }).map .use

/-- The program is run, and its fault is reported. -/
def prepareDeeds (e : Engine) (program : Option Program) : List Deed :=
  e.evaluateDeeds (program.filter (·.fits e.session.limits)) ++
    match (e.prepare program).1 with
    | none => []
    | some fault => [.report "load" fault.message]

/-- Initial data are put in place. -/
def installDeeds (app : Fields Datum) : List Deed :=
  match initialData app with
  | .obj data => [.initData data]
  | .null => [.initData []]
  | v => [.report "App" ("initial data must be an object, got " ++ Json.text v), .initData []]

/-- The engine once the program was run and its registration taken out. -/
def emptied (e : Engine) (program : Option Program) : Engine :=
  { (e.prepare program).2 with session := (e.prepare program).2.session.takeRegistration.2 }

/-- The app that a program registers when it is loaded. -/
def registered? (e : Engine) (program : Option Program) : Option (Fields Datum) :=
  (e.prepare program).2.session.registration

/-- The app that was registered is installed and launched. -/
def launchDeeds (e : Engine) (app : Fields Datum) : List Deed :=
  installDeeds app ++ (e.install app).triggerDeeds .launch .null

/-- A program is loaded. -/
def loadDeeds (e : Engine) (program : Option Program) : List Deed :=
  e.prepareDeeds program ++ .takeRegistration ::
    match e.registered? program with
    | none => []
    | some app => (e.emptied program).launchDeeds app

/-! ### What they come to -/

/-- `this` as the last call left it, or the app as it was before. -/
def lastLeft (app : Fields Datum) (visits : List Visit) : Fields Datum :=
  visits.foldl (fun app v => appAfter app v.left) app

/-- The map that the last visit has left is that of the later visits, or of the earlier ones if there
are no later. -/
theorem lastLeft_append (app : Fields Datum) (earlier later : List Visit) :
    lastLeft app (earlier ++ later) = lastLeft (lastLeft app earlier) later :=
  List.foldl_append

/-- The call of logic was made on this app and session, and these deeds come after it. -/
structure Made (app : Option (Fields Datum)) (s : Session) (v : Visit) (after : List Deed) : Prop where
  found : v.found = Fields.set (app.getD []) "data" (.ofValue s.snapshot)
  left : v.left = (v.run.exec { session := s, self := some (.map v.found) }).2.self
  uses : (v.run.calls { session := s, self := some (.map v.found) }).map .use <+: after

/-- What the engine has come to by these deeds. -/
structure Did (e : Engine) (deeds : List Deed) (e' : Engine) : Prop where
  session : e'.session = e.session.afterAll deeds
  app : e'.app = e.app.map fun app => lastLeft app (visits deeds)
  callbacks : e'.callbacks = e.callbacks
  /-- Each call was made on what the deeds before it had come to. -/
  made : ∀ before v after, deeds = before ++ .visit v :: after →
    Made (e.app.map fun app => lastLeft app (visits before)) (e.session.afterAll before) v after

section Did

variable {e e' e'' : Engine} {deeds deeds' : List Deed}

/-- Doing nothing is what an engine does that stays as it is; every other account of deeds is put
together from this one. -/
theorem did_nil (e : Engine) : e.Did [] e where
  session := rfl
  app := by
    show e.app = e.app.map id
    rw [Option.map_id_fun, id]
  callbacks := rfl
  made before v after h := by cases before <;> cases h

/-- Deeds after other deeds: what the first ones have come to is what the later ones begin with, in
the session and in the app. -/
theorem Did.append (h : e.Did deeds e') (h' : e'.Did deeds' e'') : e.Did (deeds ++ deeds') e'' where
  session := by rw [h'.session, h.session, Session.afterAll_append]
  app := by
    rw [h'.app, h.app, Option.map_map, visits_append]
    congr 1
    funext app
    exact (lastLeft_append app _ _).symm
  callbacks := h'.callbacks.trans h.callbacks
  made before v after heq := by
    have hmade : ∀ mid, deeds' = mid ++ .visit v :: after →
        Made (e.app.map fun app => lastLeft app (visits (deeds ++ mid)))
          (e.session.afterAll (deeds ++ mid)) v after := by
      intro mid hmid
      have hv := h'.made mid v after hmid
      rw [h.app, h.session, Option.map_map, ← Session.afterAll_append] at hv
      rw [visits_append]
      simpa only [Function.comp_def, ← lastLeft_append] using hv
    rcases List.append_eq_append_iff.mp heq with ⟨mid, hbefore, hmid⟩ | ⟨mid, hdeeds, hmid⟩
    · -- the call is among the later deeds
      rw [hbefore]
      exact hmade mid hmid
    · cases mid with
      | nil =>
        rw [List.append_nil] at hdeeds
        have hv := hmade [] hmid.symm
        rw [List.append_nil, hdeeds] at hv
        exact hv
      | cons d mid =>
        obtain ⟨rfl, rfl⟩ := List.cons.inj hmid
        obtain ⟨hfound, hleft, huses⟩ := h.made before v mid hdeeds
        exact ⟨hfound, hleft, huses.trans (List.prefix_append mid deeds')⟩

/-- Deeds that are no calls, and concern the session only. -/
theorem did_of_session (hsession : e'.session = e.session.afterAll deeds) (happ : e'.app = e.app)
    (hcallbacks : e'.callbacks = e.callbacks) (hvisits : visits deeds = []) : e.Did deeds e' where
  session := hsession
  app := by
    rw [happ, hvisits]
    exact (did_nil e).app
  callbacks := hcallbacks
  made before v after heq := by
    rw [heq, visits_append] at hvisits
    cases (List.append_eq_nil_iff.1 hvisits).2

end Did

variable (e : Engine)

/-- One deed that is no call, and concerns the session only. -/
theorem did_single (d : Deed) (h : d.visit? = none) : e.Did [d] { e with session := e.session.after d } :=
  did_of_session rfl rfl rfl (by rw [visits, List.filterMap_cons, h]; rfl)

/-- The report of a fault is one line in the log, and no deed at all where there was no fault. -/
theorem did_reportFault {α : Type} (origin : String) (result : Except Fault α) :
    e.Did (faultDeeds origin result) (e.reportFault origin result) := by
  cases result with
  | ok a => exact e.did_nil
  | error fault => exact e.did_single _ rfl

/-- A run uses the host, and leaves `this` as it does. Its uses are deeds that follow the visit, and
what it has bound `this` to in the end is kept if it is a map. -/
theorem did_perform (run : Run Datum) : e.Did (e.performDeeds run) (e.perform run).2 where
  session := by
    show (run.exec _).2.session = Session.afterAll _ _
    rw [Run.exec_session]
    exact (Session.afterAll_uses _ _).symm
  app := by
    show e.app.map _ = _
    rw [performDeeds, visits, List.filterMap_cons]
    show _ = e.app.map fun app => lastLeft app (_ :: visits _)
    rw [visits_uses]
    rfl
  callbacks := rfl
  made before v after heq := by
    cases before with
    | nil =>
      obtain ⟨hv, rfl⟩ := List.cons.inj heq
      cases hv
      refine ⟨?_, rfl, List.prefix_rfl⟩
      show e.self = _
      rw [self, snapshot]
      congr 2
      exact (e.did_nil).app
    | cons d before =>
      -- behind the call there are only uses of the host
      obtain ⟨-, hrest⟩ := List.cons.inj heq
      have hmem : Deed.visit v ∈ (run.calls { session := e.session, self := some (.map e.self) }).map .use := by
        rw [hrest]
        exact List.mem_append_right _ List.mem_cons_self
      obtain ⟨call, -, hcall⟩ := List.mem_map.1 hmem
      cases hcall

/-- An engine that tells of an update makes a run of `onUpdate`, if the app has one, and reports where
that fails. -/
theorem did_notifyUpdate (patch : Fields) : e.Did (e.updateDeeds patch) (e.notifyUpdate patch) := by
  unfold updateDeeds notifyUpdate
  cases e.hook? .update with
  | none => exact e.did_nil
  | some callback => exact (e.did_perform _).append (did_reportFault _ _ _)

/-- A tracked run, taken apart: the result is that of the run alone, and whether `onUpdate` is told
hangs on the patches that were collected. -/
theorem performTracked_eq (run : Run Datum) :
    e.performTracked run = (({ e with session := e.session.track }.perform run).1,
      match (e.tracked run).1 with
      | none => (e.tracked run).2
      | some patch => (e.tracked run).2.notifyUpdate patch) := by
  show (match (e.tracked run).1 with
    | none => (({ e with session := e.session.track }.perform run).1, (e.tracked run).2)
    | some patch =>
      (({ e with session := e.session.track }.perform run).1,
        (e.tracked run).2.notifyUpdate patch)) = _
  cases (e.tracked run).1 with
  | none => rfl
  | some patch => rfl

/-- A tracked run does what the run does between the start and the end of the collection, and then
what telling of it does. -/
theorem did_performTracked (run : Run Datum) :
    e.Did (e.trackedDeeds run) (e.performTracked run).2 := by
  have hran : e.Did (.track :: { e with session := e.session.track }.performDeeds run)
      ({ e with session := e.session.track }.perform run).2 :=
    (e.did_single .track rfl).append (did_perform _ run)
  have htracked : e.Did (.track :: { e with session := e.session.track }.performDeeds run ++ [.untrack])
      (e.tracked run).2 := hran.append (did_single _ .untrack rfl)
  rw [performTracked_eq, trackedDeeds]
  cases hpatch : (e.tracked run).1 with
  | none => exact htracked
  | some patch =>
    rw [List.append_cons]
    exact htracked.append (did_notifyUpdate _ patch)

/-- A call of a method is a tracked run of its callback, or nothing at all if the app has no such
method. -/
theorem did_invoke (method : String) (args : Value) :
    e.Did (e.invokeDeeds method args) (e.invoke method args).2 := by
  unfold invokeDeeds invoke
  cases e.method? method with
  | none => exact e.did_nil
  | some callback =>
    have h := (e.did_performTracked (callback.apply (arguments args))).append
      (did_reportFault _ method (e.performTracked (callback.apply (arguments args))).1)
    dsimp only
    cases hresult : (e.performTracked (callback.apply (arguments args))).1 with
    | ok d =>
      rw [hresult] at h
      exact h
    | error fault =>
      rw [hresult] at h
      exact h

/-- A hook is a tracked run of its callback, whose fault goes to the log and not to whoever has
triggered it. -/
theorem did_trigger (hook : Hook) (args : Value) :
    e.Did (e.triggerDeeds hook args) (e.trigger hook args) := by
  unfold triggerDeeds trigger
  cases e.hook? hook with
  | none => exact e.did_nil
  | some callback =>
    dsimp only
    split
    · exact (e.did_perform _).append (did_reportFault _ _ _)
    · exact (e.did_performTracked _).append (did_reportFault _ _ _)

theorem did_fire (timer : TimerId × Closure) : e.Did (e.fireDeeds timer) (e.fire timer) :=
  ((e.did_single (.start timer.1) rfl).append (e.did_performTracked _)).append (did_reportFault _ _ _)

/-- A batch of timers is one after another, each in the engine that the one before has left. -/
theorem did_batch (due : List (TimerId × Closure)) : e.Did (e.batchDeeds due) (due.foldl fire e) := by
  induction due generalizing e with
  | nil => exact e.did_nil
  | cons timer due ih => exact (e.did_fire timer).append (ih (e.fire timer))

/-- The timers that are due leave the queue before the first of them is started. -/
theorem did_fireDue (now : Nat) : e.Did (e.dueDeeds now) (e.fireDue now) :=
  (e.did_single (.due now) rfl).append (did_batch _ _)

theorem did_awake : e.Did [.read, .look] e.awake := did_of_session rfl rfl rfl rfl

/-- An engine that is rung fires what is due by the reading of the clock that it has made when it
awoke. -/
theorem did_ring : e.Did e.ringDeeds e.ring := by
  unfold ringDeeds ring
  split
  · exact e.did_awake.append (e.awake.did_fireDue _)
  · exact e.did_awake

/-! ### Loading -/

/-- A program that is loaded makes the run of its statements, and a program that does not parse makes
none. -/
theorem did_evaluate (program : Option Program) :
    e.Did (e.evaluateDeeds program) (e.evaluate program).2 := by
  cases program with
  | none => exact e.did_nil
  | some p =>
    refine did_of_session ?_ rfl rfl (visits_uses _)
    show (p.run.exec _).2.session = _
    rw [Run.exec_session, evaluateDeeds, Session.afterAll_uses]

/-- What goes before an app is in place: the program is run, and where it fails the fault is what
comes of loading. -/
theorem did_prepare (program : Option Program) :
    e.Did (e.prepareDeeds program) (e.prepare program).2 := by
  have hran := e.did_evaluate (program.filter (·.fits e.session.limits))
  unfold prepareDeeds prepare
  dsimp only
  cases (e.evaluate (program.filter (·.fits e.session.limits))).1 with
  | none => exact hran.append (did_nil _)
  | some fault => exact hran.append (did_single _ (.report "load" fault.message) rfl)

/-- A program that registers no app leaves none: the engine has run it and looked for a registration
in vain. -/
theorem load_of_unregistered {program : Option Program} (h : e.registered? program = none) :
    (e.load program).2 = e.emptied program := by
  unfold registered? at h
  unfold load emptied
  dsimp only [Session.takeRegistration]
  rw [h]

/-- The app that a program registers is installed and launched. -/
theorem load_of_registered {program : Option Program} {app : Fields Datum}
    (h : e.registered? program = some app) :
    (e.load program).2 = ((e.emptied program).install app).trigger .launch .null := by
  unfold registered? at h
  unfold load emptied
  dsimp only [Session.takeRegistration]
  rw [h]

/-- What the initial data of an app are taken for. -/
def startData (app : Fields Datum) : Fields :=
  match initialData app with
  | .obj data => data
  | _ => []

/-- Installing may complain about the initial data, and then puts data in place. -/
theorem install_session (app : Fields Datum) :
    (e.install app).session = e.session.afterAll (installDeeds app) ∧
      ∃ complaint, installDeeds app = complaint ++ [.initData (startData app)] ∧
        ∀ d ∈ complaint, ∃ message, d = .report "App" message := by
  unfold install installDeeds startData
  cases initialData app with
  | obj data => exact ⟨rfl, [], rfl, List.forall_mem_nil _⟩
  | null => exact ⟨rfl, [], rfl, List.forall_mem_nil _⟩
  | _ => exact ⟨rfl, [_], rfl, List.forall_mem_singleton.2 ⟨_, rfl⟩⟩

/-- An app that is installed is the one that was registered, and its callbacks are the closures in it,
as they stand then. -/
theorem install_app (app : Fields Datum) :
    (e.install app).app = some app ∧ (e.install app).callbacks = closuresOf app :=
  ⟨rfl, rfl⟩

/-- Putting an app in place publishes its data and calls nothing. -/
theorem visits_installDeeds (app : Fields Datum) : visits (installDeeds app) = [] := by
  unfold installDeeds
  split <;> rfl

/-- The session of an engine whose registration was taken is the one that the program has left, but
for the slot. -/
theorem emptied_session (program : Option Program) : (e.emptied program).session =
    e.session.afterAll (e.prepareDeeds program ++ [.takeRegistration]) := by
  rw [Session.afterAll_append, ← (e.did_prepare program).session]
  rfl

/-- The session after loading is what the deeds make of it. -/
theorem load_session (program : Option Program) :
    (e.load program).2.session = e.session.afterAll (e.loadDeeds program) := by
  rw [loadDeeds, List.append_cons, Session.afterAll_append, ← emptied_session]
  cases h : e.registered? program with
  | none => rw [e.load_of_unregistered h]; rfl
  | some app =>
    rw [e.load_of_registered h, (did_trigger _ _ _).session, (install_session _ app).1]
    exact (Session.afterAll_append _ _ _).symm

/-! ### Deeds of calls -/

/-- Reports of faults are deeds of a call: they neither load a program nor install an app. -/
theorem isOfCall_faultDeeds {α : Type} (origin : String) (result : Except Fault α) :
    ∀ d ∈ faultDeeds origin result, d.isOfCall = true := by
  cases result with
  | ok a => exact List.forall_mem_nil _
  | error fault => exact List.forall_mem_singleton.2 rfl

theorem isOfCall_uses (calls : List HostCall) : ∀ d ∈ calls.map Deed.use, d.isOfCall = true :=
  List.forall_mem_map.2 fun _ _ => rfl

theorem isOfCall_performDeeds (run : Run Datum) : ∀ d ∈ e.performDeeds run, d.isOfCall = true :=
  List.forall_mem_cons.2 ⟨rfl, isOfCall_uses _⟩

theorem isOfCall_updateDeeds (patch : Fields) : ∀ d ∈ e.updateDeeds patch, d.isOfCall = true := by
  unfold updateDeeds
  split
  · exact List.forall_mem_nil _
  · exact List.forall_mem_append.2 ⟨e.isOfCall_performDeeds _, isOfCall_faultDeeds _ _⟩

/-- A tracked run does nothing that only loading does, in the run itself and in what is told of it. -/
theorem isOfCall_trackedDeeds (run : Run Datum) : ∀ d ∈ e.trackedDeeds run, d.isOfCall = true := by
  unfold trackedDeeds
  refine List.forall_mem_append.2 ⟨List.forall_mem_cons.2 ⟨rfl, isOfCall_performDeeds _ _⟩,
    List.forall_mem_cons.2 ⟨rfl, ?_⟩⟩
  split
  · exact List.forall_mem_nil _
  · exact isOfCall_updateDeeds _ _

/-- Methods never install an app, whatever their bodies register. -/
theorem isOfCall_invokeDeeds (method : String) (args : Value) :
    ∀ d ∈ e.invokeDeeds method args, d.isOfCall = true := by
  unfold invokeDeeds
  split
  · exact List.forall_mem_nil _
  · exact List.forall_mem_append.2 ⟨e.isOfCall_trackedDeeds _, isOfCall_faultDeeds _ _⟩

/-- Nor do hooks; an app comes in place in no other way than by loading. -/
theorem isOfCall_triggerDeeds (hook : Hook) (args : Value) :
    ∀ d ∈ e.triggerDeeds hook args, d.isOfCall = true := by
  unfold triggerDeeds
  split
  · exact List.forall_mem_nil _
  · dsimp only
    split
    · exact List.forall_mem_append.2 ⟨e.isOfCall_performDeeds _, isOfCall_faultDeeds _ _⟩
    · exact List.forall_mem_append.2 ⟨e.isOfCall_trackedDeeds _, isOfCall_faultDeeds _ _⟩

/-- Even the run of a program installs nothing by itself: that is done once the registration was
taken. -/
theorem isOfCall_prepareDeeds (program : Option Program) :
    ∀ d ∈ e.prepareDeeds program, d.isOfCall = true := by
  unfold prepareDeeds
  refine List.forall_mem_append.2 ⟨?_, ?_⟩
  · unfold evaluateDeeds
    split
    · exact List.forall_mem_nil _
    · exact isOfCall_uses _
  · split
    · exact List.forall_mem_nil _
    · exact List.forall_mem_singleton.2 rfl

end Engine

end AppletHost.Sandbox
