import AppletHost.Proofs.Sandbox.Visits

/-!
# Which apps a program registers

`App` refuses an app while another one is registered, and the engine looks for the registration once
the program has run. It does so by taking it out, though, and with that the way is free again:

> `Session.registration_after`: as long as nobody takes the registration out, one call of `App` at most
> succeeds, and its app is the one that is registered;

so there is room for one app while the program runs and for another one later, from whatever method,
hook or timer (`registrations_of_run`):

> `second_registration_succeeds`: a method registers an app in a sandbox that was loaded with one.

The second app has no effect. The callbacks are installed when the program is loaded, and are never
looked up anywhere else (`Actor.callbacks_load`).
-/

namespace AppletHost.Sandbox

open Script (Closure Datum Fault Program)

/-! ## Sessions -/

/-- The app that is registered by a deed, if that succeeds. -/
def Session.registers (s : Session) : Deed → List (Fields Datum)
  | .use (.register app) =>
    match (s.register app).1 with
    | .ok _ => [app]
    | .error _ => []
  | _ => []

/-- The apps that are registered as these deeds are done, in order. -/
def Session.registrations (s : Session) (deeds : List Deed) : List (Fields Datum) :=
  s.observe registers deeds

/-- Nobody takes the registration out. -/
def Untaken (deeds : List Deed) : Prop := ∀ d ∈ deeds, d ≠ .takeRegistration

/-- From here on one call of `App` succeeds, as long as nobody takes the registration out, and every
other one faults and changes nothing. -/
def Session.AdmitsOne (s : Session) : Prop :=
  ∀ deeds, Untaken deeds → ∀ app,
    let s' := s.afterAll deeds
    (s.registrations deeds = [] → (s'.register app).1 = .ok ()) ∧
    (s.registrations deeds ≠ [] → s'.register app = (.error (.ofText "App already registered"), s'))

section Untaken

variable {deeds deeds' : List Deed}

theorem untaken_append : Untaken (deeds ++ deeds') ↔ Untaken deeds ∧ Untaken deeds' :=
  List.forall_mem_append

theorem untaken_of_installs (h : ∀ d ∈ deeds, d.installs = false) : Untaken deeds := by
  rintro d hd rfl
  cases h _ hd

theorem untaken_of_isOfCall (h : ∀ d ∈ deeds, d.isOfCall = true) : Untaken deeds :=
  untaken_of_installs fun d hd => Deed.not_installs_of_isOfCall (h d hd)

end Untaken

namespace Session

variable (s : Session)

/-- A deed registers an app just if none is registered, and that app is registered from then on. -/
theorem registration_after_deed {d : Deed} (hd : d ≠ .takeRegistration) :
    (s.after d).registration.toList = s.registration.toList ++ s.registers d := by
  have hkept : s.registration.toList = s.registration.toList ++ [] := (List.append_nil _).symm
  cases d with
  | takeRegistration => exact absurd rfl hd
  | use call =>
    cases call with
    | register app =>
      show (s.register app).2.registration.toList = _
      rw [registers, register]
      cases hslot : s.registration with
      | none => rfl
      | some other =>
        show s.registration.toList = [other] ++ []
        rw [hslot]
        rfl
    | setData update =>
      show (s.setData update).2.registration.toList = _
      unfold setData
      split
      · exact hkept
      · exact hkept
    | addTimer callback delay repeats =>
      show (s.addTimer callback delay repeats).2.registration.toList = _
      unfold addTimer
      split
      · exact hkept
      · exact hkept
    | clearTimer id => exact hkept
    | log level args => exact hkept
  | _ => exact hkept

/-- The app that is registered is the one that was, or else the one that was registered since. -/
theorem registration_after {deeds : List Deed} (h : Untaken deeds) :
    (s.afterAll deeds).registration.toList = s.registration.toList ++ s.registrations deeds := by
  induction deeds generalizing s with
  | nil => exact (List.append_nil _).symm
  | cons d deeds ih =>
    obtain ⟨hfirst, hrest⟩ := List.forall_mem_cons.1 h
    show ((s.after d).afterAll deeds).registration.toList = _
    rw [ih _ hrest, s.registration_after_deed hfirst, List.append_assoc]
    rfl

/-- A free slot has room for one app: along any deeds that do not empty it, the first `App` succeeds
and all others are refused. -/
theorem admitsOne_of_free (h : s.registration = none) : s.AdmitsOne := by
  intro deeds huntaken app s'
  have hslot := s.registration_after huntaken
  rw [h, Option.toList_none, List.nil_append] at hslot
  rw [← hslot, Option.toList_eq_nil_iff, Ne, Option.toList_eq_nil_iff]
  show (s'.registration = none → _) ∧ (¬ s'.registration = none → _)
  rw [register]
  cases s'.registration with
  | none => exact ⟨fun _ => rfl, fun hsome => absurd rfl hsome⟩
  | some other => exact ⟨fun hnone => absurd hnone (Option.some_ne_none other), fun _ => rfl⟩

/-- To take the registration out makes room for another one: the apps registered in all are the one
that was taken out and the one that is registered at the end. -/
theorem registrations_taken {s : Session} (hfree : s.registration = none) {earlier later : List Deed}
    (hearlier : Untaken earlier) (hlater : Untaken later) :
    s.registrations earlier = (s.afterAll earlier).registration.toList ∧
      (s.afterAll (earlier ++ [.takeRegistration])).AdmitsOne ∧
      s.registrations (earlier ++ .takeRegistration :: later) =
        (s.afterAll earlier).registration.toList ++
          (s.afterAll (earlier ++ .takeRegistration :: later)).registration.toList := by
  let taken := s.afterAll (earlier ++ [.takeRegistration])
  have htaken : taken.registration = none := by
    show (s.afterAll (earlier ++ [.takeRegistration])).registration = none
    rw [afterAll_append]
    rfl
  have hfirst := s.registration_after hearlier
  have hsecond := taken.registration_after hlater
  rw [hfree, Option.toList_none, List.nil_append] at hfirst
  rw [htaken, Option.toList_none, List.nil_append] at hsecond
  refine ⟨hfirst.symm, admitsOne_of_free _ htaken, ?_⟩
  rw [List.append_cons, afterAll_append, hsecond, hfirst, registrations, observe_append, observe_append]
  exact congrArg (· ++ taken.registrations later) (List.append_nil _)

end Session

/-- Two places hold one thing at most iff one of them is empty. -/
theorem length_toList_le_one {α : Type} (x y : Option α) :
    (x.toList ++ y.toList).length ≤ 1 ↔ x = none ∨ y = none := by
  cases x <;> cases y <;> simp

/-! ## Sandboxes -/

namespace Engine

theorem untaken_launchDeeds (e : Engine) (app : Fields Datum) : Untaken (e.launchDeeds app) := by
  refine untaken_append.2 ⟨?_, untaken_of_isOfCall (isOfCall_triggerDeeds _ _ _)⟩
  obtain ⟨complaint, hdeeds, hreports⟩ := (e.install_session app).2
  rw [hdeeds]
  refine untaken_append.2 ⟨?_, List.forall_mem_singleton.2 Deed.noConfusion⟩
  rintro d hd rfl
  obtain ⟨message, hreport⟩ := hreports _ hd
  cases hreport

/-- Loading takes the registration out once, behind all that the program does and before the app is
installed. -/
theorem loadDeeds_taken (e : Engine) (program : Option Program) :
    ∃ launch, e.loadDeeds program = e.prepareDeeds program ++ .takeRegistration :: launch ∧
      Untaken launch := by
  refine ⟨_, rfl, ?_⟩
  cases e.registered? program with
  | none => exact List.forall_mem_nil _
  | some app => exact Engine.untaken_launchDeeds _ app

end Engine

namespace Actor

section Run

variable {app : String} {limits : Limits} {before : List Step} {program : Option Program}

/-- The deeds of a run: loading takes the registration out once, and it is not taken out again. -/
theorem deeds_taken (program : Option Program)
    (hloading : ((create app limits).run before).thread = .loading) (steps : List Step) :
    let e := ((create app limits).run before).engine
    let earlier := (create app limits).deeds before ++ e.prepareDeeds program
    ∃ later, (create app limits).deeds (before ++ .load program :: steps) =
        earlier ++ .takeRegistration :: later ∧
      Untaken earlier ∧ Untaken later ∧
      (create app limits).engine.session.afterAll earlier = (e.prepare program).2.session := by
  intro e earlier
  have hserving : (((create app limits).run before).load program).thread = .serving := rfl
  have hloaded := ne_loading hserving (by decide)
  obtain ⟨hwinds, hbefore⟩ := deeds_loading hloading
  have hafter : Untaken ((((create app limits).run before).load program).deeds steps) :=
    untaken_of_installs (installs_deeds_loaded hloaded steps)
  obtain ⟨launch, hload, hlaunch⟩ := e.loadDeeds_taken program
  refine ⟨launch ++ (((create app limits).run before).load program).deeds steps, ?_, ?_,
    untaken_append.2 ⟨hlaunch, hafter⟩, ?_⟩
  · rw [((create app limits).deeds_load program steps hloading).1,
      show ((create app limits).run before).engine.loadDeeds program = _ from hload]
    simp only [List.append_assoc, List.cons_append, earlier, e]
  · refine untaken_append.2 ⟨?_, untaken_of_isOfCall (e.isOfCall_prepareDeeds program)⟩
    intro d hd
    obtain ⟨readings, rfl⟩ := hwinds d hd
    exact Deed.noConfusion
  · rw [Session.afterAll_append, ← hbefore.session]
    exact (e.did_prepare program).session.symm

/-- The callbacks are those of the app that the program registers. -/
theorem callbacks_load (hloading : ((create app limits).run before).thread = .loading)
    (steps : List Step) :
    ((create app limits).run (before ++ .load program :: steps)).engine.callbacks =
      ((((create app limits).run before).engine.registered? program).map
        Engine.closuresOf).getD [] := by
  let e := ((create app limits).run before).engine
  have hserving : (((create app limits).run before).load program).thread = .serving := rfl
  have hfresh : e.callbacks = [] := (deeds_loading hloading).2.callbacks
  rw [((create app limits).deeds_load program steps hloading).2,
    (did_run (ne_loading hserving (by decide)) steps).callbacks]
  show (e.load program).2.callbacks = ((e.registered? program).map Engine.closuresOf).getD []
  cases hregisters : e.registered? program with
  | none =>
    rw [e.load_of_unregistered hregisters]
    show (e.prepare program).2.callbacks = []
    rw [(e.did_prepare program).callbacks, hfresh]
  | some registered =>
    rw [e.load_of_registered hregisters, (Engine.did_trigger _ _ _).callbacks]
    exact (Engine.install_app _ registered).2

end Run

end Actor

/--
The apps that are registered in a sandbox, in every run. While the program is loaded one call of `App`
succeeds, and any other faults; then loading takes the registration out, once, and from then on,
whatever is called, one more succeeds. The apps registered in all are the one that loading took out and
the one that is registered now, if there are such: that is one at most unless there are both. The
callbacks are those of the app that loading took out, and the session is what these deeds make of it.
-/
theorem registrations_of_run (app : String) (limits : Limits) (before : List Step)
    (program : Option Program) (steps : List Step)
    (hloading : ((Actor.create app limits).run before).thread = .loading) :
    let start := Actor.create app limits
    let s := start.engine.session
    let deeds := start.deeds (before ++ .load program :: steps)
    let a := start.run (before ++ .load program :: steps)
    let loaded := (start.run before).engine.registered? program
    (∃ earlier later, deeds = earlier ++ .takeRegistration :: later ∧
      Untaken earlier ∧ Untaken later ∧
      s.AdmitsOne ∧ (s.afterAll (earlier ++ [.takeRegistration])).AdmitsOne ∧
      s.registrations earlier = loaded.toList) ∧
    s.registrations deeds = loaded.toList ++ a.engine.session.registration.toList ∧
    ((s.registrations deeds).length ≤ 1 ↔ loaded = none ∨ a.engine.session.registration = none) ∧
    a.engine.callbacks = (loaded.map Engine.closuresOf).getD [] ∧
    a.engine.session = s.afterAll deeds := by
  intro start s deeds a loaded
  obtain ⟨later, hdeeds, hearlier, hlater, hprepared⟩ := Actor.deeds_taken program hloading steps
  -- the slot is emptied once, so it admits a registration on either side of that
  obtain ⟨hloaded, hone, hall⟩ := Session.registrations_taken (s := s) rfl hearlier hlater
  rw [hprepared] at hloaded
  rw [hprepared, ← hdeeds, ← start.run_session] at hall
  refine ⟨⟨_, later, hdeeds, hearlier, hlater, s.admitsOne_of_free rfl, hone, hloaded⟩, hall, ?_,
    Actor.callbacks_load hloading steps, start.run_session _⟩
  rw [show s.registrations deeds = _ from hall]
  exact length_toList_le_one loaded a.engine.session.registration

/-- The app of a program that registers one, and nothing after that. -/
theorem scribbler_registered_once :
    ((Actor.create "demo" .standard).run []).thread = .loading ∧
      let start := Actor.create "demo" .standard
      let registrations := start.engine.session.registrations
        (start.deeds ([] ++ .load (some scribbler) :: scribbling))
      registrations = [scribblerApp] ∧ registrations.length ≤ 1 ∧
        (start.run ([] ++ .load (some scribbler) :: scribbling)).engine.callbacks =
          Engine.closuresOf scribblerApp := by
  have hloading : ((Actor.create "demo" .standard).run []).thread = .loading := rfl
  have hloaded : ((Actor.create "demo" .standard).run []).engine.registered? (some scribbler) =
      some scribblerApp := by cbv
  have hlater : ((Actor.create "demo" .standard).run
      ([] ++ .load (some scribbler) :: scribbling)).engine.session.registration = none := by
    decide +kernel
  have hrun := registrations_of_run "demo" .standard [] (some scribbler) scribbling hloading
  have hall := hrun.2.1
  have hcallbacks := hrun.2.2.2.1
  rw [hloaded, hlater] at hall
  rw [hloaded] at hcallbacks
  exact ⟨hloading, hall, hrun.2.2.1.2 (.inr hlater), hcallbacks⟩

/-- A program that registers an app whose only method registers another one. -/
def reviver : Program :=
  [.evaluate (.call "App" [.record [("again", .closure [] [.evaluate (.call "App" [.record []])])]])]

/-- The method is called, and registers the second app. -/
theorem second_registration_succeeds :
    let start := Actor.create "demo" .standard
    let steps := [.load (some reviver), .invoke "again" .null, .enter 0, .take]
    (start.run steps).reply? 0 = some (.outcome (.completed .null)) ∧
      (start.engine.session.registrations (start.deeds steps)).length = 2 ∧
      Fields.names (start.run steps).engine.callbacks = ["again"] := by
  exact ⟨rfl, rfl, rfl⟩

end AppletHost.Sandbox
