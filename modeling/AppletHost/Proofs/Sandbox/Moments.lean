import AppletHost.Proofs.Sandbox.Acts

/-!
# What becomes of timers

The history of a run says when timers were set, cleared, taken as due and started. It is read off the
deeds of the run (`Actor.history`), and with it goes the list of the timers that were taken as due and
have yet to be started: the next batch is taken when there are none, and started one after another.

`Session.Reachable` goes through the life of a session one deed at a time. What holds of the first
session and is kept by each deed holds at any moment of a run, in the middle of a call as well:

> `exists_reachable`: at any moment of a run the session is reachable, with the history up to there;
> and no timer is waiting between two steps (`reachable_run`).
-/

namespace AppletHost.Sandbox

open Script (Closure)

/-! ## Histories -/

/-- What happens to a timer. -/
inductive TimerEvent where
  /-- It was set, to wait as long as the logic asked for. -/
  | set (id : TimerId) (now : Nat) (delay : Int) (repeats : Bool)
  /-- The logic cleared it, or one that there is not. -/
  | cleared (id : TimerId)
  /-- These timers were taken as due, to be started in this order. -/
  | due (now : Nat) (ids : List TimerId)
  /-- Its callback was started. -/
  | started (id : TimerId)
deriving DecidableEq, Repr, Inhabited

/-- What a deed is for the timers; one that is refused is not set. -/
def timerEvents (s : Session) : Deed → List TimerEvent
  | .use (.addTimer callback delay repeats) =>
    match (s.addTimer callback delay repeats).1 with
    | .ok id => [.set id s.clock.read.1 delay repeats]
    | .error _ => []
  | .use (.clearTimer id) => [.cleared id]
  | .due now => [.due now ((s.takeDueTimers now).1.map Prod.fst)]
  | .start id => [.started id]
  | _ => []

/-- What becomes of the timers as these deeds are done. -/
def Session.history (s : Session) (deeds : List Deed) : List TimerEvent := s.observe timerEvents deeds

/-- What becomes of the timers in a run. -/
def Actor.history (a : Actor) (steps : List Step) : List TimerEvent :=
  a.engine.session.history (a.deeds steps)

/-! ## Batches -/

/-- It takes timers as due, or starts one of them. -/
def Deed.isOfBatch : Deed → Bool
  | .due _ | .start _ => true
  | _ => false

/-- The deeds take a batch for the reading of the clock when no timer waits, and start the first one
that waits: at first these timers wait, and in the end those. -/
inductive Session.Regular : List TimerId → Session → List Deed → List TimerId → Prop
  | nil (ids : List TimerId) (s : Session) : Regular ids s [] ids
  | other {ids ids' : List TimerId} {s : Session} {d : Deed} {deeds : List Deed}
      (hd : d.isOfBatch = false) (rest : Regular ids (s.after d) deeds ids') :
      Regular ids s (d :: deeds) ids'
  | due {ids' : List TimerId} {s : Session} {now : Nat} {deeds : List Deed} (hnow : now = s.clock.now)
      (rest : Regular ((s.takeDueTimers now).1.map Prod.fst) (s.after (.due now)) deeds ids') :
      Regular [] s (.due now :: deeds) ids'
  | start {id : TimerId} {ids ids' : List TimerId} {s : Session} {deeds : List Deed}
      (rest : Regular ids s deeds ids') : Regular (id :: ids) s (.start id :: deeds) ids'

namespace Session

variable {s : Session} {ids ids' ids'' : List TimerId} {deeds deeds' : List Deed}

theorem Regular.append (h : s.Regular ids deeds ids') (h' : (s.afterAll deeds).Regular ids' deeds' ids'') :
    s.Regular ids (deeds ++ deeds') ids'' := by
  induction h with
  | nil => exact h'
  | other hd _ ih => exact .other hd (ih h')
  | due hnow _ ih => exact .due hnow (ih h')
  | start _ ih => exact .start (ih h')

/-- Deeds are regular up to each of them. -/
theorem Regular.of_append (h : s.Regular ids (deeds ++ deeds') ids'') :
    ∃ ids', s.Regular ids deeds ids' := by
  induction deeds generalizing s ids with
  | nil => exact ⟨ids, .nil ids s⟩
  | cons d deeds ih =>
    cases h with
    | other hd rest =>
      obtain ⟨ids', hdeeds⟩ := ih rest
      exact ⟨ids', .other hd hdeeds⟩
    | due hnow rest =>
      obtain ⟨ids', hdeeds⟩ := ih rest
      exact ⟨ids', .due hnow hdeeds⟩
    | start rest =>
      obtain ⟨ids', hdeeds⟩ := ih rest
      exact ⟨ids', .start hdeeds⟩

/-- What is no matter of batches lets the timers wait, whoever does it and in the middle of whatever
call. -/
theorem regular_of_others (ids : List TimerId) (s : Session) {deeds : List Deed}
    (h : ∀ d ∈ deeds, d.isOfBatch = false) : s.Regular ids deeds ids := by
  induction deeds generalizing s with
  | nil => exact .nil ids s
  | cons d deeds ih =>
    obtain ⟨hd, hrest⟩ := List.forall_mem_cons.1 h
    exact .other hd (ih _ hrest)

/-- What is done in the course of calls lets the timers wait. -/
theorem regular_of_isOfCall (ids : List TimerId) (s : Session) {deeds : List Deed}
    (h : ∀ d ∈ deeds, d.isOfCall = true) : s.Regular ids deeds ids := by
  refine regular_of_others ids s fun d hd => ?_
  have hcall := h d hd
  cases d with
  | due | start => cases hcall
  | _ => rfl

/-- What the session of a sandbox comes to, with its history, and which timers wait for their start
then. -/
inductive Reachable (app : String) (limits : Limits) :
    List TimerId → List TimerEvent → Session → Prop
  | create : Reachable app limits [] [] { app, limits }
  | deed {ids : List TimerId} {history : List TimerEvent} {s : Session}
      (h : Reachable app limits ids history s) {d : Deed} (hd : d.isOfBatch = false) :
      Reachable app limits ids (history ++ timerEvents s d) (s.after d)
  | due {history : List TimerEvent} {s : Session} (h : Reachable app limits [] history s) :
      Reachable app limits ((s.takeDueTimers s.clock.now).1.map Prod.fst)
        (history ++ timerEvents s (.due s.clock.now)) (s.after (.due s.clock.now))
  | started {id : TimerId} {ids : List TimerId} {history : List TimerEvent} {s : Session}
      (h : Reachable app limits (id :: ids) history s) :
      Reachable app limits ids (history ++ timerEvents s (.start id)) s

/-- Regular deeds lead to what is reachable, one after another, and add their events to the
history. -/
theorem Reachable.regular {app : String} {limits : Limits} {history : List TimerEvent}
    (h : Reachable app limits ids history s) (hdeeds : s.Regular ids deeds ids') :
    Reachable app limits ids' (history ++ s.history deeds) (s.afterAll deeds) := by
  induction hdeeds generalizing history with
  | nil ids s =>
    rw [Session.history, observe, List.append_nil]
    exact h
  | other hd _ ih =>
    rw [Session.history, observe, ← List.append_assoc]
    exact ih (h.deed hd)
  | due hnow _ ih =>
    subst hnow
    rw [Session.history, observe, ← List.append_assoc]
    exact ih h.due
  | start _ ih =>
    rw [Session.history, observe, ← List.append_assoc]
    exact ih h.started

end Session

/-! ## Engines -/

namespace Engine

open Session (Regular regular_of_isOfCall regular_of_others)

variable (e : Engine)

/-- A timer that is fired is started before anything else happens. -/
theorem regular_fireDeeds (timer : TimerId × Closure) (ids : List TimerId) :
    e.session.Regular (timer.1 :: ids) (e.fireDeeds timer) ids := by
  refine .start (regular_of_isOfCall ids _ ?_)
  exact List.forall_mem_append.2 ⟨e.isOfCall_trackedDeeds _, isOfCall_faultDeeds _ _⟩

/-- Firing a batch starts all of it, one timer after another; what the callbacks do in between takes
no other batch. -/
theorem regular_batchDeeds (due : List (TimerId × Closure)) :
    e.session.Regular (due.map Prod.fst) (e.batchDeeds due) [] := by
  induction due generalizing e with
  | nil => exact .nil _ _
  | cons timer due ih =>
    refine (e.regular_fireDeeds timer _).append ?_
    rw [← (e.did_fire timer).session]
    exact ih (e.fire timer)

theorem regular_dueDeeds : e.session.Regular [] (e.dueDeeds e.session.clock.now) [] :=
  .due rfl (regular_batchDeeds { e with session := (e.session.takeDueTimers e.session.clock.now).2 } _)

theorem regular_ringDeeds : e.session.Regular [] e.ringDeeds [] := by
  refine .other rfl (.other rfl ?_)
  split
  · exact e.awake.regular_dueDeeds
  · exact .nil _ _

theorem regular_loadDeeds (program : Option Script.Program) :
    e.session.Regular [] (e.loadDeeds program) [] := by
  refine (regular_of_isOfCall _ _ (e.isOfCall_prepareDeeds program)).append (.other rfl ?_)
  cases e.registered? program with
  | none => exact .nil _ _
  | some app =>
    refine (regular_of_others [] _ ?_).append (regular_of_isOfCall [] _ (isOfCall_triggerDeeds _ _ _))
    obtain ⟨complaint, hdeeds, hreports⟩ := ((e.emptied program).install_session app).2
    rw [hdeeds]
    refine List.forall_mem_append.2 ⟨fun d hd => ?_, List.forall_mem_singleton.2 rfl⟩
    obtain ⟨message, rfl⟩ := hreports d hd
    rfl

theorem regular_actDeeds (a : Act) : e.session.Regular [] (e.actDeeds a) [] := by
  cases a with
  | wind readings => exact .other rfl (.nil _ _)
  | load program => exact e.regular_loadDeeds program
  | execute command =>
    cases command with
    | invoke caller method args => exact regular_of_isOfCall [] _ (e.isOfCall_invokeDeeds method args)
    | trigger caller hook args => exact regular_of_isOfCall [] _ (e.isOfCall_triggerDeeds hook args)
    | dispose => exact .nil _ _
  | ring => exact e.regular_ringDeeds
  | shutdown => exact .other rfl (.nil _ _)

theorem regular_deeds (acts : List Act) : e.session.Regular [] (e.deeds acts) [] := by
  induction acts generalizing e with
  | nil => exact .nil _ _
  | cons a acts ih =>
    refine (e.regular_actDeeds a).append ?_
    rw [← act_session]
    exact ih (e.act a)

end Engine

/-! ## Runs -/

variable (app : String) (limits : Limits) (steps : List Step)

/-- Between the steps of a sandbox no timer is waiting for its start. -/
theorem reachable_run : Session.Reachable app limits [] ((Actor.create app limits).history steps)
    ((Actor.create app limits).run steps).engine.session := by
  rw [Actor.run_session]
  have hcreate : Session.Reachable app limits [] [] (Actor.create app limits).engine.session := .create
  exact hcreate.regular (Engine.regular_deeds _ _)

/-- A moment of a run, which may be in the middle of a call: what was done up to there. -/
def IsMoment (earlier : List Deed) : Prop := earlier <+: (Actor.create app limits).deeds steps

/-- The session at a moment. -/
def sessionAt (app : String) (limits : Limits) (earlier : List Deed) : Session :=
  (Actor.create app limits).engine.session.afterAll earlier

/-- What has become of the timers at a moment. -/
def historyAt (app : String) (limits : Limits) (earlier : List Deed) : List TimerEvent :=
  (Actor.create app limits).engine.session.history earlier

variable {app limits steps}

/-- Whatever the moment, the session is reachable, with the history up to there and some timers that
wait for their start. -/
theorem exists_reachable {earlier : List Deed} (h : IsMoment app limits steps earlier) :
    ∃ ids, Session.Reachable app limits ids (historyAt app limits earlier)
      (sessionAt app limits earlier) := by
  obtain ⟨later, hlater⟩ := h
  have hregular := Engine.regular_deeds (Actor.create app limits).engine ((Actor.create app limits).acts steps)
  rw [show Engine.deeds _ _ = earlier ++ later from hlater.symm] at hregular
  obtain ⟨ids, hearlier⟩ := hregular.of_append
  have hcreate : Session.Reachable app limits [] [] (Actor.create app limits).engine.session := .create
  exact ⟨ids, hcreate.regular hearlier⟩

end AppletHost.Sandbox
