import AppletHost.Sandbox.Actor
import AppletHost.Proofs.Sandbox.Deeds
import Mathlib.Tactic.ByContra

/-!
# What the engine of a sandbox is made to do

The steps of a sandbox come down to few acts of its engine: it loads the program, executes a command,
looks after its timers, or ends them. `Actor.acts` lists them for a run:

> `Actor.run_engine`: the engine is what these acts make of it, one after another.

So the deeds of a run are those of its acts (`Actor.deeds`), and the session is what they make of it
(`run_session`). Only one act loads, and it comes first but for the clock (`exists_load`); from then on
no app is installed (`installs_deeds_loaded`).
-/

namespace AppletHost.Sandbox

open Script (Program)

/-- What the engine of a sandbox is made to do at once. -/
inductive Act where
  /-- The clock is going to show these times. -/
  | wind (readings : List Nat)
  | load (program : Option Program)
  | execute (command : Command)
  /-- The timers that are due are called. -/
  | ring
  | shutdown

/-- It loads a program. -/
def Act.isLoad : Act → Bool
  | .load _ => true
  | _ => false

namespace Engine

/-- The engine after a command. -/
def execute (e : Engine) : Command → Engine
  | .invoke _ method args => (e.invoke method args).2
  | .trigger _ hook args => e.trigger hook args
  | .dispose => e

/-- The engine after one act. -/
def act (e : Engine) : Act → Engine
  | .wind readings => { e with session.clock.coming := e.session.clock.coming ++ readings }
  | .load program => (e.load program).2
  | .execute command => e.execute command
  | .ring => e.ring
  | .shutdown => e.shutdown

/-- The engine after one act after another. -/
def actAll (e : Engine) (acts : List Act) : Engine := acts.foldl act e

/-- What is done in an act. -/
def actDeeds (e : Engine) : Act → List Deed
  | .wind readings => [.wind readings]
  | .load program => e.loadDeeds program
  | .execute (.invoke _ method args) => e.invokeDeeds method args
  | .execute (.trigger _ hook args) => e.triggerDeeds hook args
  | .execute .dispose => []
  | .ring => e.ringDeeds
  | .shutdown => [.clearTimers]

/-- What is done in one act after another. -/
def deeds (e : Engine) : List Act → List Deed
  | [] => []
  | a :: acts => e.actDeeds a ++ (e.act a).deeds acts

variable (e : Engine)

/-- Acts in a row are done one after another, so a row may be cut in two. -/
theorem actAll_append (acts acts' : List Act) :
    e.actAll (acts ++ acts') = (e.actAll acts).actAll acts' :=
  List.foldl_append

/-- The deeds of acts in a row are those of the first ones, and of the others from where the first
have led. -/
theorem deeds_append (acts acts' : List Act) :
    e.deeds (acts ++ acts') = e.deeds acts ++ (e.actAll acts).deeds acts' := by
  induction acts generalizing e with
  | nil => rfl
  | cons a acts ih =>
    rw [List.cons_append, deeds, deeds, ih, List.append_assoc]
    rfl

/-- An act that does not load has the engine do these things. -/
theorem did_act {a : Act} (h : a.isLoad = false) : e.Did (e.actDeeds a) (e.act a) := by
  cases a with
  | wind readings => exact e.did_single (.wind readings) rfl
  | load program => cases h
  | execute command =>
    cases command with
    | invoke caller method args => exact e.did_invoke method args
    | trigger caller hook args => exact e.did_trigger hook args
    | dispose => exact e.did_nil
  | ring => exact e.did_ring
  | shutdown => exact e.did_single .clearTimers rfl

/-- An engine that does acts in a row has done their deeds, provided that none of them loads a program
anew. -/
theorem did_actAll {acts : List Act} (h : ∀ a ∈ acts, a.isLoad = false) :
    e.Did (e.deeds acts) (e.actAll acts) := by
  induction acts generalizing e with
  | nil => exact e.did_nil
  | cons a acts ih =>
    obtain ⟨hfirst, hrest⟩ := List.forall_mem_cons.1 h
    exact (e.did_act hfirst).append (ih (e.act a) hrest)

/-- The session after an act is the one that its deeds have led to, also where the act loads a
program. -/
theorem act_session (a : Act) : (e.act a).session = e.session.afterAll (e.actDeeds a) := by
  cases hload : a.isLoad with
  | false => exact (e.did_act hload).session
  | true =>
    cases a with
    | load program => exact e.load_session program
    | _ => cases hload

/-- And so is the session after any row of acts. Every invariant of the session goes over from deeds
to runs by this. -/
theorem actAll_session (acts : List Act) :
    (e.actAll acts).session = e.session.afterAll (e.deeds acts) := by
  induction acts generalizing e with
  | nil => rfl
  | cons a acts ih =>
    show ((e.act a).actAll acts).session = _
    rw [ih, act_session, deeds, Session.afterAll_append]

/-! ### Installing -/

/-- A timer that fires installs no app, whatever its callback registers. -/
theorem installs_fireDeeds (timer : TimerId × Script.Closure) :
    ∀ d ∈ e.fireDeeds timer, d.installs = false := by
  unfold fireDeeds
  refine List.forall_mem_cons.2 ⟨rfl, List.forall_mem_append.2 ⟨?_, ?_⟩⟩
  · exact fun d hd => Deed.not_installs_of_isOfCall (e.isOfCall_trackedDeeds _ d hd)
  · exact fun d hd => Deed.not_installs_of_isOfCall (isOfCall_faultDeeds _ _ d hd)

theorem installs_batchDeeds (due : List (TimerId × Script.Closure)) :
    ∀ d ∈ e.batchDeeds due, d.installs = false := by
  induction due generalizing e with
  | nil => exact List.forall_mem_nil _
  | cons timer due ih => exact List.forall_mem_append.2 ⟨e.installs_fireDeeds timer, ih _⟩

/-- Only loading installs an app: any other act is made of calls, timers and readings of the clock. -/
theorem installs_actDeeds {a : Act} (h : a.isLoad = false) :
    ∀ d ∈ e.actDeeds a, d.installs = false := by
  cases a with
  | load program => cases h
  | wind readings => exact List.forall_mem_singleton.2 rfl
  | shutdown => exact List.forall_mem_singleton.2 rfl
  | execute command =>
    cases command with
    | invoke caller method args =>
      exact fun d hd => Deed.not_installs_of_isOfCall (e.isOfCall_invokeDeeds method args d hd)
    | trigger caller hook args =>
      exact fun d hd => Deed.not_installs_of_isOfCall (e.isOfCall_triggerDeeds hook args d hd)
    | dispose => exact List.forall_mem_nil _
  | ring =>
    show ∀ d ∈ e.ringDeeds, d.installs = false
    unfold ringDeeds
    refine List.forall_mem_cons.2 ⟨rfl, List.forall_mem_cons.2 ⟨rfl, ?_⟩⟩
    split
    · exact List.forall_mem_cons.2 ⟨rfl, installs_batchDeeds _ _⟩
    · exact List.forall_mem_nil _

/-- Nor do acts in a row: the only act that puts an app in place is that of loading. -/
theorem installs_deeds {acts : List Act} (h : ∀ a ∈ acts, a.isLoad = false) :
    ∀ d ∈ e.deeds acts, d.installs = false := by
  induction acts generalizing e with
  | nil => exact List.forall_mem_nil _
  | cons a acts ih =>
    obtain ⟨hfirst, hrest⟩ := List.forall_mem_cons.1 h
    exact List.forall_mem_append.2 ⟨e.installs_actDeeds hfirst, ih _ hrest⟩

end Engine

/-! ## Steps -/

namespace Actor

/-- What the engine is made to do in a step. -/
def actsIn (a : Actor) : Step → List Act
  | .wind readings => [.wind readings]
  | .load program => if a.thread = .loading then [.load program] else []
  | .take =>
    match a.thread, a.queue with
    | .serving, command :: _ => [.execute command]
    | _, _ => []
  | .fire => if a.thread = .serving then [.ring] else []
  | .leave => if a.thread = .leaving then [.shutdown] else []
  | _ => []

/-- What the engine is made to do in a run. -/
def acts (a : Actor) : List Step → List Act
  | [] => []
  | step :: steps => a.actsIn step ++ (a.step step).acts steps

/-- What is done to the session in a run. -/
def deeds (a : Actor) (steps : List Step) : List Deed := a.engine.deeds (a.acts steps)

theorem run_append (a : Actor) (steps steps' : List Step) :
    a.run (steps ++ steps') = (a.run steps).run steps' :=
  List.foldl_append

/-- The acts of two rows of steps are those of the first, and then of the second from where the first
has led. -/
theorem acts_append (a : Actor) (steps steps' : List Step) :
    a.acts (steps ++ steps') = a.acts steps ++ (a.run steps).acts steps' := by
  induction steps generalizing a with
  | nil => rfl
  | cons step steps ih =>
    rw [List.cons_append, acts, acts, ih, List.append_assoc]
    rfl

/-- An owner that begins a call touches neither the engine nor the thread. -/
theorem begin_engine (a : Actor) (command : Nat → Except Reply Command) :
    (a.begin command).engine = a.engine ∧ (a.begin command).thread = a.thread := by
  unfold begin
  dsimp only
  split
  · exact ⟨rfl, rfl⟩
  · exact ⟨rfl, rfl⟩

theorem enter_engine (a : Actor) (ticket : Nat) :
    (a.enter ticket).engine = a.engine ∧ (a.enter ticket).thread = a.thread := by
  unfold enter
  split
  · exact ⟨rfl, rfl⟩
  · dsimp only
    split
    · exact ⟨rfl, rfl⟩
    · exact ⟨rfl, rfl⟩

theorem ne_loading {a : Actor} {thread : Thread} (h : a.thread = thread)
    (hthread : thread ≠ .loading) : a.thread ≠ .loading :=
  h ▸ hthread

/-- A command is executed on the engine as it is handled, and the thread does not fall back to loading
by it. -/
theorem handle_engine (a : Actor) (command : Command) :
    (a.handle command).engine = a.engine.execute command ∧
      (a.thread ≠ .loading → (a.handle command).thread ≠ .loading) := by
  cases command with
  | invoke caller method args => exact ⟨rfl, id⟩
  | trigger caller hook args => exact ⟨rfl, id⟩
  | dispose =>
    have hleaving : (a.handle .dispose).thread = .leaving := rfl
    exact ⟨rfl, fun _ => ne_loading hleaving (by decide)⟩

/-- The engine after a step is what the acts of the step make of it, and a thread that has loaded does
not load again. -/
theorem step_engine (a : Actor) (step : Step) :
    (a.step step).engine = a.engine.actAll (a.actsIn step) ∧
      (a.thread ≠ .loading → (a.step step).thread ≠ .loading) := by
  have hidle : ∀ b : Actor, b.engine = a.engine ∧ b.thread = a.thread →
      b.engine = a.engine.actAll [] ∧ (a.thread ≠ .loading → b.thread ≠ .loading) :=
    fun b hb => ⟨hb.1, fun h => hb.2 ▸ h⟩
  cases step with
  | wind readings => exact ⟨rfl, id⟩
  | load program =>
    rw [Actor.step, actsIn]
    split
    next h => exact ⟨rfl, fun hnot => absurd h hnot⟩
    next => exact hidle a ⟨rfl, rfl⟩
  | invoke _ _ | trigger _ _ | request _ _ =>
    rw [Actor.step]
    split
    · exact hidle a ⟨rfl, rfl⟩
    · exact hidle _ (begin_engine a _)
  | enter ticket => exact hidle _ (enter_engine a ticket)
  | flag | unsubscribe | queueDispose | announce =>
    -- the engine has no part in these
    rw [Actor.step]
    split
    · exact hidle _ ⟨rfl, rfl⟩
    · exact hidle a ⟨rfl, rfl⟩
  | take =>
    rw [Actor.step]
    split
    next command rest hthread hqueue =>
      have hacts : a.actsIn .take = [.execute command] := by rw [actsIn, hthread, hqueue]
      rw [hacts]
      exact handle_engine { a with queue := rest } command
    next hnot =>
      have hacts : a.actsIn .take = [] := by
        rw [actsIn]
        split
        next command rest hthread hqueue => exact absurd hqueue (hnot command rest hthread)
        next => rfl
      rw [hacts]
      exact hidle a ⟨rfl, rfl⟩
  | fire =>
    rw [Actor.step, actsIn]
    split
    · exact ⟨rfl, id⟩
    · exact hidle a ⟨rfl, rfl⟩
  | leave =>
    have hstopped : Thread.stopped ≠ .loading := by decide
    rw [Actor.step, actsIn]
    split
    · exact ⟨rfl, fun _ => hstopped⟩
    · exact hidle a ⟨rfl, rfl⟩
  | hangUp =>
    have hgone : Thread.gone ≠ .loading := by decide
    rw [Actor.step]
    split
    · exact ⟨rfl, fun _ => hgone⟩
    · exact hidle a ⟨rfl, rfl⟩

/-- What every step keeps, every run keeps, from whatever actor the run begins with. -/
theorem run_keeps {P : Actor → Prop} (hstep : ∀ a step, P a → P (Actor.step a step)) {a : Actor}
    (ha : P a) (steps : List Step) : P (a.run steps) := by
  induction steps generalizing a with
  | nil => exact ha
  | cons step steps ih => exact ih (hstep a step ha)

/-- The engine after a run is what the acts of the run make of it. -/
theorem run_engine (a : Actor) (steps : List Step) :
    (a.run steps).engine = a.engine.actAll (a.acts steps) := by
  induction steps generalizing a with
  | nil => rfl
  | cons step steps ih =>
    show ((a.step step).run steps).engine = _
    rw [ih, (a.step_engine step).1, acts, Engine.actAll_append]

/-- The session after a run is what the deeds of the run make of it. -/
theorem run_session (a : Actor) (steps : List Step) :
    (a.run steps).engine.session = a.engine.session.afterAll (a.deeds steps) := by
  rw [run_engine, Engine.actAll_session, deeds]

/-- The deeds of two rows of steps are those of the first, and then of the second from where the first
has led. -/
theorem deeds_append (a : Actor) (steps steps' : List Step) :
    a.deeds (steps ++ steps') = a.deeds steps ++ (a.run steps).deeds steps' := by
  rw [deeds, deeds, deeds, acts_append, Engine.deeds_append, ← run_engine]

/-! ### Before and after loading -/

/-- A sandbox that has loaded stays so, since no step leads its thread back to where it waits for a
program. -/
theorem run_loaded {a : Actor} (h : a.thread ≠ .loading) (steps : List Step) :
    (a.run steps).thread ≠ .loading :=
  run_keeps (P := fun a => a.thread ≠ .loading) (fun a step => (a.step_engine step).2) h steps

/-- Once a program was loaded no step loads one again. -/
theorem actsIn_loaded {a : Actor} (h : a.thread ≠ .loading) (step : Step) :
    ∀ act ∈ a.actsIn step, act.isLoad = false := by
  cases step with
  | load program =>
    rw [actsIn, if_neg h]
    exact List.forall_mem_nil _
  | wind readings => exact List.forall_mem_singleton.2 rfl
  | take =>
    rw [actsIn]
    split
    · exact List.forall_mem_singleton.2 rfl
    · exact List.forall_mem_nil _
  | fire | leave =>
    rw [actsIn]
    split
    · exact List.forall_mem_singleton.2 rfl
    · exact List.forall_mem_nil _
  | _ => exact List.forall_mem_nil _

/-- A sandbox that has loaded does not load again, so from then on the engine is one and the same. -/
theorem acts_loaded {a : Actor} (h : a.thread ≠ .loading) (steps : List Step) :
    ∀ act ∈ a.acts steps, act.isLoad = false := by
  induction steps generalizing a with
  | nil => exact List.forall_mem_nil _
  | cons step steps ih =>
    exact List.forall_mem_append.2 ⟨actsIn_loaded h step, ih ((a.step_engine step).2 h)⟩

/-- A loaded actor that is run has done the deeds of the run, and nothing else. -/
theorem did_run {a : Actor} (h : a.thread ≠ .loading) (steps : List Step) :
    a.engine.Did (a.deeds steps) (a.run steps).engine := by
  rw [run_engine]
  exact a.engine.did_actAll (acts_loaded h steps)

theorem installs_deeds_loaded {a : Actor} (h : a.thread ≠ .loading) (steps : List Step) :
    ∀ d ∈ a.deeds steps, d.installs = false :=
  a.engine.installs_deeds (acts_loaded h steps)

/-- Before a program is loaded, there is only the clock. -/
theorem acts_loading {a : Actor} {steps : List Step} (h : (a.run steps).thread = .loading) :
    ∀ act ∈ a.acts steps, ∃ readings, act = .wind readings := by
  induction steps generalizing a with
  | nil => exact List.forall_mem_nil _
  | cons step steps ih =>
    have hloading : a.thread = .loading := by
      by_contra hloaded
      exact run_loaded hloaded (step :: steps) h
    have hstill : (a.step step).thread = .loading := by
      by_contra hloaded
      exact run_loaded hloaded steps h
    refine List.forall_mem_append.2 ⟨?_, ih h⟩
    cases step with
    | wind readings => exact List.forall_mem_singleton.2 ⟨readings, rfl⟩
    | load program =>
      rw [Actor.step, if_pos hloading] at hstill
      cases hstill
    | take =>
      rw [actsIn]
      split
      next hserving _ => exact absurd (hloading.symm.trans hserving) (by decide)
      next => exact List.forall_mem_nil _
    | fire =>
      rw [actsIn, if_neg (by rw [hloading]; decide)]
      exact List.forall_mem_nil _
    | leave =>
      rw [actsIn, if_neg (by rw [hloading]; decide)]
      exact List.forall_mem_nil _
    | _ => exact List.forall_mem_nil _

/-- An actor that is still to load its program has done nothing but wait for its turn. -/
theorem deeds_loading {a : Actor} {steps : List Step} (h : (a.run steps).thread = .loading) :
    (∀ d ∈ a.deeds steps, ∃ readings, d = .wind readings) ∧
      a.engine.Did (a.deeds steps) (a.run steps).engine := by
  have hwinds := acts_loading h
  refine ⟨?_, ?_⟩
  · rw [deeds]
    generalize a.engine = e
    revert hwinds
    induction a.acts steps generalizing e with
    | nil => exact fun _ => List.forall_mem_nil _
    | cons act acts ih =>
      intro hwinds
      obtain ⟨⟨readings, rfl⟩, hrest⟩ := List.forall_mem_cons.1 hwinds
      exact List.forall_mem_cons.2 ⟨⟨readings, rfl⟩, ih _ hrest⟩
  · rw [run_engine]
    refine a.engine.did_actAll fun act hact => ?_
    obtain ⟨readings, rfl⟩ := hwinds act hact
    rfl

/-- A sandbox that has loaded did so in one of its steps. -/
theorem exists_load {a : Actor} {steps : List Step} (h : a.thread = .loading)
    (hloaded : (a.run steps).thread ≠ .loading) :
    ∃ before program after, steps = before ++ .load program :: after ∧
      (a.run before).thread = .loading := by
  induction steps generalizing a with
  | nil => exact absurd h hloaded
  | cons step steps ih =>
    by_cases hstill : (a.step step).thread = .loading
    · obtain ⟨before, program, after, rfl, hbefore⟩ := ih hstill hloaded
      exact ⟨step :: before, program, after, rfl, hbefore⟩
    · cases step with
      | load program => exact ⟨[], program, steps, rfl, h⟩
      | wind readings => exact absurd h hstill
      | invoke | trigger | request =>
        rw [Actor.step, if_pos h] at hstill
        exact absurd h hstill
      | enter ticket => exact absurd ((a.enter_engine ticket).2.trans h) hstill
      | flag | unsubscribe | queueDispose | announce =>
        rw [Actor.step] at hstill
        split at hstill
        · exact absurd h hstill
        · exact absurd h hstill
      | take =>
        rw [Actor.step] at hstill
        split at hstill
        next hserving _ => exact absurd (h.symm.trans hserving) (by decide)
        next => exact absurd h hstill
      | fire | leave | hangUp =>
        rw [Actor.step, if_neg (by rw [h]; decide)] at hstill
        exact absurd h hstill

/-- What is done in a run that loads a program: the clock goes on, the program is loaded, and no app
is installed after that. -/
theorem deeds_load (a : Actor) {before : List Step} (program : Option Program) (after : List Step)
    (h : (a.run before).thread = .loading) :
    a.deeds (before ++ .load program :: after) =
      a.deeds before ++ ((a.run before).engine.loadDeeds program ++
        ((a.run before).load program).deeds after) ∧
    a.run (before ++ .load program :: after) = ((a.run before).load program).run after := by
  have hstep : (a.run before).step (.load program) = (a.run before).load program := by
    rw [Actor.step, if_pos h]
  constructor
  · rw [deeds_append, List.append_cancel_left_eq, deeds, acts, actsIn, if_pos h, hstep]
    rfl
  · rw [run_append]
    show ((a.run before).step (.load program)).run after = _
    rw [hstep]

end Actor

end AppletHost.Sandbox
