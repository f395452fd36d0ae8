import AppletHost.Proofs.Sandbox.Registration

/-!
# The phases of a sandbox

The phase of a sandbox has two writers: the thread, and the owner who disposes it. Neither waits for
the other, and what the owner writes is final at once, while the thread may still have commands in its
queue, or be in the middle of one.

`Actor.step` has the thread take a command and be done with it in one step. Here the steps of the thread
are taken apart, and any other party may come in between two parts:

> `Actor.substeps_step`: the parts of a step, one right after another, come to that step.

Whichever move is made, the phase stays or becomes one that may follow it (`Orderly.move`), and the
engine does what the moves have it do (`Interleaved.run_engine`). What the
thread writes outright it writes before anybody can dispose the sandbox, or when it is through with it;
for a call it only marks the phase, and a mark leaves every phase but `launched` alone.
-/

namespace AppletHost.Sandbox

open Script (Datum Program)
open Relation (ReflGen ReflTransGen)

/-! ## Phases -/

namespace Phase

/-- The phases that may follow a phase. -/
inductive Next : Phase → Phase → Prop
  | load : Next .unloaded .loaded
  | launch : Next .unloaded .launched
  | call : Next .launched .running
  | dispose {phase : Phase} (loaded : phase ≠ .unloaded) (live : phase ≠ .disposed) :
      Next phase .disposed

variable {phase phase' : Phase}

/-- No move leads back to the phase before loading. -/
theorem ne_unloaded_of_next (h : ReflGen Next phase phase') (hloaded : phase ≠ .unloaded) :
    phase' ≠ .unloaded := by
  cases h with
  | refl => exact hloaded
  | single hnext => cases hnext <;> exact nofun

/-- Once a program is loaded, the app is not launched any more. -/
theorem launched_of_next (h : ReflGen Next phase phase') (hloaded : phase ≠ .unloaded)
    (hlaunched : phase' = .launched ∨ phase' = .running) :
    phase = .launched ∨ phase = .running := by
  cases h with
  | refl => exact hlaunched
  | single hnext =>
    cases hnext with
    | load | launch => exact absurd rfl hloaded
    | call => exact .inl rfl
    | dispose _ _ => simp at hlaunched

/-- A call finds an app that is launched and makes it run, and leaves every other phase alone. -/
theorem next_onCall (phase : Phase) : ReflGen Next phase phase.onCall := by
  cases phase with
  | launched => exact .single .call
  | unloaded | loaded | running | disposed => exact .refl

/-- From every phase but the one before loading an actor may be disposed of. -/
theorem next_disposed (h : phase ≠ .unloaded) : ReflGen Next phase .disposed := by
  by_cases hlive : phase = .disposed
  · rw [hlive]
  · exact .single (.dispose h hlive)

/-- Nothing follows `disposed`, so whoever has come there stays there. -/
theorem eq_disposed_of_forward (h : ReflTransGen Next .disposed phase) :
    phase = .disposed := by
  induction h with
  | refl => rfl
  | tail _ hlast ih =>
    rw [ih] at hlast
    cases hlast with
    | dispose _ live => exact absurd rfl live

end Phase

/-! ## What the thread does in a step -/

/-- A part of a step of the thread, which no other party can come into. -/
inductive Substep where
  /-- The program is run, and the app that it registers is launched. -/
  | run (program : Option Program)
  /-- The thread tells that it has loaded the program. -/
  | ready
  | receive
  | mark
  | execute (command : Command)
  /-- The callbacks of the timers that are due are called. -/
  | ring
  | shutdown
  /-- The thread tells that it has ended. -/
  | stop
  | hangUp

/-- What the engine is made to do. -/
def Substep.acts : Substep → List Act
  | .run program => [.load program]
  | .execute command => [.execute command]
  | .ring => [.ring]
  | .shutdown => [.shutdown]
  | _ => []

/-- It belongs to loading. -/
def Substep.opens : Substep → Bool
  | .run _ => true
  | .ready => true
  | _ => false

/-- The thread takes the step. -/
def Step.isOfThread : Step → Bool
  | .load _ => true
  | .take => true
  | .fire => true
  | .leave => true
  | .hangUp => true
  | _ => false

/-- What the thread does about a command. -/
def Command.substeps : Command → List Substep
  | .dispose => [.receive, .execute .dispose]
  | command => [.receive, .mark, .execute command]

namespace Actor

/-- What the thread does in a step, which is nothing if it is not in a place to take it. -/
def substeps (a : Actor) : Step → List Substep
  | .load program => if a.thread = .loading then [.run program, .ready] else []
  | .take =>
    match a.thread, a.queue with
    | .serving, command :: _ => command.substeps
    | _, _ => []
  | .fire => if a.thread = .serving then if a.engine.isDue then [.mark, .ring] else [.ring] else []
  | .leave => if a.thread = .leaving then [.shutdown, .stop] else []
  | .hangUp => if a.thread = .stopped then [.hangUp] else []
  | _ => []

/-- One part of a step of the thread. Only `ready`, `mark` and `stop` write the phase. -/
def substep (a : Actor) : Substep → Actor
  | .run program => { a with engine := (a.engine.load program).2 }
  | .ready =>
    { a with thread := .serving, phase := if a.engine.app.isSome then .launched else .loaded }
  | .receive => { a with queue := a.queue.tail }
  | .mark => { a with phase := a.phase.onCall }
  | .execute command => { a.handle command with phase := a.phase }
  | .ring => { a with engine := a.engine.ring }
  | .shutdown => { a with engine := a.engine.shutdown }
  | .stop => { a with thread := .stopped, phase := .disposed }
  | .hangUp => a.step .hangUp

/-- The report on loading tells whether the engine has an app. -/
theorem load_registered (e : Engine) (program : Option Program) :
    (e.load program).1.registered = (e.load program).2.app.isSome := by
  unfold Engine.load
  dsimp only
  split
  · rfl
  · rfl

/-- The substeps of a command, done one after another without a break, are the command as the actor
handles it. -/
theorem command_substeps (a : Actor) {command : Command} {rest : List Command}
    (h : a.queue = command :: rest) :
    command.substeps.foldl substep a = { a with queue := rest }.handle command := by
  have hreceived : a.substep .receive = { a with queue := rest } := by
    rw [substep, h, List.tail_cons]
  cases command with
  | invoke caller method args =>
    show ((a.substep .receive).substep .mark).substep (.execute _) = _
    rw [hreceived]
    rfl
  | trigger caller hook args =>
    show ((a.substep .receive).substep .mark).substep (.execute _) = _
    rw [hreceived]
    rfl
  | dispose =>
    show (a.substep .receive).substep (.execute _) = _
    rw [hreceived]
    rfl

/-- The parts of a step of the thread, with no other party in between, come to the step. -/
theorem substeps_step (a : Actor) {step : Step} (h : step.isOfThread = true) :
    (a.substeps step).foldl substep a = a.step step := by
  cases step with
  | load program =>
    rw [substeps, Actor.step]
    split
    · show (a.substep (.run program)).substep .ready = a.load program
      unfold load
      dsimp only
      rw [load_registered]
      rfl
    · rfl
  | take =>
    rw [Actor.step]
    split
    next command rest hthread hqueue =>
      have hsubsteps : a.substeps .take = command.substeps := by
        rw [substeps, hthread, hqueue]
      rw [hsubsteps]
      exact a.command_substeps hqueue
    next hnot =>
      rw [substeps]
      split
      next command rest hthread hqueue => exact absurd hqueue (hnot command rest hthread)
      next => rfl
  | fire =>
    rw [substeps, Actor.step]
    split
    · unfold fire
      split
      next hdue => rfl
      next hdue => rfl
    · rfl
  | leave =>
    rw [substeps, Actor.step]
    split
    · rfl
    · rfl
  | hangUp =>
    rw [substeps]
    split
    · rfl
    next hstopped =>
      rw [Actor.step, if_neg hstopped]
      rfl
  | _ => cases h

end Actor

/-! ## Interleavings -/

/-- A sandbox whose thread may be in the middle of a step. -/
structure Interleaved where
  actor : Actor
  /-- What is left to the thread of the step. -/
  rest : List Substep := []

/-- What happens next. -/
inductive Interleaved.Move where
  /-- Another party takes a step, or the thread begins one. -/
  | step (step : Step)
  /-- The thread goes on with its step. -/
  | proceed

namespace Interleaved

/-- A sandbox before anything is loaded. -/
def create (app : String) (limits : Limits) : Interleaved := { actor := .create app limits }

/-- The thread does the first of these, and is left with the others. -/
def pursue (p : Interleaved) : List Substep → Interleaved
  | [] => p
  | first :: rest => ⟨p.actor.substep first, rest⟩

/-- One move. The thread begins no step in the middle of another one. -/
def move (p : Interleaved) : Move → Interleaved
  | .step step =>
    if step.isOfThread = false then { p with actor := p.actor.step step }
    else match p.rest with
      | [] => p.pursue (p.actor.substeps step)
      | _ :: _ => p
  | .proceed => p.pursue p.rest

/-- Moves one after another. -/
def run (p : Interleaved) (moves : List Move) : Interleaved := moves.foldl move p

/-- What the engine is made to do when the thread does the first of these. -/
def pursuit : List Substep → List Act
  | [] => []
  | first :: _ => first.acts

/-- What the engine is made to do in a move. -/
def actsIn (p : Interleaved) : Move → List Act
  | .step step =>
    if step.isOfThread = false then p.actor.actsIn step
    else match p.rest with
      | [] => pursuit (p.actor.substeps step)
      | _ :: _ => []
  | .proceed => pursuit p.rest

/-- What the engine is made to do in some moves. -/
def acts (p : Interleaved) : List Move → List Act
  | [] => []
  | m :: moves => p.actsIn m ++ (p.move m).acts moves

/-- What is done to the session in some moves. -/
def deeds (p : Interleaved) (moves : List Move) : List Deed := p.actor.engine.deeds (p.acts moves)

/-- A thread that is never interrupted goes through its substeps in their order, and has none left at
the end. -/
theorem run_proceed (a : Actor) (rest : List Substep) :
    run ⟨a, rest⟩ (rest.map fun _ => .proceed) = ⟨rest.foldl Actor.substep a, []⟩ := by
  induction rest generalizing a with
  | nil => rfl
  | cons first rest ih => exact ih (a.substep first)

/-- Every run in which no other party comes into a step of the thread is among these. -/
theorem exists_moves_of_run (app : String) (limits : Limits) (steps : List Step) :
    ∃ moves, (create app limits).run moves = ⟨(Actor.create app limits).run steps, []⟩ := by
  have hstep : ∀ (a : Actor) (step : Step), ∃ moves, run ⟨a, []⟩ moves = ⟨a.step step, []⟩ := by
    intro a step
    cases hthread : step.isOfThread with
    | false => exact ⟨[.step step], by rw [run, List.foldl_cons, move, if_pos hthread]; rfl⟩
    | true =>
      have hmove : move ⟨a, []⟩ (.step step) = pursue ⟨a, []⟩ (a.substeps step) := by
        rw [move, hthread]
        rfl
      refine ⟨.step step :: (a.substeps step).tail.map fun _ => .proceed, ?_⟩
      rw [run, List.foldl_cons, hmove, ← a.substeps_step hthread]
      cases a.substeps step with
      | nil => rfl
      | cons first rest => exact run_proceed (a.substep first) rest
  have hrun : ∀ a : Actor, ∃ moves, run ⟨a, []⟩ moves = ⟨a.run steps, []⟩ := by
    induction steps with
    | nil => exact fun a => ⟨[], rfl⟩
    | cons step steps ih =>
      intro a
      obtain ⟨first, hfirst⟩ := hstep a step
      obtain ⟨others, hothers⟩ := ih (a.step step)
      refine ⟨first ++ others, ?_⟩
      have hboth : run ⟨a, []⟩ (first ++ others) = (run ⟨a, []⟩ first).run others :=
        List.foldl_append
      rw [hboth, hfirst, hothers]
      rfl
  exact hrun _

end Interleaved

/-! ## Registered apps -/

/-- An app is registered at the end only if it was at the start, or was registered since. -/
theorem Session.registration_of_deeds (s : Session) {deeds : List Deed}
    (h : (s.afterAll deeds).registration ≠ none) :
    s.registration ≠ none ∨ s.registrations deeds ≠ [] := by
  induction deeds generalizing s with
  | nil => exact .inl h
  | cons d deeds ih =>
    rcases ih (s.after d) h with hafter | hlater
    · have hd : d ≠ .takeRegistration := by
        rintro rfl
        exact hafter rfl
      rw [Ne, ← Option.toList_eq_nil_iff, s.registration_after_deed hd, List.append_eq_nil_iff,
        not_and_or, Option.toList_eq_nil_iff] at hafter
      rcases hafter with hbefore | hnow
      · exact .inl hbefore
      · exact .inr (List.append_ne_nil_of_left_ne_nil hnow _)
    · exact .inr (List.append_ne_nil_of_right_ne_nil _ hlater)

/-- Registrations of deeds in a row are those of the first deeds and of the later ones, in this
order. -/
theorem Session.registrations_append (s : Session) (deeds deeds' : List Deed) :
    s.registrations (deeds ++ deeds') =
      s.registrations deeds ++ (s.afterAll deeds).registrations deeds' :=
  s.observe_append registers deeds deeds'

namespace Engine

/-- The apps that are registered as the engine does these things. -/
def registers (e : Engine) (acts : List Act) : List (Fields Datum) :=
  e.session.registrations (e.deeds acts)

/-- If there is an app, or one is registered, then these are not none. -/
structure Grounded (e : Engine) (registered : List (Fields Datum)) : Prop where
  slot : e.session.registration ≠ none → registered ≠ []
  app : e.app.isSome = true → registered ≠ []

variable {e e' : Engine} {registered : List (Fields Datum)}

/-- An engine has an app only if one was registered: deeds keep this as long as no app appears by them
without a registration. -/
theorem Grounded.deeds (h : e.Grounded registered) {deeds : List Deed}
    (hsession : e'.session = e.session.afterAll deeds)
    (happ : e'.app.isSome = true → e.app.isSome = true ∨ e.session.registrations deeds ≠ []) :
    e'.Grounded (registered ++ e.session.registrations deeds) := by
  refine ⟨fun hslot => ?_, fun hsome => ?_⟩
  · rw [hsession] at hslot
    rcases e.session.registration_of_deeds hslot with hbefore | hsince
    · exact List.append_ne_nil_of_left_ne_nil (h.slot hbefore) _
    · exact List.append_ne_nil_of_right_ne_nil _ hsince
  · rcases happ hsome with hbefore | hsince
    · exact List.append_ne_nil_of_left_ne_nil (h.app hbefore) _
    · exact List.append_ne_nil_of_right_ne_nil _ hsince

/-- An app that loading installs was registered, by the program or before it. -/
theorem Grounded.load (h : e.Grounded registered) (program : Option Program) :
    (e.load program).2.Grounded (registered ++ e.session.registrations (e.loadDeeds program)) := by
  cases hregisters : e.registered? program with
  | none =>
    refine h.deeds (e.load_session program) fun hsome => .inl ?_
    rw [e.load_of_unregistered hregisters] at hsome
    have happ : (e.emptied program).app = e.app.map _ := (e.did_prepare program).app
    rw [happ, Option.isSome_map] at hsome
    exact hsome
  | some app =>
    have hslot : (e.session.afterAll (e.prepareDeeds program)).registration ≠ none := by
      rw [← (e.did_prepare program).session]
      show e.registered? program ≠ none
      rw [hregisters]
      exact Option.some_ne_none app
    have hall : registered ++ e.session.registrations (e.loadDeeds program) ≠ [] := by
      obtain ⟨launch, hload, -⟩ := e.loadDeeds_taken program
      rw [hload, Session.registrations_append]
      rcases e.session.registration_of_deeds hslot with hbefore | hsince
      · exact List.append_ne_nil_of_left_ne_nil (h.slot hbefore) _
      · exact List.append_ne_nil_of_right_ne_nil _ (List.append_ne_nil_of_left_ne_nil hsince _)
    exact ⟨fun _ => hall, fun _ => hall⟩

/-- An act of the engine is made of such deeds. The one that installs an app takes it from the slot,
into which only a registration puts anything. -/
theorem Grounded.act (h : e.Grounded registered) (a : Act) :
    (e.act a).Grounded (registered ++ e.session.registrations (e.actDeeds a)) := by
  cases hload : a.isLoad with
  | false =>
    have hdid := e.did_act hload
    refine h.deeds hdid.session fun hsome => .inl ?_
    rw [hdid.app, Option.isSome_map] at hsome
    exact hsome
  | true =>
    cases a with
    | load program => exact h.load program
    | _ => cases hload

theorem Grounded.acts (h : e.Grounded registered) (acts : List Act) :
    (e.actAll acts).Grounded (registered ++ e.registers acts) := by
  induction acts generalizing e registered with
  | nil =>
    show e.Grounded (registered ++ [])
    rw [List.append_nil]
    exact h
  | cons a acts ih =>
    have hrest := ih (h.act a)
    rw [List.append_assoc] at hrest
    rw [registers, Engine.deeds, Session.registrations_append, ← act_session]
    exact hrest

end Engine

/-! ## Order -/

namespace Actor

variable {a a' : Actor} {registered : List (Fields Datum)}

/-- What the phase has to do with everything else in a sandbox, where these apps were registered. -/
structure Orderly (a : Actor) (registered : List (Fields Datum)) : Prop where
  grounded : a.engine.Grounded registered
  /-- A phase in which an app is called tells that one was registered. -/
  known : a.phase = .launched ∨ a.phase = .running → registered ≠ []
  /-- Nobody disposes a sandbox that is not loaded. -/
  closed : a.thread = .loading → a.phase = .unloaded ∧ a.disposal = .notBegun
  opened : a.thread ≠ .loading → a.phase ≠ .unloaded

/-- A step without an act registers nothing, and what was said of the registrations so far still
holds. -/
theorem Orderly.idle (h : a'.Orderly registered) : a'.Orderly (registered ++ a.engine.registers []) := by
  show a'.Orderly (registered ++ [])
  rw [List.append_nil]
  exact h

/-- Once a program is loaded, the phase is all that order depends on. -/
theorem Orderly.turn (h : a.Orderly registered) (hthread : a.thread ≠ .loading)
    (hthread' : a'.thread ≠ .loading) {acts : List Act} (hengine : a'.engine = a.engine.actAll acts)
    (hphase : ReflGen Phase.Next a.phase a'.phase) :
    a'.Orderly (registered ++ a.engine.registers acts) := by
  have hloaded := h.opened hthread
  refine ⟨?_, fun hlaunched => ?_, fun hloading => absurd hloading hthread',
    fun _ => Phase.ne_unloaded_of_next hphase hloaded⟩
  · rw [hengine]
    exact h.grounded.acts acts
  · have hbefore := h.known (Phase.launched_of_next hphase hloaded hlaunched)
    exact List.append_ne_nil_of_left_ne_nil hbefore _

/-! ### Substeps of the thread -/

/-- The thread can be left with these: with what ends loading, or with parts of other steps. -/
inductive Fits (a : Actor) (rest : List Substep) : Prop
  | opening (program : Option Program) (thread : a.thread = .loading)
      (rest : rest <:+ [.run program, .ready])
  | serving (thread : a.thread ≠ .loading) (rest : ∀ s ∈ rest, s.opens = false)

theorem fits_nil (a : Actor) : a.Fits [] := by
  by_cases hthread : a.thread = .loading
  · exact .opening none hthread (List.nil_suffix)
  · exact .serving hthread (List.forall_mem_nil _)

/-- Whether substeps fit is a question to the thread alone; the queue and the replies have no say in
it. -/
theorem Fits.congr {rest : List Substep} (h : a.Fits rest) (hthread : a'.thread = a.thread) :
    a'.Fits rest := by
  cases h with
  | opening program hloading hrest => exact .opening program (hthread.trans hloading) hrest
  | serving hloaded hrest => exact .serving (ne_loading hthread hloaded) hrest

/-- No part of a command opens the app: that is done when it is loaded, before there are commands. -/
theorem opens_command (command : Command) : ∀ s ∈ command.substeps, s.opens = false := by
  cases command with
  | invoke | trigger | dispose => simp [Command.substeps, Substep.opens]

/-- The substeps in which a step of the thread is made fit the actor that makes it. -/
theorem fits_substeps (a : Actor) (step : Step) : a.Fits (a.substeps step) := by
  cases step with
  | load program =>
    rw [substeps]
    split
    next hthread => exact .opening program hthread (List.suffix_refl _)
    next => exact a.fits_nil
  | take =>
    rw [substeps]
    split
    next command _ hthread _ => exact .serving (ne_loading hthread (by decide)) (opens_command command)
    next => exact a.fits_nil
  | fire =>
    rw [substeps]
    split
    next hthread =>
      refine .serving (ne_loading hthread (by decide)) ?_
      split
      · simp [Substep.opens]
      · simp [Substep.opens]
    next => exact a.fits_nil
  | leave | hangUp =>
    rw [substeps]
    split
    next hthread => exact .serving (ne_loading hthread (by decide)) (by simp [Substep.opens])
    next => exact a.fits_nil
  | _ => exact a.fits_nil

/-- What the thread does in one part of a step, once a program is loaded. -/
theorem substep_loaded {first : Substep} (hthread : a.thread ≠ .loading)
    (hloaded : a.phase ≠ .unloaded) (hfirst : first.opens = false) :
    (a.substep first).thread ≠ .loading ∧ (a.substep first).engine = a.engine.actAll first.acts ∧
      ReflGen Phase.Next a.phase (a.substep first).phase := by
  cases first with
  | run program => cases hfirst
  | ready => cases hfirst
  | receive => exact ⟨hthread, rfl, .refl⟩
  | mark => exact ⟨hthread, rfl, a.phase.next_onCall⟩
  | execute command =>
    obtain ⟨hengine, hstill⟩ := a.handle_engine command
    exact ⟨hstill hthread, hengine, .refl⟩
  | ring => exact ⟨hthread, rfl, .refl⟩
  | shutdown => exact ⟨hthread, rfl, .refl⟩
  | stop =>
    have hstopped : (a.substep .stop).thread = .stopped := rfl
    exact ⟨ne_loading hstopped (by decide), rfl, Phase.next_disposed hloaded⟩
  | hangUp =>
    have hgone : Thread.gone ≠ .loading := by decide
    rw [substep, Actor.step]
    split
    · exact ⟨hgone, rfl, .refl⟩
    · exact ⟨hthread, rfl, .refl⟩

/-- The app is launched just if there is one; a program that registers none leaves the sandbox loaded
without it. -/
theorem Orderly.ready (h : a.Orderly registered) (hthread : a.thread = .loading) :
    (a.substep .ready).Orderly registered ∧
      ReflGen Phase.Next a.phase (a.substep .ready).phase := by
  obtain ⟨hphase, -⟩ := h.closed hthread
  have hserving : Thread.serving ≠ .loading := by decide
  have hready : ∀ phase, a.substep .ready = { a with thread := .serving, phase } → phase ≠ .unloaded →
      (phase = .launched ∨ phase = .running → registered ≠ []) → (a.substep .ready).Orderly registered := by
    intro phase heq hphase hknown
    rw [heq]
    exact ⟨h.grounded, hknown, fun hloading => absurd hloading hserving, fun _ => hphase⟩
  rw [hphase]
  cases happ : a.engine.app.isSome with
  | true =>
    have hlaunched : a.substep .ready = { a with thread := .serving, phase := .launched } := by
      rw [Actor.substep, happ]
      rfl
    refine ⟨hready .launched hlaunched (by decide) fun _ => h.grounded.app happ, ?_⟩
    rw [hlaunched]
    exact .single .launch
  | false =>
    have hloaded : a.substep .ready = { a with thread := .serving, phase := .loaded } := by
      rw [Actor.substep, happ]
      rfl
    refine ⟨hready .loaded hloaded (by decide) (by simp), ?_⟩
    rw [hloaded]
    exact .single .load

/-- The step lemma of the thread: a substep keeps the actor in order, leaves the rest of its substeps
fitting, and moves the phase along one arrow or not at all. -/
theorem Orderly.substep {first : Substep} {rest : List Substep} (h : a.Orderly registered)
    (hfits : a.Fits (first :: rest)) :
    (a.substep first).Orderly (registered ++ a.engine.registers first.acts) ∧
      (a.substep first).Fits rest ∧ ReflGen Phase.Next a.phase (a.substep first).phase := by
  cases hfits with
  | opening program hthread hsuffix =>
    obtain ⟨hphase, hdisposal⟩ := h.closed hthread
    -- it is either of the two parts of loading
    rcases List.suffix_cons_iff.1 hsuffix with hrun | hsuffix
    · obtain ⟨rfl, rfl⟩ := List.cons.inj hrun
      refine ⟨⟨h.grounded.acts [.load program], ?_, fun _ => ⟨hphase, hdisposal⟩, h.opened⟩,
        .opening program hthread (List.suffix_cons _ _), .refl⟩
      intro hlaunched
      rw [Actor.substep, hphase] at hlaunched
      simp at hlaunched
    · rcases List.suffix_cons_iff.1 hsuffix with hready | hnone
      · obtain ⟨rfl, rfl⟩ := List.cons.inj hready
        obtain ⟨horderly, hnext⟩ := h.ready hthread
        have hserving : (a.substep .ready).thread = .serving := rfl
        exact ⟨horderly.idle, .serving (ne_loading hserving (by decide)) (List.forall_mem_nil _), hnext⟩
      · exact absurd (List.suffix_nil.1 hnone) (List.cons_ne_nil _ _)
  | serving hthread hrest =>
    obtain ⟨hfirst, hothers⟩ := List.forall_mem_cons.1 hrest
    obtain ⟨hthread', hengine, hnext⟩ := substep_loaded hthread (h.opened hthread) hfirst
    exact ⟨h.turn hthread hthread' hengine hnext, .serving hthread' hothers, hnext⟩

/-! ### Steps of the other parties -/

/-- Nothing but calls has changed. -/
structure Apart (a a' : Actor) : Prop where
  engine : a'.engine = a.engine
  thread : a'.thread = a.thread
  phase : a'.phase = a.phase
  disposal : a'.disposal = a.disposal

/-- An owner that begins a call changes nothing that the thread works on. -/
theorem apart_begin (a : Actor) (command : Nat → Except Reply Command) :
    a.Apart (a.begin command) := by
  unfold begin
  dsimp only
  split
  · exact ⟨rfl, rfl, rfl, rfl⟩
  · exact ⟨rfl, rfl, rfl, rfl⟩

theorem apart_enter (a : Actor) (ticket : Nat) : a.Apart (a.enter ticket) := by
  unfold enter
  split
  · exact ⟨rfl, rfl, rfl, rfl⟩
  · dsimp only
    split
    · exact ⟨rfl, rfl, rfl, rfl⟩
    · exact ⟨rfl, rfl, rfl, rfl⟩

/-- What goes on apart from the thread keeps the actor in order, and neither the thread nor the phase
takes note of it. -/
theorem Orderly.apart (h : a.Orderly registered) (hapart : a.Apart a') :
    a'.Orderly (registered ++ a.engine.registers []) ∧ a'.thread = a.thread ∧
      ReflGen Phase.Next a.phase a'.phase := by
  obtain ⟨hengine, hthread, hphase, hdisposal⟩ := hapart
  refine ⟨Orderly.idle ⟨?_, ?_, ?_, ?_⟩, hthread, hphase ▸ .refl⟩
  · rw [hengine]
    exact h.grounded
  · rw [hphase]
    exact h.known
  · rw [hthread, hphase, hdisposal]
    exact h.closed
  · rw [hthread, hphase]
    exact h.opened

/-- So it is when the owner takes part in disposing a sandbox that is loaded. -/
theorem Orderly.dispose (h : a.Orderly registered) (hthread : a.thread ≠ .loading)
    (hthread' : a'.thread = a.thread) (hengine : a'.engine = a.engine.actAll [])
    (hphase : ReflGen Phase.Next a.phase a'.phase) :
    a'.Orderly (registered ++ a.engine.registers []) ∧ a'.thread = a.thread ∧
      ReflGen Phase.Next a.phase a'.phase :=
  ⟨h.turn hthread (ne_loading hthread' hthread) hengine hphase, hthread', hphase⟩

/-- Whoever is disposing the sandbox found it loaded, since the handle is given out only then. -/
theorem Orderly.loaded (h : a.Orderly registered) (hbegun : a.disposal ≠ .notBegun) :
    a.thread ≠ .loading :=
  fun hthread => hbegun (h.closed hthread).2

/-- The step lemma of the owner: whatever it does keeps the actor in order, leaves the thread alone,
and moves the phase along one arrow or not at all. -/
theorem Orderly.step {step : Step} (h : a.Orderly registered) (hstep : step.isOfThread = false) :
    (a.step step).Orderly (registered ++ a.engine.registers (a.actsIn step)) ∧
      (a.step step).thread = a.thread ∧ ReflGen Phase.Next a.phase (a.step step).phase := by
  have hsame : a.Apart a := ⟨rfl, rfl, rfl, rfl⟩
  have hloaded : ∀ {disposal : Disposal}, a.disposal = disposal → disposal ≠ .notBegun →
      a.thread ≠ .loading := fun hdisposal hbegun => h.loaded (hdisposal ▸ hbegun)
  cases step with
  | wind readings =>
    refine ⟨⟨h.grounded.acts [.wind readings], fun hlaunched => ?_, h.closed, h.opened⟩, rfl, .refl⟩
    exact List.append_ne_nil_of_left_ne_nil (h.known hlaunched) _
  | invoke | trigger | request =>
    rw [Actor.step]
    split
    · exact h.apart hsame
    · exact h.apart (a.apart_begin _)
  | enter ticket => exact h.apart (a.apart_enter ticket)
  | flag =>
    rw [Actor.step]
    split
    next hflag => exact h.dispose hflag.2 rfl rfl .refl
    next => exact h.apart hsame
  | unsubscribe | queueDispose =>
    rw [Actor.step]
    split
    next hdisposal => exact h.dispose (hloaded hdisposal (by decide)) rfl rfl .refl
    next => exact h.apart hsame
  | announce =>
    rw [Actor.step]
    split
    next hdisposal =>
      have hthread := hloaded hdisposal (by decide)
      exact h.dispose hthread rfl rfl (Phase.next_disposed (h.opened hthread))
    next => exact h.apart hsame
  | _ => cases hstep

end Actor

/-! ### Moves -/

namespace Interleaved

variable {p : Interleaved} {registered : List (Fields Datum)}

/-- A sandbox is orderly also in the middle of a step. -/
structure Orderly (p : Interleaved) (registered : List (Fields Datum)) : Prop where
  actor : p.actor.Orderly registered
  rest : p.actor.Fits p.rest

/-- An actor that was just created has no app, no registration and the phase before loading. -/
theorem orderly_create (app : String) (limits : Limits) : (create app limits).Orderly [] where
  actor := by
    refine ⟨⟨fun hslot => absurd rfl hslot, fun happ => ?_⟩, fun hlaunched => ?_, fun _ => ⟨rfl, rfl⟩,
      fun hloaded => absurd rfl hloaded⟩
    · cases happ
    · rcases hlaunched with h | h <;> cases h
  rest := Actor.fits_nil _

/-- A thread that is given its substeps takes the first of them, or waits with none. -/
theorem Orderly.pursue (h : p.Orderly registered) {rest : List Substep} (hrest : p.actor.Fits rest) :
    (p.pursue rest).Orderly (registered ++ p.actor.engine.registers (pursuit rest)) ∧
      ReflGen Phase.Next p.actor.phase (p.pursue rest).actor.phase := by
  cases rest with
  | nil => exact ⟨⟨h.actor.idle, h.rest⟩, .refl⟩
  | cons first rest =>
    obtain ⟨horderly, hfits, hnext⟩ := h.actor.substep hrest
    exact ⟨⟨horderly, hfits⟩, hnext⟩

/-- Whoever makes the next move, a sandbox stays orderly, and its phase stays or is followed by the
next one. -/
theorem Orderly.move (h : p.Orderly registered) (m : Move) :
    (p.move m).Orderly (registered ++ p.actor.engine.registers (p.actsIn m)) ∧
      ReflGen Phase.Next p.actor.phase (p.move m).actor.phase := by
  cases m with
  | proceed => exact h.pursue h.rest
  | step step =>
    rw [Interleaved.move, actsIn]
    split
    next hother =>
      obtain ⟨horderly, hthread, hnext⟩ := h.actor.step hother
      exact ⟨⟨horderly, h.rest.congr hthread⟩, hnext⟩
    next =>
      split
      · exact h.pursue (p.actor.fits_substeps step)
      · exact ⟨⟨h.actor.idle, h.rest⟩, .refl⟩

/-! ### The engine -/

/-- The engine is changed by the acts of the substep that is taken, and by nothing else. -/
theorem pursue_engine (p : Interleaved) (rest : List Substep) :
    (p.pursue rest).actor.engine = p.actor.engine.actAll (pursuit rest) := by
  cases rest with
  | nil => rfl
  | cons first rest =>
    cases first with
    | execute command => exact (p.actor.handle_engine command).1
    | hangUp => exact (p.actor.step_engine .hangUp).1
    | _ => rfl

/-- So the engine after a move is the engine that did the acts of the move. -/
theorem move_engine (p : Interleaved) (m : Move) :
    (p.move m).actor.engine = p.actor.engine.actAll (p.actsIn m) := by
  cases m with
  | proceed => exact p.pursue_engine p.rest
  | step step =>
    rw [Interleaved.move, actsIn]
    split
    · exact (p.actor.step_engine step).1
    · split
      · exact p.pursue_engine _
      · rfl

/-- The engine is what the moves make of it, and so is its session. -/
theorem run_engine (p : Interleaved) (moves : List Move) :
    (p.run moves).actor.engine = p.actor.engine.actAll (p.acts moves) ∧
      (p.run moves).actor.engine.session = p.actor.engine.session.afterAll (p.deeds moves) := by
  have hengine : (p.run moves).actor.engine = p.actor.engine.actAll (p.acts moves) := by
    induction moves generalizing p with
    | nil => rfl
    | cons m moves ih =>
      show ((p.move m).run moves).actor.engine = _
      rw [ih, move_engine, acts, Engine.actAll_append]
  refine ⟨hengine, ?_⟩
  rw [hengine]
  exact p.actor.engine.actAll_session (p.acts moves)

/-- The run lemma: along every interleaving the actor stays in order, and its phase has come forward
by arrows only. -/
theorem Orderly.run (h : p.Orderly registered) (moves : List Move) :
    (p.run moves).Orderly (registered ++ p.actor.engine.session.registrations (p.deeds moves)) ∧
      ReflTransGen Phase.Next p.actor.phase (p.run moves).actor.phase := by
  induction moves generalizing p registered with
  | nil =>
    refine ⟨?_, .refl⟩
    show p.Orderly (registered ++ [])
    rw [List.append_nil]
    exact h
  | cons m moves ih =>
    obtain ⟨hmoved, hnext⟩ := h.move m
    obtain ⟨horderly, hforward⟩ := ih hmoved
    refine ⟨?_, hnext.to_reflTransGen.trans hforward⟩
    rw [List.append_assoc] at horderly
    rw [deeds, acts, Engine.deeds_append, Session.registrations_append, ← Engine.actAll_session,
      ← move_engine]
    exact horderly

end Interleaved

/--
The phase of a sandbox, whatever the thread, the owner, and the callers do, and however they come in
between each other. With every move it stays, or becomes one that may follow it, so that it only moves
forward. It is `launched` or `running` only if an app was registered, that is if some `App` of the logic
has succeeded. Once it is `disposed` it stays so, also while the thread is still executing commands.
-/
theorem phases_forward (app : String) (limits : Limits) (before after : List Interleaved.Move) :
    let start := Interleaved.create app limits
    let p := start.run before
    let q := p.run after
    (∀ m, ReflGen Phase.Next p.actor.phase (p.move m).actor.phase) ∧
    ReflTransGen Phase.Next p.actor.phase q.actor.phase ∧
    p.actor.engine.session = start.actor.engine.session.afterAll (start.deeds before) ∧
    (start.actor.engine.session.registrations (start.deeds before) = [] →
      p.actor.phase ≠ .launched ∧ p.actor.phase ≠ .running) ∧
    (p.actor.phase = .disposed → q.actor.phase = .disposed) := by
  intro start p q
  have horderly := ((Interleaved.orderly_create app limits).run before).1
  have hforward : ReflTransGen Phase.Next p.actor.phase q.actor.phase := (horderly.run after).2
  refine ⟨fun m => (horderly.move m).2, hforward, (start.run_engine before).2, ?_, ?_⟩
  · intro hnone
    exact ⟨fun hphase => horderly.actor.known (.inl hphase) hnone,
      fun hphase => horderly.actor.known (.inr hphase) hnone⟩
  · intro hdisposed
    rw [hdisposed] at hforward
    exact Phase.eq_disposed_of_forward hforward

/-- A call is taken off the queue and marked, and then the sandbox is disposed. -/
def disposedInCall : List Interleaved.Move :=
  [.step (.load (some scribbler)), .proceed, .step (.invoke "scribble" .null), .step (.enter 0),
    .step .take, .proceed, .step .flag, .step .unsubscribe, .step .queueDispose, .step .announce]

/-- The call is made all the same, and then the thread ends. -/
def callAfterDisposal : List Interleaved.Move :=
  [.proceed, .step .take, .proceed, .step .leave, .proceed, .step .hangUp]

/-- The sandbox stays disposed while the call is made and replied to; and one that registers no app is
not launched. -/
theorem scribbler_stays_disposed :
    let p := (Interleaved.create "demo" .standard).run disposedInCall
    let q := p.run callAfterDisposal
    let start := Interleaved.create "demo" .standard
    let idle := start.run [.step (.load (some [])), .proceed]
    p.actor.phase = .disposed ∧ p.rest.length = 1 ∧ p.actor.replies.length = 0 ∧
      q.actor.phase = .disposed ∧ q.actor.replies.length = 1 ∧
      start.actor.engine.session.registrations
        (start.deeds [.step (.load (some [])), .proceed]) = [] ∧
      idle.actor.phase ≠ .launched ∧ idle.actor.phase ≠ .running := by
  have hdisposed : ((Interleaved.create "demo" .standard).run disposedInCall).actor.phase = .disposed := by
    decide +kernel
  have hmiddle : ((Interleaved.create "demo" .standard).run disposedInCall).rest.length = 1 ∧
      ((Interleaved.create "demo" .standard).run disposedInCall).actor.replies.length = 0 := by
    decide +kernel
  have hreplied : (((Interleaved.create "demo" .standard).run disposedInCall).run
      callAfterDisposal).actor.replies.length = 1 := by decide +kernel
  have hnone : (Interleaved.create "demo" .standard).actor.engine.session.registrations
      ((Interleaved.create "demo" .standard).deeds [.step (.load (some [])), .proceed]) = [] := by
    decide +kernel
  have hforward := phases_forward "demo" .standard disposedInCall callAfterDisposal
  have hidle := phases_forward "demo" .standard [.step (.load (some [])), .proceed] []
  exact ⟨hdisposed, hmiddle.1, hmiddle.2, hforward.2.2.2.2 hdisposed, hreplied, hnone,
    hidle.2.2.2.1 hnone⟩

end AppletHost.Sandbox
