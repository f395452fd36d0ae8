import AppletHost.Proofs.Sandbox.Acts
import AppletHost.Proofs.Sandbox.Journal
import Mathlib.Data.List.Nodup
import Mathlib.Data.List.Range

/-!
# What becomes of calls

Two invariants tell what becomes of the calls to a sandbox, whatever the order of the steps:

> `Ticketed.change`: each call has one ticket, which waits to reach the queue, waits in the queue or
> has its reply, and the command under a ticket is what the call asked for;
>
> `Placed.change`: the thread has executed what arrived first, in order and up to where it is told to
> stop, and what arrived behind that point is turned away.

To execute a command is to have the engine do it: the commands that the journal lists are those among
the acts of the engine, each with the engine that the acts before it came to (`executed_run`). The
headline is `calls_answered_once`.
-/

namespace AppletHost.Sandbox

/-! ## Acts -/

namespace Engine

/-- The call that an act of the engine executes, and the engine for it. -/
def executionIn (e : Engine) : Act → List (Command × Engine)
  | .execute command => if command.isCall then [(command, e)] else []
  | _ => []

/-- The calls that are executed in one act after another. -/
def executions (e : Engine) : List Act → List (Command × Engine)
  | [] => []
  | act :: acts => e.executionIn act ++ (e.act act).executions acts

/-- The executions of acts in a row are those of the first ones, and of the others from where the
first have led. -/
theorem executions_append (e : Engine) (acts acts' : List Act) :
    e.executions (acts ++ acts') = e.executions acts ++ (e.actAll acts).executions acts' := by
  induction acts generalizing e with
  | nil => rfl
  | cons act acts ih =>
    rw [List.cons_append, executions, executions, ih, List.append_assoc]
    rfl

end Engine

/-- The thread executes a call just if the engine is made to do so. -/
theorem Actor.executedIn_eq (a : Actor) (s : Step) :
    a.executedIn s = a.engine.executions (a.actsIn s) := by
  cases s with
  | load program | fire | leave =>
    rw [actsIn]
    split
    · rfl
    · rfl
  | take =>
    rw [executedIn.eq_def, actsIn]
    split
    next command _ hthread hqueue =>
      rw [hthread, hqueue]
      exact (List.append_nil _).symm
    next hnot =>
      split
      next command rest hthread hqueue => exact absurd hqueue (hnot command rest rfl hthread)
      next => rfl
  | _ => rfl

namespace Journal

variable {j j' : Journal}

/-- The journal of a run lists the calls that the engine was made to execute. -/
theorem executed_run (j : Journal) (steps : List Step) :
    (j.run steps).actor = j.actor.run steps ∧
      (j.run steps).executed = j.executed ++ j.actor.engine.executions (j.actor.acts steps) := by
  induction steps generalizing j with
  | nil => exact ⟨rfl, (List.append_nil _).symm⟩
  | cons s steps ih =>
    obtain ⟨hactor, hexecuted⟩ := ih (j.step s)
    refine ⟨hactor, ?_⟩
    show ((j.step s).run steps).executed = _
    rw [hexecuted, Actor.acts, Engine.executions_append, ← (j.actor.step_engine s).1,
      ← List.append_assoc, ← Actor.executedIn_eq]
    rfl

/-! ## Tickets -/

/-- Every call has one ticket, and the commands under way are what the calls ask for. -/
structure Ticketed (j : Journal) : Prop where
  once : ∀ ticket, j.actor.holders ticket = if ticket < j.actor.calls then 1 else 0
  begun : j.begun.length = j.actor.calls
  calls : ∀ c ∈ j.actor.admitted, c.isCall = true
  distinct : ∀ ticket, j.actor.admitted.countP (fun c => c.ticket? = some ticket) +
    j.arrived.countP (fun c => c.ticket? = some ticket) ≤ 1
  serves : ∀ c ∈ j.actor.admitted ++ j.arrived, ∀ ticket, c.ticket? = some ticket →
    ∃ call, j.begun[ticket]? = some call ∧ c.Serves call

theorem ticketed_create (app : String) (limits : Limits) : (create app limits).Ticketed :=
  ⟨fun _ => rfl, rfl, List.forall_mem_nil _, fun _ => Nat.zero_le _, List.forall_mem_nil _⟩

/-- A change that neither begins calls nor moves those that were let in. -/
theorem Ticketed.congr (h : j.Ticketed) (hadmitted : j'.actor.admitted = j.actor.admitted)
    (hcalls : j'.actor.calls = j.actor.calls)
    (hholders : ∀ ticket, j'.actor.holders ticket = j.actor.holders ticket)
    (hbegun : j'.begun = j.begun) (harrived : j'.arrived = j.arrived) : j'.Ticketed := by
  refine ⟨?_, ?_, ?_, ?_, ?_⟩
  · intro ticket
    rw [hholders, hcalls]
    exact h.once ticket
  · rw [hbegun, hcalls]
    exact h.begun
  · rw [hadmitted]
    exact h.calls
  · rw [hadmitted, harrived]
    exact h.distinct
  · rw [hadmitted, harrived, hbegun]
    exact h.serves

/-- No command that was let in so far has the ticket of the next call. -/
theorem Ticketed.fresh (h : j.Ticketed) :
    j.actor.admitted.countP (fun c => c.ticket? = some j.actor.calls) +
      j.arrived.countP (fun c => c.ticket? = some j.actor.calls) = 0 := by
  rw [← List.countP_append, List.countP_eq_zero]
  intro c hc hticket
  obtain ⟨call, hget, -⟩ := h.serves c hc _ (of_decide_eq_true hticket)
  have hlt := (List.getElem?_eq_some_iff.1 hget).1
  rw [h.begun] at hlt
  exact Nat.lt_irrefl _ hlt

/-- Another call begins, which leaves the earlier ones in their places. -/
theorem Ticketed.serves_begun (h : j.Ticketed) (call : Step) :
    ∀ c ∈ j.actor.admitted ++ j.arrived, ∀ ticket, c.ticket? = some ticket →
      ∃ call', (j.begun ++ [call])[ticket]? = some call' ∧ c.Serves call' := by
  intro c hc ticket hticket
  obtain ⟨call', hget, hserves⟩ := h.serves c hc ticket hticket
  refine ⟨call', ?_, hserves⟩
  rw [List.getElem?_append_left (List.getElem?_eq_some_iff.1 hget).1]
  exact hget

theorem Ticketed.length_begun (h : j.Ticketed) (call : Step) :
    (j.begun ++ [call]).length = j.actor.calls + 1 := by
  rw [List.length_append, h.begun, List.length_singleton]

/-- A call that is refused at the door has its reply at once, and is nowhere else. -/
theorem Ticketed.refuse (h : j.Ticketed) (call : Step) (r : Reply) : Ticketed { j with
    actor := { j.actor with calls := j.actor.calls + 1 }.reply j.actor.calls r
    begun := j.begun ++ [call] } := by
  refine ⟨?_, h.length_begun call, h.calls, h.distinct, h.serves_begun call⟩
  intro ticket
  have honce := h.once ticket
  simp only [Actor.holders, Actor.reply, List.countP_append, List.countP_singleton] at honce ⊢
  grind

/-- A call that is let in has its command in the queue, with its own ticket on it. -/
theorem Ticketed.letIn (h : j.Ticketed) {call : Step} {c : Command}
    (hticket : c.ticket? = some j.actor.calls) (hserves : c.Serves call) : Ticketed { j with
      actor := { j.actor with calls := j.actor.calls + 1, admitted := j.actor.admitted ++ [c] }
      begun := j.begun ++ [call] } := by
  refine ⟨?_, h.length_begun call, ?_, ?_, ?_⟩
  · intro ticket
    have honce := h.once ticket
    simp only [Actor.holders, List.countP_append, List.countP_singleton, hticket] at honce ⊢
    grind
  · exact List.forall_mem_append.2
      ⟨h.calls, List.forall_mem_singleton.2 (Command.isCall_of_ticket hticket)⟩
  · intro ticket
    have hdistinct := h.distinct ticket
    have hfresh := h.fresh
    simp only [List.countP_append, List.countP_singleton, hticket]
    grind
  · intro c' hc' ticket hticket'
    rw [List.append_assoc, List.mem_append, List.mem_append, List.mem_singleton] at hc'
    rcases hc' with hc' | rfl | hc'
    · exact h.serves_begun call c' (List.mem_append_left _ hc') ticket hticket'
    · obtain rfl : j.actor.calls = ticket := Option.some.inj (hticket.symm.trans hticket')
      refine ⟨call, ?_, hserves⟩
      rw [← h.begun, List.getElem?_concat_length]
    · exact h.serves_begun call c' (List.mem_append_right _ hc') ticket hticket'

/-- A call that was let in moves on, to wherever its ticket is then. -/
theorem Ticketed.enter (h : j.Ticketed) {c : Command} {ticket : Nat} (hc : c ∈ j.actor.admitted)
    (hticket : c.ticket? = some ticket) {a : Actor}
    (hadmitted : a.admitted = j.actor.admittedBut ticket) (hcalls : a.calls = j.actor.calls)
    (hmoved : ∀ ticket', a.queue.countP (fun c => c.ticket? = some ticket') +
        a.replies.countP (fun r => r.1 = ticket')
      = j.actor.queue.countP (fun c => c.ticket? = some ticket') +
        j.actor.replies.countP (fun r => r.1 = ticket') + if ticket' = ticket then 1 else 0) :
    Ticketed { j with actor := a, arrived := j.arrived ++ [c] } := by
  -- nobody else has the ticket
  have hpos : 0 < j.actor.admitted.countP fun c => c.ticket? = some ticket :=
    List.countP_pos_iff.2 ⟨c, hc, decide_eq_true hticket⟩
  have hbut : ∀ ticket', a.admitted.countP (fun c => c.ticket? = some ticket')
      = if ticket' = ticket then 0
        else j.actor.admitted.countP fun c => c.ticket? = some ticket' := by
    intro ticket'
    rw [hadmitted]
    exact Command.countP_filter_ticket _ _ _
  refine ⟨?_, ?_, ?_, ?_, ?_⟩
  · intro ticket'
    have honce := h.once ticket'
    have hmoved := hmoved ticket'
    rw [hcalls, Actor.holders, hbut]
    unfold Actor.holders at honce
    grind
  · rw [hcalls]
    exact h.begun
  · rw [hadmitted]
    exact fun c' hc' => h.calls c' (List.mem_filter.1 hc').1
  · intro ticket'
    have hdistinct := h.distinct ticket'
    rw [hbut]
    simp only [List.countP_append, List.countP_singleton, hticket]
    grind
  · rw [hadmitted]
    intro c' hc'
    refine h.serves c' ?_
    rw [List.mem_append, List.mem_append, List.mem_singleton] at hc'
    rcases hc' with hc' | hc' | rfl
    · exact List.mem_append_left _ (List.mem_filter.1 hc').1
    · exact List.mem_append_right _ hc'
    · exact List.mem_append_left _ hc

/-- The step lemma of the tickets: whatever changes, every call is waiting, in the queue, or replied
to, and in just one of these. -/
theorem Ticketed.change (h : j.Ticketed) (hchange : j.Change j') : j'.Ticketed := by
  cases hchange with
  | quiet a alike =>
    refine h.congr alike.admitted alike.calls (fun ticket => ?_) rfl rfl
    rw [Actor.holders, alike.admitted, alike.queue, alike.replies]
    rfl
  | refuse call r loaded => exact h.refuse call r
  | letIn call c ticket serves loaded => exact h.letIn ticket serves
  | arrive c ticket admitted holds there =>
    refine h.enter admitted holds rfl rfl fun ticket' => ?_
    simp only [List.countP_append, List.countP_singleton, holds]
    grind
  | refuseLate c r admitted refusal gone =>
    refine h.enter admitted (Command.turnedAway_of_refusal refusal).1 rfl rfl fun ticket' => ?_
    simp only [List.countP_append, List.countP_singleton]
    grind
  | stop unsubscribed =>
    have hnone : ∀ ticket, [Command.dispose].countP (fun c => c.ticket? = some ticket) = 0 :=
      fun _ => rfl
    refine ⟨?_, h.begun, h.calls, ?_, ?_⟩
    · intro ticket
      rw [Actor.holders, List.countP_append, hnone]
      exact h.once ticket
    · intro ticket
      rw [List.countP_append, hnone]
      exact h.distinct ticket
    · intro c hc ticket hticket
      rw [← List.append_assoc, List.mem_append, List.mem_singleton] at hc
      rcases hc with hc | rfl
      · exact h.serves c hc ticket hticket
      · cases hticket
  | execute c rest r engine phase serving next isCall answer =>
    refine h.congr rfl rfl (fun ticket => ?_) rfl rfl
    simp only [Actor.holders, next, List.countP_append, List.countP_cons, List.countP_nil,
      Command.ticket_of_answer answer]
    grind
  | quit rest serving next =>
    refine h.congr rfl rfl (fun ticket => ?_) rfl rfl
    rw [Actor.holders, Actor.holders, next]
    rfl
  | hangUp stopped =>
    refine h.congr rfl rfl (fun ticket => ?_) rfl rfl
    simp only [Actor.holders, List.countP_append, Command.countP_loss, List.countP_nil]
    omega

/-! ## Places in the queue -/

/-- Replies are never taken back, so who has one keeps it. -/
theorem Change.keeps_replies (h : j.Change j') : j.actor.replies <+: j'.actor.replies := by
  cases h with
  | quiet a alike => exact alike.replies ▸ List.prefix_refl _
  | refuse call r loaded => exact List.prefix_append _ _
  | letIn call c ticket serves loaded => exact List.prefix_refl _
  | arrive c ticket admitted holds there => exact List.prefix_refl _
  | refuseLate c r admitted refusal gone => exact List.prefix_append _ _
  | stop unsubscribed => exact List.prefix_refl _
  | execute c rest r engine phase serving next isCall answer => exact List.prefix_append _ _
  | quit rest serving next => exact List.prefix_refl _
  | hangUp stopped => exact List.prefix_append _ _

/-- What has become of the commands that arrived. -/
structure Placed (j : Journal) : Prop where
  serving : j.actor.hasLeft = false → j.arrived = j.executed.map Prod.fst ++ j.actor.queue
  left : j.actor.hasLeft = true → ∃ after, j.arrived = j.executed.map Prod.fst ++ .dispose :: after ∧
    ∀ c ∈ after, c.isCall = true → c ∈ j.actor.queue ∨ ∃ r ∈ j.actor.replies, c.TurnedAway r
  gone : j.actor.thread = .gone → j.actor.queue = []
  stops : j.arrived.filter (fun c => !c.isCall) = if j.actor.isStopping then [.dispose] else []
  calls : ∀ e ∈ j.executed, e.1.isCall = true
  answered : ∀ e ∈ j.executed, ∃ r ∈ j.actor.replies, e.1.answer? e.2 = some r
  loading : j.actor.thread = .loading →
    j.actor.disposal = .notBegun ∧ j.actor.admitted = [] ∧ j.actor.queue = []

theorem placed_create (app : String) (limits : Limits) : (create app limits).Placed :=
  ⟨fun _ => rfl, nofun, nofun, rfl, List.forall_mem_nil _, List.forall_mem_nil _,
    fun _ => ⟨rfl, rfl, rfl⟩⟩

/-- A thread that has left its loop was told to, by the command to dispose of it. -/
theorem Placed.isStopping_of_hasLeft (h : j.Placed) (hleft : j.actor.hasLeft = true) :
    j.actor.isStopping = true := by
  obtain ⟨after, harrived, -⟩ := h.left hleft
  have hstops := h.stops
  by_contra hnot
  rw [if_neg hnot, List.filter_eq_nil_iff] at hstops
  refine hstops .dispose ?_ rfl
  rw [harrived]
  exact List.mem_append_right _ List.mem_cons_self

theorem hasLeft_of_gone {a : Actor} (h : a.thread = .gone) : a.hasLeft = true := by
  rw [Actor.hasLeft, h]

/-- A change that neither moves the thread on nor adds to what has arrived. -/
theorem Placed.congr (h : j.Placed) (harrived : j'.arrived = j.arrived)
    (hexecuted : j'.executed = j.executed) (hqueue : j'.actor.queue = j.actor.queue)
    (hreplies : j.actor.replies <+: j'.actor.replies) (hleft : j'.actor.hasLeft = j.actor.hasLeft)
    (hstopping : j'.actor.isStopping = j.actor.isStopping)
    (hgone : j'.actor.thread = .gone → j.actor.thread = .gone)
    (hloading : j'.actor.thread = .loading →
      j'.actor.disposal = .notBegun ∧ j'.actor.admitted = [] ∧ j'.actor.queue = []) : j'.Placed := by
  refine ⟨?_, ?_, ?_, ?_, ?_, ?_, hloading⟩
  · rw [hleft, harrived, hexecuted, hqueue]
    exact h.serving
  · rw [hleft, harrived, hexecuted, hqueue]
    intro hhas
    obtain ⟨after, hafter, hplaces⟩ := h.left hhas
    refine ⟨after, hafter, fun c hc hcall => ?_⟩
    rcases hplaces c hc hcall with hqueued | ⟨r, hr, haway⟩
    · exact Or.inl hqueued
    · exact Or.inr ⟨r, hreplies.subset hr, haway⟩
  · rw [hqueue]
    exact fun hthread => h.gone (hgone hthread)
  · rw [harrived, hstopping]
    exact h.stops
  · rw [hexecuted]
    exact h.calls
  · rw [hexecuted]
    intro e he
    obtain ⟨r, hr, hanswer⟩ := h.answered e he
    exact ⟨r, hreplies.subset hr, hanswer⟩

/-- A call arrives, in the queue or where the queue was. -/
theorem Placed.enter (h : j.Placed) {c : Command} (hcall : c.isCall = true) {a : Actor}
    (hloaded : j.actor.thread ≠ .loading) (hthread : a.thread = j.actor.thread)
    (hdisposal : a.disposal = j.actor.disposal)
    (hreplies : j.actor.replies <+: a.replies)
    (hplace : (j.actor.thread ≠ .gone ∧ a.queue = j.actor.queue ++ [c]) ∨
      (j.actor.thread = .gone ∧ a.queue = j.actor.queue ∧ ∃ r ∈ a.replies, c.TurnedAway r)) :
    Placed { j with actor := a, arrived := j.arrived ++ [c] } := by
  have hleft : a.hasLeft = j.actor.hasLeft := by rw [Actor.hasLeft, hthread, Actor.hasLeft]
  have hstopping : a.isStopping = j.actor.isStopping := by
    rw [Actor.isStopping, hdisposal, Actor.isStopping]
  refine ⟨?_, ?_, ?_, ?_, h.calls, ?_, ?_⟩
  · intro hserving
    rw [hleft] at hserving
    -- a thread that serves has not gone, so the command is in the queue
    rcases hplace with ⟨-, hqueue⟩ | ⟨hgone, -, -⟩
    · show j.arrived ++ [c] = _
      rw [h.serving hserving, List.append_assoc, ← hqueue]
    · rw [hasLeft_of_gone hgone] at hserving
      cases hserving
  · intro hhas
    rw [hleft] at hhas
    obtain ⟨after, hafter, hplaces⟩ := h.left hhas
    refine ⟨after ++ [c], ?_, ?_⟩
    · show j.arrived ++ [c] = _
      rw [hafter, List.append_assoc]
      rfl
    · intro c' hc' hcall'
      rw [List.mem_append, List.mem_singleton] at hc'
      rcases hc' with hc' | rfl
      · rcases hplaces c' hc' hcall' with hqueued | ⟨r, hr, haway⟩
        · left
          rcases hplace with ⟨-, hqueue⟩ | ⟨-, hqueue, -⟩
          · exact hqueue ▸ List.mem_append_left _ hqueued
          · exact hqueue ▸ hqueued
        · exact Or.inr ⟨r, hreplies.subset hr, haway⟩
      · rcases hplace with ⟨-, hqueue⟩ | ⟨-, -, haway⟩
        · exact Or.inl (hqueue ▸ List.mem_append_right _ (List.mem_singleton_self _))
        · exact Or.inr haway
  · intro hgone
    have hgone : j.actor.thread = .gone := hthread.symm.trans hgone
    rcases hplace with ⟨hthere, -⟩ | ⟨-, hqueue, -⟩
    · exact absurd hgone hthere
    · exact hqueue.trans (h.gone hgone)
  · show (j.arrived ++ [c]).filter _ = if a.isStopping then _ else _
    rw [List.filter_append, h.stops, hstopping, List.filter_cons_of_neg (by rw [hcall]; decide),
      List.filter_nil, List.append_nil]
  · intro e he
    obtain ⟨r, hr, hanswer⟩ := h.answered e he
    exact ⟨r, hreplies.subset hr, hanswer⟩
  · exact fun hloading => absurd (hthread.symm.trans hloading) hloaded

/-- The step lemma of the places: what is executed was let in, in the same order, and what was lost
was lost to an actor that stopped. -/
theorem Placed.change (h : j.Placed) (hticketed : j.Ticketed) (hchange : j.Change j') :
    j'.Placed := by
  have hreplies := hchange.keeps_replies
  have hloaded : ∀ c ∈ j.actor.admitted, j.actor.thread ≠ .loading := by
    intro c hc hthread
    rw [(h.loading hthread).2.1] at hc
    cases hc
  cases hchange with
  | quiet a alike =>
    refine h.congr rfl rfl alike.queue hreplies alike.hasLeft alike.isStopping alike.gone.1
      fun hthread => ?_
    obtain ⟨hloading, hdisposal⟩ := alike.loading hthread
    obtain ⟨hnot, hadmitted, hqueue⟩ := h.loading hloading
    exact ⟨hdisposal hnot, alike.admitted.trans hadmitted, alike.queue.trans hqueue⟩
  | refuse call r loaded => exact h.congr rfl rfl rfl hreplies rfl rfl id h.loading
  | letIn call c ticket serves loaded =>
    exact h.congr rfl rfl rfl hreplies rfl rfl id fun hthread => absurd hthread loaded
  | arrive c ticket admitted holds there =>
    exact h.enter (hticketed.calls c admitted) (hloaded c admitted) rfl rfl hreplies (Or.inl ⟨there, rfl⟩)
  | refuseLate c r admitted refusal gone =>
    have hr : r ∈ j.actor.replies ++ [r] := List.mem_append_right _ (List.mem_singleton_self _)
    exact h.enter (hticketed.calls c admitted) (hloaded c admitted) rfl rfl hreplies
      (Or.inr ⟨gone, rfl, r, hr, Command.turnedAway_of_refusal refusal⟩)
  | stop unsubscribed =>
    have hnot : j.actor.isStopping = false := by
      rw [Actor.isStopping, unsubscribed]
      rfl
    -- nobody has told the thread to leave before, so it still serves
    have hserving : j.actor.hasLeft = false := by
      cases hleft : j.actor.hasLeft with
      | false => rfl
      | true => exact absurd (h.isStopping_of_hasLeft hleft) (by rw [hnot]; decide)
    refine ⟨?_, ?_, ?_, ?_, h.calls, h.answered, ?_⟩
    · intro _
      show j.arrived ++ [Command.dispose] = _
      rw [h.serving hserving, List.append_assoc]
    · intro hleft
      exact absurd (hserving.symm.trans hleft) Bool.false_ne_true
    · intro hgone
      exact absurd (hserving.symm.trans (hasLeft_of_gone hgone)) Bool.false_ne_true
    · show (j.arrived ++ [Command.dispose]).filter _ = _
      rw [List.filter_append, h.stops, hnot]
      rfl
    · intro hloading
      exact absurd (unsubscribed.symm.trans (h.loading hloading).1) (by decide)
  | execute c rest r engine phase serving next isCall answer =>
    -- the command goes from the front of the queue to what was executed, with its reply
    have hserving : j.actor.hasLeft = false := by rw [Actor.hasLeft, serving]
    refine ⟨?_, ?_, ?_, h.stops, ?_, ?_, fun hloading => absurd (serving.symm.trans hloading) (by decide)⟩
    · intro _
      show j.arrived = (j.executed ++ [(c, j.actor.engine)]).map Prod.fst ++ rest
      rw [h.serving hserving, next, List.map_append, List.append_assoc]
      rfl
    · intro hleft
      exact absurd (hserving.symm.trans hleft) Bool.false_ne_true
    · intro hgone
      exact absurd (serving.symm.trans hgone) (by decide)
    · exact List.forall_mem_append.2 ⟨h.calls, List.forall_mem_singleton.2 isCall⟩
    · refine List.forall_mem_append.2 ⟨?_, List.forall_mem_singleton.2 ⟨r, ?_, answer⟩⟩
      · intro e he
        obtain ⟨r', hr', hanswer⟩ := h.answered e he
        exact ⟨r', hreplies.subset hr', hanswer⟩
      · exact List.mem_append_right _ (List.mem_singleton_self _)
  | quit rest serving next =>
    -- the thread leaves at the one command that is no call, and serves nothing behind it
    have hserving : j.actor.hasLeft = false := by rw [Actor.hasLeft, serving]
    refine ⟨?_, ?_, ?_, h.stops, h.calls, h.answered, ?_⟩
    · intro hleft
      cases hleft
    · intro _
      refine ⟨rest, ?_, fun c hc _ => Or.inl hc⟩
      rw [← next]
      exact h.serving hserving
    · intro hgone
      cases hgone
    · intro hloading
      cases hloading
  | hangUp stopped =>
    -- whatever is left in the queue is turned away, each call with a reply of its own
    have hleft : j.actor.hasLeft = true := by rw [Actor.hasLeft, stopped]
    refine ⟨?_, ?_, fun _ => rfl, h.stops, h.calls, ?_, ?_⟩
    · intro hserving
      cases hserving
    · intro _
      obtain ⟨after, hafter, hplaces⟩ := h.left hleft
      refine ⟨after, hafter, fun c hc hcall => Or.inr ?_⟩
      rcases hplaces c hc hcall with hqueued | ⟨r, hr, haway⟩
      · obtain ⟨reply, hloss⟩ := Command.exists_loss hcall
        refine ⟨reply, List.mem_append_right _ ?_, Command.turnedAway_of_loss hloss⟩
        exact List.mem_filterMap.2 ⟨c, hqueued, hloss⟩
      · exact ⟨r, hreplies.subset hr, haway⟩
    · intro e he
      obtain ⟨r, hr, hanswer⟩ := h.answered e he
      exact ⟨r, hreplies.subset hr, hanswer⟩
    · intro hloading
      cases hloading

/-! ## Runs -/

/-- What is true of a journal at any time. -/
structure Sound (j : Journal) : Prop where
  ticketed : j.Ticketed
  placed : j.Placed

/-- The run lemma: the journal is true at every moment of every run. -/
theorem Sound.run (h : j.Sound) (steps : List Step) : (j.run steps).Sound := by
  induction steps generalizing j with
  | nil => exact h
  | cons s steps ih =>
    have hchange := j.change_step s
    exact ih ⟨h.ticketed.change hchange, h.placed.change h.ticketed hchange⟩

theorem sound_create (app : String) (limits : Limits) : (create app limits).Sound :=
  ⟨ticketed_create app limits, placed_create app limits⟩

/-- The tickets are with those who wait and those who have their reply. -/
theorem Ticketed.perm (h : j.Ticketed) :
    (j.actor.admitted.filterMap Command.ticket? ++ j.actor.queue.filterMap Command.ticket? ++
      j.actor.replies.map Prod.fst).Perm (List.range j.begun.length) := by
  rw [List.perm_iff_count]
  intro ticket
  have honce := h.once ticket
  simp only [Actor.holders, ← Bool.beq_eq_decide_eq] at honce
  rw [List.count_range, h.begun, ← honce]
  rw [List.count_append, List.count_append, List.count_filterMap, List.count_filterMap, List.count,
    List.countP_map]
  rfl

/-- A call has one reply at most, which its caller gets. -/
theorem Ticketed.reply?_eq (h : j.Ticketed) {r : Nat × Reply} (hr : r ∈ j.actor.replies) :
    j.actor.reply? r.1 = some r.2 := by
  have hnodup : (j.actor.replies.map Prod.fst).Nodup :=
    (h.perm.nodup_iff.2 List.nodup_range).of_append_right
  obtain ⟨before, after, hreplies⟩ := List.append_of_mem hr
  rw [hreplies, List.map_append, List.map_cons] at hnodup
  refine List.lookup_eq_some_iff.2 ⟨before, after, hreplies, fun other hother => ?_⟩
  rw [bne_iff_ne]
  intro hsame
  exact List.disjoint_of_nodup_append hnodup (List.mem_map_of_mem hother)
    (hsame ▸ List.mem_cons_self)

/-- Replies stay: those of a run come behind the ones there are, by induction over its steps. -/
theorem replies_run (j : Journal) (steps : List Step) :
    j.actor.replies <+: (j.run steps).actor.replies := by
  induction steps generalizing j with
  | nil => exact List.prefix_refl _
  | cons s steps ih => exact (j.change_step s).keeps_replies.trans (ih (j.step s))

/-- A reply that is given is the one that the caller has at any later time. -/
theorem Sound.reply?_run (h : j.Sound) {r : Nat × Reply} (hr : r ∈ j.actor.replies)
    (steps : List Step) : (j.run steps).actor.reply? r.1 = some r.2 :=
  (h.run steps).ticketed.reply?_eq ((j.replies_run steps).subset hr)

/-! ### Order -/

/-- Only calls are executed; to dispose of an actor is no execution. -/
theorem Placed.calls_executed (h : j.Placed) : ∀ c ∈ j.executed.map Prod.fst, c.isCall = true := by
  rw [List.forall_mem_map]
  exact h.calls

/-- The thread executes what arrived first, up to where it is told to stop; and all of that, once it
has left its loop or the queue is empty. -/
theorem Placed.executed_first (h : j.Placed) :
    j.executed.map Prod.fst <+: j.arrived.takeWhile Command.isCall ∧
    (j.actor.hasLeft = true ∨ j.actor.queue = [] →
      j.executed.map Prod.fst = j.arrived.takeWhile Command.isCall) := by
  have hcalls := h.calls_executed
  cases hleft : j.actor.hasLeft with
  | false =>
    rw [h.serving hleft, List.takeWhile_append_of_pos hcalls]
    refine ⟨List.prefix_append _ _, ?_⟩
    rintro (hleft | hqueue)
    · cases hleft
    · rw [hqueue, List.takeWhile_nil, List.append_nil]
  | true =>
    obtain ⟨after, hafter, -⟩ := h.left hleft
    rw [hafter, List.takeWhile_append_of_pos hcalls, List.takeWhile_cons_of_neg Command.not_isCall_dispose,
      List.append_nil]
    exact ⟨List.prefix_refl _, fun _ => rfl⟩

/-- What arrived behind the command to stop waits to be turned away, or has been. -/
theorem Placed.turned_away (h : j.Placed) :
    ∀ c ∈ j.arrived.dropWhile Command.isCall, c.isCall = true →
      c ∈ j.actor.queue ∨ ∃ r ∈ j.actor.replies, c.TurnedAway r := by
  have hcalls := h.calls_executed
  intro c hc hcall
  cases hleft : j.actor.hasLeft with
  | false =>
    rw [h.serving hleft, List.dropWhile_append_of_pos hcalls] at hc
    exact Or.inl ((List.dropWhile_suffix _).subset hc)
  | true =>
    obtain ⟨after, hafter, hplaces⟩ := h.left hleft
    rw [hafter, List.dropWhile_append_of_pos hcalls, List.dropWhile_cons_of_neg Command.not_isCall_dispose,
      List.mem_cons] at hc
    rcases hc with rfl | hc
    · cases hcall
    · exact hplaces c hc hcall

/-! ### Refused calls -/

/-- A call to a sandbox that is being disposed is refused at once. -/
theorem Sound.disposed (h : j.Sound) (hdisposed : j.actor.isDisposed = true) :
    (∀ method args, (j.actor.calls, .disposed) ∈ (j.step (.invoke method args)).actor.replies) ∧
    (∀ name args, (j.actor.calls, .disposed) ∈ (j.step (.trigger name args)).actor.replies) := by
  have hloaded : j.actor.thread ≠ .loading := by
    intro hthread
    rw [Actor.isDisposed, (h.placed.loading hthread).1] at hdisposed
    cases hdisposed
  have hmem : (j.actor.calls, Reply.disposed) ∈ j.actor.replies ++ [(j.actor.calls, .disposed)] :=
    List.mem_append_right _ (List.mem_singleton_self _)
  constructor
  · intro method args
    show _ ∈ (j.actor.step (.invoke method args)).replies
    rw [Actor.step, if_neg hloaded, Actor.begin, if_pos hdisposed]
    exact hmem
  · intro name args
    show _ ∈ (j.actor.step (.trigger name args)).replies
    rw [Actor.step, if_neg hloaded, Actor.begin, if_pos hdisposed]
    exact hmem

/-- A request that no forwarder receives has no responder. -/
theorem Sound.unsubscribed (h : j.Sound) (hsubscribed : j.actor.isSubscribed = false)
    (method : String) (args : Value) :
    (j.actor.calls, .unanswered (.noResponder method)) ∈
      (j.step (.request method args)).actor.replies := by
  have hloaded : j.actor.thread ≠ .loading := by
    intro hthread
    rw [Actor.isSubscribed, (h.placed.loading hthread).1] at hsubscribed
    cases hsubscribed
  have hnot : ¬j.actor.isSubscribed = true := by rw [hsubscribed]; decide
  show _ ∈ (j.actor.step (.request method args)).replies
  rw [Actor.step, if_neg hloaded, Actor.begin, if_neg hnot]
  exact List.mem_append_right _ (List.mem_singleton_self _)

/-! ### Progress -/

end Journal

/-- The step moves a call on, or is one of the thread. -/
def Step.IsProgress : Step → Prop
  | .enter _ | .take | .leave | .hangUp => True
  | _ => False

namespace Journal

variable {j : Journal}

/-- No call is under way. -/
def Quiet (j : Journal) : Prop := j.actor.admitted = [] ∧ j.actor.queue = []

/-- The thread works off its queue, or goes and takes the queue with it. -/
theorem Placed.exists_shorter (h : j.Placed) (hadmitted : j.actor.admitted = [])
    (hqueue : j.actor.queue ≠ []) :
    ∃ more, (∀ s ∈ more, s.IsProgress) ∧ (j.run more).actor.admitted = [] ∧
      (j.run more).actor.queue.length < j.actor.queue.length := by
  have hpos := List.length_pos_iff.2 hqueue
  cases hthread : j.actor.thread with
  | loading => exact absurd (h.loading hthread).2.2 hqueue
  | serving =>
    obtain ⟨c, rest, hrest⟩ := List.exists_cons_of_ne_nil hqueue
    refine ⟨[.take], List.forall_mem_singleton.2 trivial, ?_⟩
    show (j.actor.step .take).admitted = [] ∧ (j.actor.step .take).queue.length < _
    rw [hrest, Actor.step, hthread, hrest]
    cases c with
    | invoke caller method args => exact ⟨hadmitted, Nat.lt_succ_self _⟩
    | trigger caller hook args => exact ⟨hadmitted, Nat.lt_succ_self _⟩
    | dispose => exact ⟨hadmitted, Nat.lt_succ_self _⟩
  | leaving =>
    refine ⟨[.leave, .hangUp], List.forall_mem_cons.2 ⟨trivial, List.forall_mem_singleton.2 trivial⟩, ?_⟩
    show ((j.actor.step .leave).step .hangUp).admitted = [] ∧
      ((j.actor.step .leave).step .hangUp).queue.length < _
    rw [Actor.step, if_pos hthread, Actor.step, if_pos rfl]
    exact ⟨hadmitted, hpos⟩
  | stopped =>
    refine ⟨[.hangUp], List.forall_mem_singleton.2 trivial, ?_⟩
    show (j.actor.step .hangUp).admitted = [] ∧ (j.actor.step .hangUp).queue.length < _
    rw [Actor.step, if_pos hthread]
    exact ⟨hadmitted, hpos⟩
  | gone => exact absurd (h.gone hthread) hqueue

/-- A call that was let in moves on: its owner can always enter the command, into the queue or back
with a refusal. By this the progress of calls is counted. -/
theorem Ticketed.exists_fewer (h : j.Ticketed) (hadmitted : j.actor.admitted ≠ []) :
    ∃ ticket, (j.step (.enter ticket)).actor.admitted.length < j.actor.admitted.length ∧
      (j.step (.enter ticket)).actor.queue.length ≤ j.actor.queue.length + 1 := by
  obtain ⟨c, hc⟩ := List.exists_mem_of_ne_nil _ hadmitted
  obtain ⟨ticket, hticket⟩ := Command.exists_ticket (h.calls c hc)
  refine ⟨ticket, ?_⟩
  show (j.actor.enter ticket).admitted.length < _ ∧ (j.actor.enter ticket).queue.length ≤ _
  rcases j.actor.enter_cases ticket with ⟨-, hnone⟩ | ⟨c', hc', hticket', -, henter⟩
  · rw [Actor.arrivedIn, Option.toList_eq_nil_iff, List.find?_eq_none] at hnone
    exact absurd (decide_eq_true hticket) (hnone c hc)
  · have hfewer : (j.actor.admittedBut ticket).length < j.actor.admitted.length := by
      refine List.length_filter_lt_length_iff_exists.2 ⟨c', hc', ?_⟩
      simp [hticket']
    rw [henter]
    split
    · exact ⟨hfewer, Nat.le_succ _⟩
    · refine ⟨hfewer, ?_⟩
      rw [List.length_append, List.length_singleton]

/-- Once the calls that were let in go on and the thread does its part, no call is under way. -/
theorem Sound.exists_quiet (h : j.Sound) :
    ∃ more, (∀ s ∈ more, s.IsProgress) ∧ (j.run more).Quiet := by
  -- a call that moves on leaves the ones that were let in, for one place in the queue at most
  induction hmeasure : 2 * j.actor.admitted.length + j.actor.queue.length
    using Nat.strong_induction_on generalizing j with
  | _ n ih =>
    have hstep : ∀ more, (∀ s ∈ more, s.IsProgress) →
        2 * (j.run more).actor.admitted.length + (j.run more).actor.queue.length < n →
        ∃ more, (∀ s ∈ more, s.IsProgress) ∧ (j.run more).Quiet := by
      intro more hmore hless
      obtain ⟨further, hfurther, hquiet⟩ := ih _ hless (h.run more) rfl
      refine ⟨more ++ further, List.forall_mem_append.2 ⟨hmore, hfurther⟩, ?_⟩
      rw [Journal.run, List.foldl_append]
      exact hquiet
    by_cases hadmitted : j.actor.admitted = []
    · by_cases hqueue : j.actor.queue = []
      · exact ⟨[], List.forall_mem_nil _, hadmitted, hqueue⟩
      · obtain ⟨more, hmore, hnone, hshorter⟩ := h.placed.exists_shorter hadmitted hqueue
        refine hstep more hmore ?_
        rw [hnone]
        rw [hadmitted] at hmeasure
        exact hmeasure ▸ Nat.add_lt_add_left hshorter _
    · obtain ⟨ticket, hfewer, hlonger⟩ := h.ticketed.exists_fewer hadmitted
      refine hstep [.enter ticket] (List.forall_mem_singleton.2 trivial) ?_
      show 2 * (j.step (.enter ticket)).actor.admitted.length +
        (j.step (.enter ticket)).actor.queue.length < n
      omega

/-- When nothing is under way any more, every call has its reply, for its one ticket can be nowhere
else. -/
theorem Ticketed.replied (h : j.Ticketed) (hquiet : j.Quiet) {ticket : Nat}
    (hticket : ticket < j.begun.length) : ∃ reply, j.actor.reply? ticket = some reply := by
  have hperm := h.perm
  rw [hquiet.1, hquiet.2, List.filterMap_nil, List.nil_append, List.nil_append] at hperm
  obtain ⟨r, hr, rfl⟩ := List.mem_map.1 (hperm.mem_iff.2 (List.mem_range.2 hticket))
  exact ⟨r.2, h.reply?_eq hr⟩

/-- Calls that were begun stay begun, in their order. -/
theorem begun_run (j : Journal) (steps : List Step) : j.begun <+: (j.run steps).begun := by
  induction steps generalizing j with
  | nil => exact List.prefix_refl _
  | cons s steps ih => exact (List.prefix_append _ _).trans (ih (j.step s))

end Journal

/--
In every run of a sandbox, whatever the interleaving of calls from the handle and from the bridge, of
the steps of disposing, and of the thread's: each call has one ticket, which is in one place, waiting
or under one reply; and the command under it is what the call asked for. The thread executes the
commands that arrived before the one to stop, in the order of arrival and each once, and answers each
with its own outcome. What arrived behind that one is never executed: its caller is told that the
sandbox is disposed, or, behind the bridge, that or that the reply was dropped. From the time the
sandbox is flagged, a call from the handle is refused at once, and from the time the forwarder is
unsubscribed a request has no responder; both is so once disposing is announced. And whenever the calls
that were let in go on and the thread does its part, all that arrived in time is executed and every
call that has begun gets its reply. What is executed is what the engine is made to do: it is the engine
that its acts come to one after another, and the calls among them are the ones executed, each once and
with the engine that the acts before it have come to.
-/
theorem calls_answered_once (app : String) (limits : Limits) (steps : List Step) :
    let start := Actor.create app limits
    let j := (Journal.create app limits).run steps
    let a := j.actor
    (a.admitted.filterMap Command.ticket? ++ a.queue.filterMap Command.ticket? ++
      a.replies.map Prod.fst).Perm (List.range j.begun.length) ∧
    (∀ c ∈ a.admitted ++ j.arrived, c.isCall = true →
      ∃ ticket call, c.ticket? = some ticket ∧ j.begun[ticket]? = some call ∧ c.Serves call) ∧
    (j.arrived.filterMap Command.ticket?).Nodup ∧
    j.arrived.filter (fun c => !c.isCall) = (if a.isStopping then [.dispose] else []) ∧
    j.executed.map Prod.fst <+: j.arrived.takeWhile Command.isCall ∧
    (a.hasLeft = true → j.executed.map Prod.fst = j.arrived.takeWhile Command.isCall) ∧
    (∀ e ∈ j.executed, ∃ ticket reply,
      e.1.answer? e.2 = some (ticket, reply) ∧ a.reply? ticket = some reply) ∧
    (∀ c ∈ j.arrived.dropWhile Command.isCall, c.isCall = true → c ∈ a.queue ∨
      ∃ ticket reply, c.ticket? = some ticket ∧ c.Refused reply ∧ a.reply? ticket = some reply) ∧
    (a.isDisposed = true → ∀ more,
      (∀ method args, (j.run (.invoke method args :: more)).actor.reply? a.calls = some .disposed) ∧
      (∀ name args, (j.run (.trigger name args :: more)).actor.reply? a.calls = some .disposed)) ∧
    (a.isSubscribed = false → ∀ more method args,
      (j.run (.request method args :: more)).actor.reply? a.calls
        = some (.unanswered (.noResponder method))) ∧
    (a.engine = start.engine.actAll (start.acts steps) ∧
      j.executed = start.engine.executions (start.acts steps)) ∧
    ∃ more, (∀ s ∈ more, s.IsProgress) ∧
      (j.run more).executed.map Prod.fst = (j.run more).arrived.takeWhile Command.isCall ∧
      ∀ ticket < j.begun.length, ∃ reply, (j.run more).actor.reply? ticket = some reply := by
  intro start j a
  have hsound : j.Sound := (Journal.sound_create app limits).run steps
  have hticketed := hsound.ticketed
  have hplaced := hsound.placed
  obtain ⟨hactor, hexecuted⟩ := Journal.executed_run (Journal.create app limits) steps
  refine ⟨hticketed.perm, ?_, ?_, hplaced.stops, hplaced.executed_first.1,
    fun hleft => hplaced.executed_first.2 (Or.inl hleft), ?_, ?_, ?_, ?_, ⟨?_, hexecuted⟩, ?_⟩
  · intro c hc hcall
    obtain ⟨ticket, hticket⟩ := Command.exists_ticket hcall
    obtain ⟨call, hget, hserves⟩ := hticketed.serves c hc ticket hticket
    exact ⟨ticket, call, hticket, hget, hserves⟩
  · -- a ticket stands on no two commands that have arrived
    rw [List.nodup_iff_count_le_one]
    intro ticket
    have hdistinct := hticketed.distinct ticket
    simp only [← Bool.beq_eq_decide_eq] at hdistinct
    rw [List.count_filterMap]
    omega
  · intro e he
    obtain ⟨⟨ticket, reply⟩, hr, hanswer⟩ := hplaced.answered e he
    exact ⟨ticket, reply, hanswer, hticketed.reply?_eq hr⟩
  · intro c hc hcall
    rcases hplaced.turned_away c hc hcall with hqueued | ⟨⟨ticket, reply⟩, hr, hticket, hrefused⟩
    · exact Or.inl hqueued
    · exact Or.inr ⟨ticket, reply, hticket, hrefused, hticketed.reply?_eq hr⟩
  · intro hdisposed more
    obtain ⟨hinvoke, htrigger⟩ := hsound.disposed hdisposed
    constructor
    · exact fun method args => (hsound.run [.invoke method args]).reply?_run (hinvoke method args) more
    · exact fun name args => (hsound.run [.trigger name args]).reply?_run (htrigger name args) more
  · intro hsubscribed more method args
    exact (hsound.run [.request method args]).reply?_run
      (hsound.unsubscribed hsubscribed method args) more
  · show ((Journal.create app limits).run steps).actor.engine = _
    rw [hactor]
    exact start.run_engine steps
  · obtain ⟨more, hmore, hquiet⟩ := hsound.exists_quiet
    have hlater := hsound.run more
    refine ⟨more, hmore, hlater.placed.executed_first.2 (Or.inr hquiet.2), ?_⟩
    intro ticket hticket
    exact hlater.ticketed.replied hquiet (Nat.lt_of_lt_of_le hticket (j.begun_run more).length_le)

end AppletHost.Sandbox
