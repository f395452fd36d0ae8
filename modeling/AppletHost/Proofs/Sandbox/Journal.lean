import AppletHost.Sandbox.Actor
import Mathlib.Data.List.Count

/-!
# A record of the calls to a sandbox

`Journal` follows a sandbox and its callers through steps in any order and keeps a record of the calls
that begin, of the commands that reach the queue, and of those that the thread executes. Whichever
party takes a step, what it can do to that is one of few things, `Journal.Change`:

> `Journal.change_step`: a call begins, moves on or is refused, the command to stop arrives, or the
> thread executes a command, leaves its loop or lets the queue go.
-/

namespace AppletHost.Sandbox

/-! ## Commands -/

namespace Command

/-- The command belongs to a call; the only other one tells the thread to stop. -/
def isCall : Command → Bool
  | .dispose => false
  | _ => true

/-- The reply when the thread executes the command with that engine. -/
def answer? (engine : Engine) : Command → Option (Nat × Reply)
  | .invoke caller method args => some (caller.ticket, .outcome (engine.invoke method args).1)
  | .trigger caller _ _ => some (caller.ticket, .triggered)
  | .dispose => none

/-- The reply refuses the command. A request from the bridge is told so, or its reply is dropped. -/
def Refused : Command → Reply → Prop
  | .invoke caller method _, reply =>
    if caller.viaBridge then
      reply = .outcome (.failed disposedText) ∨ reply = .unanswered (.replyDropped method)
    else reply = .disposed
  | .trigger _ _ _, reply => reply = .disposed
  | .dispose, _ => False

/-- The reply under the ticket of the command refuses it. -/
def TurnedAway (command : Command) (reply : Nat × Reply) : Prop :=
  command.ticket? = some reply.1 ∧ command.Refused reply.2

/-- The command does what the call asks for. -/
def Serves : Command → Step → Prop
  | .invoke caller method args, call =>
    call = if caller.viaBridge then .request method args else .invoke method args
  | .trigger _ hook args, call => ∃ name, Hook.ofName? name = some hook ∧ call = .trigger name args
  | .dispose, _ => False

theorem not_isCall_dispose : ¬dispose.isCall = true := Bool.false_ne_true

theorem isCall_of_ticket {command : Command} {ticket : Nat} (h : command.ticket? = some ticket) :
    command.isCall = true := by
  cases command with
  | invoke _ _ _ => rfl
  | trigger _ _ _ => rfl
  | dispose => cases h

theorem exists_ticket {command : Command} (h : command.isCall = true) :
    ∃ ticket, command.ticket? = some ticket := by
  cases command with
  | invoke caller _ _ => exact ⟨caller.ticket, rfl⟩
  | trigger caller _ _ => exact ⟨caller.ticket, rfl⟩
  | dispose => cases h

theorem exists_loss {command : Command} (h : command.isCall = true) :
    ∃ reply, command.loss? = some reply := by
  cases command with
  | dispose => cases h
  | _ => exact ⟨_, rfl⟩

theorem exists_refusal {command : Command} {ticket : Nat} (h : command.ticket? = some ticket) :
    ∃ reply, command.refusal? = some (ticket, reply) := by
  cases command with
  | dispose => cases h
  | _ =>
    obtain rfl := Option.some.inj h
    exact ⟨_, rfl⟩

/-- Who finds the queue gone is turned away, with the refusal that its kind of call gets. -/
theorem turnedAway_of_refusal {command : Command} {reply : Nat × Reply}
    (h : command.refusal? = some reply) : command.TurnedAway reply := by
  cases command with
  | invoke caller method args =>
    obtain rfl := Option.some.inj h
    refine ⟨rfl, ?_⟩
    unfold Refused
    dsimp only
    split
    · exact Or.inl rfl
    · rfl
  | trigger caller hook args =>
    obtain rfl := Option.some.inj h
    exact ⟨rfl, rfl⟩
  | dispose => cases h

/-- And so is who goes with the queue, whose reply is then that of a call that is dropped. -/
theorem turnedAway_of_loss {command : Command} {reply : Nat × Reply}
    (h : command.loss? = some reply) : command.TurnedAway reply := by
  cases command with
  | invoke caller method args =>
    obtain rfl := Option.some.inj h
    refine ⟨rfl, ?_⟩
    unfold Refused
    dsimp only
    split
    · exact Or.inr rfl
    · rfl
  | trigger caller hook args =>
    obtain rfl := Option.some.inj h
    exact ⟨rfl, rfl⟩
  | dispose => cases h

theorem ticket_of_answer {command : Command} {engine : Engine} {reply : Nat × Reply}
    (h : command.answer? engine = some reply) : command.ticket? = some reply.1 := by
  cases command with
  | dispose => cases h
  | _ => exact congrArg (some ·.1) (Option.some.inj h)

/-- The replies to what is lost are for those who had a ticket. -/
theorem countP_loss (commands : List Command) (ticket : Nat) :
    (commands.filterMap loss?).countP (fun r => r.1 = ticket)
      = commands.countP fun c => c.ticket? = some ticket := by
  rw [List.countP_filterMap]
  refine List.countP_congr fun c _ => ?_
  cases c <;> simp [loss?, ticket?]

theorem countP_filter_ticket (commands : List Command) (ticket ticket' : Nat) :
    (commands.filter fun c => c.ticket? ≠ some ticket).countP (fun c => c.ticket? = some ticket')
      = if ticket' = ticket then 0 else commands.countP fun c => c.ticket? = some ticket' := by
  rw [List.countP_filter]
  split
  next heq =>
    subst heq
    exact List.countP_eq_zero.2 fun c _ => by simp
  next hne =>
    refine List.countP_congr fun c _ => ?_
    simp only [decide_eq_true_eq, Bool.and_eq_true, ne_eq]
    constructor
    · exact fun h => h.1
    · intro h
      refine ⟨h, fun h' => hne ?_⟩
      exact Option.some.inj (h.symm.trans h')

end Command

/-! ## Steps -/

/-- The step is one of the clock or of the timers, or one that neither lets calls in nor moves them
on. -/
def Step.IsQuiet : Step → Prop
  | .wind _ | .load _ | .fire | .flag | .unsubscribe | .announce | .leave => True
  | _ => False

namespace Actor

/-- The call that begins in a step. -/
def begunIn (a : Actor) (step : Step) : List Step :=
  match step with
  | .invoke .. | .trigger .. | .request .. => if a.thread = .loading then [] else [step]
  | _ => []

/-- The command that reaches the queue in a step, or finds it gone. -/
def arrivedIn (a : Actor) : Step → List Command
  | .enter ticket => (a.admitted.find? fun c => c.ticket? = some ticket).toList
  | .queueDispose => if a.disposal = .unsubscribed then [.dispose] else []
  | _ => []

/-- The command that the thread executes in a step, and the engine it has for it. -/
def executedIn (a : Actor) (step : Step) : List (Command × Engine) :=
  match step, a.thread, a.queue with
  | .take, .serving, command :: _ => if command.isCall then [(command, a.engine)] else []
  | _, _, _ => []

/-- The calls under way under a ticket, and the replies to it. -/
def holders (a : Actor) (ticket : Nat) : Nat :=
  a.admitted.countP (fun c => c.ticket? = some ticket) +
    a.queue.countP (fun c => c.ticket? = some ticket) +
    a.replies.countP fun r => r.1 = ticket

/-- The thread has left its loop. -/
def hasLeft (a : Actor) : Bool :=
  match a.thread with
  | .loading | .serving => false
  | .leaving | .stopped | .gone => true

/-- The command to stop has been put into the queue. -/
def isStopping (a : Actor) : Bool := a.disposal = .queued || a.disposal = .announced

/-- Nothing that concerns calls has changed. -/
structure Alike (a a' : Actor) : Prop where
  admitted : a'.admitted = a.admitted
  queue : a'.queue = a.queue
  replies : a'.replies = a.replies
  calls : a'.calls = a.calls
  hasLeft : a'.hasLeft = a.hasLeft
  isStopping : a'.isStopping = a.isStopping
  gone : a'.thread = .gone ↔ a.thread = .gone
  loading : a'.thread = .loading →
    a.thread = .loading ∧ (a.disposal = .notBegun → a'.disposal = .notBegun)

theorem alike_refl (a : Actor) : a.Alike a := ⟨rfl, rfl, rfl, rfl, rfl, rfl, .rfl, fun h => ⟨h, id⟩⟩

/-- The clock, the timers, loading and the announcements do not concern calls. -/
theorem alike_step (a : Actor) {s : Step} (h : s.IsQuiet) : a.Alike (a.step s) := by
  cases s with
  | wind readings => exact ⟨rfl, rfl, rfl, rfl, rfl, rfl, .rfl, fun h => ⟨h, id⟩⟩
  | load program =>
    rw [step]
    split
    next hthread =>
      refine ⟨rfl, rfl, rfl, rfl, ?_, rfl, ?_, nofun⟩
      · show false = a.hasLeft
        rw [hasLeft, hthread]
      · rw [hthread]
        exact ⟨nofun, nofun⟩
    next => exact a.alike_refl
  | fire =>
    rw [step]
    split
    · exact ⟨rfl, rfl, rfl, rfl, rfl, rfl, .rfl, fun h => ⟨h, id⟩⟩
    · exact a.alike_refl
  | flag =>
    rw [step]
    split
    next h =>
      refine ⟨rfl, rfl, rfl, rfl, rfl, ?_, .rfl, fun hthread => absurd hthread h.2⟩
      rw [isStopping, isStopping, h.1]
      rfl
    next => exact a.alike_refl
  | unsubscribe =>
    rw [step]
    split
    next h =>
      refine ⟨rfl, rfl, rfl, rfl, rfl, ?_, .rfl, fun hthread => ⟨hthread, fun hnot => ?_⟩⟩
      · rw [isStopping, isStopping, h]
        rfl
      · exact absurd (h.symm.trans hnot) nofun
    next => exact a.alike_refl
  | announce =>
    rw [step]
    split
    next h =>
      refine ⟨rfl, rfl, rfl, rfl, rfl, ?_, .rfl, fun hthread => ⟨hthread, fun hnot => ?_⟩⟩
      · rw [isStopping, isStopping, h]
        rfl
      · exact absurd (h.symm.trans hnot) nofun
    next => exact a.alike_refl
  | leave =>
    rw [step]
    split
    next hthread =>
      refine ⟨rfl, rfl, rfl, rfl, ?_, rfl, ?_, nofun⟩
      · show true = a.hasLeft
        rw [hasLeft, hthread]
      · rw [hthread]
        exact ⟨nofun, nofun⟩
    next => exact a.alike_refl
  | _ => exact h.elim

/-- The calls that were let in, without the one of that ticket. -/
def admittedBut (a : Actor) (ticket : Nat) : List Command :=
  a.admitted.filter fun c => c.ticket? ≠ some ticket

/-- A call that was let in reaches the queue, or finds it gone and is turned away. -/
theorem enter_cases (a : Actor) (ticket : Nat) :
    (a.enter ticket = a ∧ a.arrivedIn (.enter ticket) = []) ∨
    ∃ c ∈ a.admitted, c.ticket? = some ticket ∧ a.arrivedIn (.enter ticket) = [c] ∧
      a.enter ticket =
        if a.thread = .gone then
          { a with admitted := a.admittedBut ticket, replies := a.replies ++ c.refusal?.toList }
        else { a with admitted := a.admittedBut ticket, queue := a.queue ++ [c] } := by
  have harrived : a.arrivedIn (.enter ticket)
      = (a.admitted.find? fun c => c.ticket? = some ticket).toList := rfl
  unfold Actor.enter
  rw [harrived]
  split
  next hfind =>
    rw [hfind]
    exact Or.inl ⟨rfl, rfl⟩
  next c hfind =>
    rw [hfind]
    have hticket := List.find?_some hfind
    exact Or.inr ⟨c, List.mem_of_find?_eq_some hfind, of_decide_eq_true hticket, rfl, rfl⟩

/-- The thread takes the next command off the queue, and executes it or leaves its loop. -/
theorem take_cases (a : Actor) :
    (a.step .take = a ∧ a.executedIn .take = []) ∨
    a.thread = .serving ∧ ∃ c rest, a.queue = c :: rest ∧
      ((c = .dispose ∧ a.executedIn .take = [] ∧
          a.step .take = { a with queue := rest, thread := .leaving }) ∨
        (c.isCall = true ∧ a.executedIn .take = [(c, a.engine)] ∧
          ∃ reply engine phase, c.answer? a.engine = some reply ∧
            a.step .take =
              { a with engine, phase, queue := rest, replies := a.replies ++ [reply] })) := by
  by_cases hthread : a.thread = .serving
  · cases hqueue : a.queue with
    | nil => simp [step, executedIn, hthread, hqueue]
    | cons c rest =>
      refine Or.inr ⟨hthread, c, rest, rfl, ?_⟩
      simp only [step, executedIn, hthread, hqueue]
      cases c with
      | dispose => exact Or.inl ⟨rfl, rfl, rfl⟩
      | invoke caller method args => exact Or.inr ⟨rfl, rfl, _, _, _, rfl, rfl⟩
      | trigger caller hook args => exact Or.inr ⟨rfl, rfl, _, _, _, rfl, rfl⟩
  · left
    constructor
    · rw [step]
      split
      next h _ => exact absurd h hthread
      next => rfl
    · unfold executedIn
      split
      next h _ => exact absurd h hthread
      next => rfl

end Actor

/-- A sandbox with a record of its calls. -/
structure Journal where
  actor : Actor
  /-- The calls that have begun; the ticket of a call is its place. -/
  begun : List Step := []
  /-- The commands that have reached the queue, or found it gone. -/
  arrived : List Command := []
  /-- The commands that the thread has executed. -/
  executed : List (Command × Engine) := []

namespace Journal

/-- One step. -/
def step (j : Journal) (s : Step) : Journal where
  actor := j.actor.step s
  begun := j.begun ++ j.actor.begunIn s
  arrived := j.arrived ++ j.actor.arrivedIn s
  executed := j.executed ++ j.actor.executedIn s

/-- Steps one after another. -/
def run (j : Journal) (steps : List Step) : Journal := steps.foldl step j

/-- The journal of a new sandbox. -/
def create (app : String) (limits : Limits) : Journal := { actor := .create app limits }

/-- What a step can do to a journal. -/
inductive Change (j : Journal) : Journal → Prop where
  | quiet (a : Actor) (alike : j.actor.Alike a) : Change j { j with actor := a }
  | refuse (call : Step) (r : Reply) (loaded : j.actor.thread ≠ .loading) : Change j { j with
      actor := { j.actor with calls := j.actor.calls + 1 }.reply j.actor.calls r
      begun := j.begun ++ [call] }
  | letIn (call : Step) (c : Command) (ticket : c.ticket? = some j.actor.calls)
      (serves : c.Serves call) (loaded : j.actor.thread ≠ .loading) : Change j { j with
      actor := { j.actor with calls := j.actor.calls + 1, admitted := j.actor.admitted ++ [c] }
      begun := j.begun ++ [call] }
  | arrive (c : Command) (ticket : Nat) (admitted : c ∈ j.actor.admitted)
      (holds : c.ticket? = some ticket) (there : j.actor.thread ≠ .gone) : Change j { j with
      actor := { j.actor with
        admitted := j.actor.admittedBut ticket, queue := j.actor.queue ++ [c] }
      arrived := j.arrived ++ [c] }
  | refuseLate (c : Command) (r : Nat × Reply) (admitted : c ∈ j.actor.admitted)
      (refusal : c.refusal? = some r) (gone : j.actor.thread = .gone) : Change j { j with
      actor := { j.actor with
        admitted := j.actor.admittedBut r.1, replies := j.actor.replies ++ [r] }
      arrived := j.arrived ++ [c] }
  | stop (unsubscribed : j.actor.disposal = .unsubscribed) : Change j { j with
      actor := { j.actor with disposal := .queued, queue := j.actor.queue ++ [.dispose] }
      arrived := j.arrived ++ [.dispose] }
  | execute (c : Command) (rest : List Command) (r : Nat × Reply) (engine : Engine) (phase : Phase)
      (serving : j.actor.thread = .serving) (next : j.actor.queue = c :: rest)
      (isCall : c.isCall = true) (answer : c.answer? j.actor.engine = some r) : Change j { j with
      actor := { j.actor with engine, phase, queue := rest, replies := j.actor.replies ++ [r] }
      executed := j.executed ++ [(c, j.actor.engine)] }
  | quit (rest : List Command) (serving : j.actor.thread = .serving)
      (next : j.actor.queue = .dispose :: rest) : Change j { j with
      actor := { j.actor with queue := rest, thread := .leaving } }
  | hangUp (stopped : j.actor.thread = .stopped) : Change j { j with
      actor := { j.actor with
        thread := .gone
        queue := []
        replies := j.actor.replies ++ j.actor.queue.filterMap Command.loss? } }

variable {j j' : Journal}

theorem change_refl (j : Journal) : j.Change j := .quiet j.actor j.actor.alike_refl

/-- A call begins: it takes a ticket, and is let in or refused at once. Before the program is loaded
there is nobody to call, and nothing happens. -/
theorem change_begin (j : Journal) {s : Step} {command : Nat → Except Reply Command}
    (hactor : j.actor.step s = if j.actor.thread = .loading then j.actor else j.actor.begin command)
    (hbegun : j.actor.begunIn s = if j.actor.thread = .loading then [] else [s])
    (harrived : j.actor.arrivedIn s = []) (hexecuted : j.actor.executedIn s = [])
    (hcommand : ∀ c, command j.actor.calls = .ok c →
      c.ticket? = some j.actor.calls ∧ c.Serves s) : j.Change (j.step s) := by
  rw [step, hactor, hbegun, harrived, hexecuted, List.append_nil, List.append_nil]
  split
  · rw [List.append_nil]
    exact j.change_refl
  next hloaded =>
    rw [Actor.begin]
    split
    next c hc => exact .letIn s c (hcommand c hc).1 (hcommand c hc).2 hloaded
    next r _ => exact .refuse s r hloaded

/-- A step does one of these things, whichever party takes it. -/
theorem change_step (j : Journal) (s : Step) : j.Change (j.step s) := by
  -- a step that begins, lets in and executes nothing only has to keep the actor alike
  have hquiet : j.actor.begunIn s = [] → j.actor.arrivedIn s = [] → j.actor.executedIn s = [] →
      j.actor.Alike (j.actor.step s) → j.Change (j.step s) := by
    intro hbegun harrived hexecuted halike
    rw [step, hbegun, harrived, hexecuted]
    simp only [List.append_nil]
    exact .quiet _ halike
  have hnothing : j.actor.begunIn s = [] → j.actor.arrivedIn s = [] → j.actor.executedIn s = [] →
      j.actor.step s = j.actor → j.Change (j.step s) := by
    intro hbegun harrived hexecuted hsame
    refine hquiet hbegun harrived hexecuted ?_
    rw [hsame]
    exact j.actor.alike_refl
  cases s with
  | wind _ | load _ | fire | flag | unsubscribe | announce | leave =>
    exact hquiet rfl rfl rfl (j.actor.alike_step trivial)
  | invoke method args =>
    refine j.change_begin rfl rfl rfl rfl fun c hc => ?_
    split at hc
    · cases hc
    · cases hc
      exact ⟨rfl, rfl⟩
  | trigger name args =>
    refine j.change_begin rfl rfl rfl rfl fun c hc => ?_
    split at hc
    · cases hc
    split at hc
    next hook hhook =>
      cases hc
      exact ⟨rfl, name, hhook, rfl⟩
    next => cases hc
  | request method args =>
    refine j.change_begin rfl rfl rfl rfl fun c hc => ?_
    split at hc
    · cases hc
      exact ⟨rfl, rfl⟩
    · cases hc
  | enter ticket =>
    rcases j.actor.enter_cases ticket with ⟨henter, harrived⟩ | ⟨c, hc, hticket, harrived, henter⟩
    · exact hnothing rfl harrived rfl henter
    · have hstep : j.step (.enter ticket)
          = { j with actor := j.actor.enter ticket, arrived := j.arrived ++ [c] } := by
        rw [step, harrived]
        simp only [Actor.begunIn, Actor.executedIn, List.append_nil]
        rfl
      rw [hstep, henter]
      -- the thread may have gone while the command was on its way
      split
      next hgone =>
        obtain ⟨reply, hreply⟩ := Command.exists_refusal hticket
        rw [hreply]
        exact .refuseLate c (ticket, reply) hc hreply hgone
      next hthere => exact .arrive c ticket hc hticket hthere
  | queueDispose =>
    by_cases h : j.actor.disposal = .unsubscribed
    · have hstep : j.step .queueDispose = { j with
          actor := { j.actor with disposal := .queued, queue := j.actor.queue ++ [.dispose] }
          arrived := j.arrived ++ [.dispose] } := by
        rw [step, Actor.step, if_pos h, Actor.arrivedIn, if_pos h]
        simp only [Actor.begunIn, Actor.executedIn, List.append_nil]
      rw [hstep]
      exact .stop h
    · exact hnothing rfl (if_neg h) rfl (if_neg h)
  | take =>
    rcases j.actor.take_cases with ⟨htake, hexecuted⟩ | ⟨hserving, c, rest, hqueue,
      ⟨rfl, hexecuted, htake⟩ | ⟨hcall, hexecuted, reply, engine, phase, hanswer, htake⟩⟩
    · exact hnothing rfl rfl hexecuted htake
    · rw [step, htake, hexecuted]
      simp only [Actor.begunIn, Actor.arrivedIn, List.append_nil]
      exact .quit rest hserving hqueue
    · rw [step, htake, hexecuted]
      simp only [Actor.begunIn, Actor.arrivedIn, List.append_nil]
      exact .execute c rest reply engine phase hserving hqueue hcall hanswer
  | hangUp =>
    by_cases h : j.actor.thread = .stopped
    · rw [step, Actor.step, if_pos h]
      simp only [Actor.begunIn, Actor.arrivedIn, Actor.executedIn, List.append_nil]
      exact .hangUp h
    · exact hnothing rfl rfl rfl (if_neg h)

end Journal

end AppletHost.Sandbox
