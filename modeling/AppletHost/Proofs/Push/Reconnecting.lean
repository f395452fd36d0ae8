import AppletHost.Push.Client
import Mathlib.Data.List.Induction

/-!
# What a client tells, and when it gives up

A run of a client is any interleaving of its own steps with those of the network and of its owner,
each with the time it is made at (`after`). What the client learns on the way is its list of
`happenings`; a failure is a connect that failed, or an open connection that closed. `InARow n` says
that `n` failures came with no opened connection between them.

All facts about runs rest on one inversion (`move_step`): a step is one of a dozen moves, and every fact
below looks at these moves only. `after_induction` carries a fact about one move through a run.

* `Streamed`: the events are whole sessions, and behind them what the phase of the client allows.
* `Counted`: the counter of the client is the length of the row of failures, and it gives up when
  the row exceeds the policy.
* `Ending`: a closed client that looks for this. What it told together with its `lastWords` stays the
  same from move to move, so nothing but these words can follow. `MayTell` adds the words of a client
  that was about to write, or that had a lost connection to tell of, when its owner closed it.

> `events_after`: the stream of events, the `gaveUp` at its end, the messages in it, the flag of the
> handle, and what a close leaves to tell, for all policies and all runs.
-/

namespace AppletHost.Push

/-- What a client learns from the network. -/
inductive Happening where
  /-- An attempt to connect failed. -/
  | failed
  | opened
  /-- A frame of the open connection was read, at that time. -/
  | read (now : Int) (text : String)
  /-- An open connection closed or broke. It counts once the client tells so. -/
  | closed

namespace Happening

/-- The client counts it as a failure. -/
def isFailure : Happening → Bool
  | .failed | .closed => true
  | .opened | .read _ _ => false

/-- The envelope that was read, if the frame is well-formed. -/
def envelope? : Happening → Option Envelope
  | .read now text => (Envelope.parse now text).toOption
  | _ => none

/-- So many failures in a row: no connection opened between them. -/
def InARow (n : Nat) (happenings : List Happening) : Prop :=
  ∃ part, part <:+: happenings ∧ .opened ∉ part ∧ part.countP isFailure = n

/-- The failures since a connection opened last, after one more happening. -/
def count (row : Nat) : Happening → Nat
  | .failed | .closed => row + 1
  | .opened => 0
  | .read _ _ => row

/-- The failures since a connection opened last. -/
def row (happenings : List Happening) : Nat := happenings.foldl count 0

/-- The row of failures goes on with each happening: a failure makes it longer, and a session that was
open ends it. -/
theorem row_snoc (hs : List Happening) (h : Happening) : row (hs ++ [h]) = count (row hs) h := by
  rw [row, List.foldl_append]
  rfl

theorem count_of_isFailure {h : Happening} (hfailure : h.isFailure = true) (n : Nat) :
    count n h = n + 1 := by
  cases h with
  | failed | closed => rfl
  | opened | read _ _ => cases hfailure

theorem count_le_of_not_isFailure {h : Happening} (hfailure : h.isFailure = false) (n : Nat) :
    count n h ≤ n := by
  cases h with
  | failed | closed => cases hfailure
  | opened => exact Nat.zero_le n
  | read _ _ => exact Nat.le_refl n

/-- The failures since the last opening are in a row: they are counted over an end of the history that
holds no opening. -/
theorem exists_row (hs : List Happening) :
    ∃ part, part <:+ hs ∧ .opened ∉ part ∧ part.countP isFailure = row hs := by
  induction hs using List.reverseRecOn with
  | nil => exact ⟨[], List.suffix_rfl, List.not_mem_nil, rfl⟩
  | append_singleton hs h ih =>
    obtain ⟨part, hpart, hopened, hcount⟩ := ih
    rw [row_snoc, ← hcount]
    have hsuffix : part ++ [h] <:+ hs ++ [h] := by
      obtain ⟨before, rfl⟩ := hpart
      exact ⟨before, by simp⟩
    cases h with
    | opened => exact ⟨[], List.nil_suffix, List.not_mem_nil, rfl⟩
    | failed | closed | read _ _ =>
      refine ⟨_, hsuffix, by simpa using hopened, ?_⟩
      simp [isFailure, count]

/-- No end of the happenings has more failures without an opening. -/
theorem countP_le_row {part hs : List Happening} (hpart : part <:+ hs) (hopened : .opened ∉ part) :
    part.countP isFailure ≤ row hs := by
  induction hs using List.reverseRecOn generalizing part with
  | nil =>
    rw [List.suffix_nil.1 hpart]
    exact Nat.le_refl 0
  | append_singleton hs h ih =>
    rcases List.suffix_concat_iff.1 hpart with rfl | ⟨front, rfl, hfront⟩
    · exact Nat.zero_le _
    · rw [List.mem_append, not_or] at hopened
      have hle := ih hfront hopened.1
      rw [row_snoc]
      cases h with
      | opened => simp at hopened
      | failed | closed | read _ _ => simpa [isFailure, count] using hle

/-- A longer row than before ends with what happened last. -/
theorem InARow.of_concat {n : Nat} {hs : List Happening} {h : Happening}
    (hrow : InARow n (hs ++ [h])) : InARow n hs ∨ n ≤ row (hs ++ [h]) := by
  obtain ⟨part, hpart, hopened, rfl⟩ := hrow
  rcases List.infix_concat_iff.1 hpart with hsuffix | hinfix
  · exact Or.inr (countP_le_row hsuffix hopened)
  · exact Or.inl ⟨part, hinfix, hopened, rfl⟩

end Happening

namespace ClientEvent

/-- The envelope that the event tells. -/
def envelope? : ClientEvent → Option Envelope
  | .message e => some e
  | _ => none

/-- What a client tells of one connection, from its opening to its end. -/
def session (messages : List Envelope) : List ClientEvent :=
  .connected :: messages.map .message ++ [.disconnected]

end ClientEvent

/-- A connection is open in that phase. -/
def ClientPhase.isOpen : ClientPhase → Bool
  | .opened | .serving | .writing _ => true
  | .connecting | .parted _ | .waiting _ | .stopped => false

namespace Client

open Happening (InARow row)

/-! ## Moves -/

/-- What the client learns from a step at `now`. -/
def happening? (now : Int) (c : Client) : ClientStep → Option Happening
  | .connectFails => if c.phase = .connecting ∧ c.isClosing = false then some .failed else none
  | .connectOpens => if c.phase = .connecting ∧ c.isClosing = false then some .opened else none
  | .receive text =>
    if c.phase = .serving ∧ c.isClosing = false then some (.read now text) else none
  | .tell => if c.phase = .parted false then some .closed else none
  | _ => none

/-- The client after steps that are made one after another, each at its time. -/
def after (c : Client) (steps : List (Int × ClientStep)) : Client :=
  steps.foldl (fun c s => c.step s.1 s.2) c

/-- What the client learns from steps that are made one after another. -/
def happenings (c : Client) : List (Int × ClientStep) → List Happening
  | [] => []
  | (now, s) :: steps => (c.happening? now s).toList ++ (c.step now s).happenings steps

/-- The two clients differ at most in their frames, and in that only the second was closed. -/
structure Alike (c d : Client) : Prop where
  reconnect : d.reconnect = c.reconnect
  phase : d.phase = c.phase
  isConnected : d.isConnected = c.isConnected
  events : d.events = c.events
  isClosing : c.isClosing = true → d.isClosing = true

theorem Alike.refl (c : Client) : c.Alike c := ⟨rfl, rfl, rfl, rfl, id⟩

/-- All that one step can do, with what the client learns from it. -/
inductive Move (c : Client) : Option Happening → Client → Prop
  | rests {d : Client} (h : c.Alike d) : Move c none d
  | fails (hphase : c.phase = .connecting) (hopen : c.isClosing = false) :
      Move c (some .failed) c.fail
  | connects (hphase : c.phase = .connecting) (hopen : c.isClosing = false) :
      Move c (some .opened) c.opens
  | quits (hphase : c.phase = .connecting ∨ ∃ delay, c.phase = .waiting delay)
      (hclosing : c.isClosing = true) : Move c none c.stop
  | greets (hphase : c.phase = .opened) :
      Move c none { c.tell .connected with phase := .serving }
  | reads (now : Int) (text : String) (hphase : c.phase = .serving) (hopen : c.isClosing = false) :
      Move c (some (.read now text)) (c.receive text now)
  | begins {d : Client} {text : String} (hphase : c.phase = .serving) (hopen : c.isClosing = false)
      (h : Alike { c with phase := .writing text } d) : Move c none d
  | returns {d : Client} {text : String} (hphase : c.phase = .writing text)
      (h : Alike { c with phase := .serving } d) : Move c none d
  | breaks {text : String} (hphase : c.phase = .writing text) : Move c none (c.part false)
  | parts (hphase : c.phase = .serving) : Move c none (c.part c.isClosing)
  | leaves (hphase : c.phase = .parted true) : Move c none (c.tell .disconnected).stop
  | loses (hphase : c.phase = .parted false) : Move c (some .closed) (c.tell .disconnected).fail
  | wakes {delay : Number.Duration} (hphase : c.phase = .waiting delay) :
      Move c none { c with phase := .connecting }

/-- Each step of the client is one of its moves, with what the client learned in it. -/
theorem move_step (now : Int) (c : Client) (s : ClientStep) :
    c.Move (c.happening? now s) (c.step now s) := by
  have hrests : c.Move none c := .rests (Alike.refl c)
  cases s with
  | close => exact .rests ⟨rfl, rfl, rfl, rfl, fun _ => rfl⟩
  | send text =>
    refine .rests ?_
    show c.Alike (c.send text).2
    unfold send
    split
    · exact ⟨rfl, rfl, rfl, rfl, id⟩
    · exact Alike.refl c
  | connectFails =>
    unfold happening? step
    by_cases hphase : c.phase = .connecting
    · cases hclosing : c.isClosing with
      | true => simpa [hphase, hclosing] using Move.quits (Or.inl hphase) hclosing
      | false => simpa [hphase, hclosing] using Move.fails hphase hclosing
    · simpa [hphase] using hrests
  | connectOpens =>
    unfold happening? step
    by_cases hphase : c.phase = .connecting
    · cases hclosing : c.isClosing with
      | true => simpa [hphase, hclosing] using Move.quits (Or.inl hphase) hclosing
      | false => simpa [hphase, hclosing] using Move.connects hphase hclosing
    · simpa [hphase] using hrests
  | tell =>
    unfold happening? step
    cases hphase : c.phase with
    | opened => exact .greets hphase
    | parted byOwner =>
      cases byOwner with
      | true => exact .leaves hphase
      | false => exact .loses hphase
    | connecting | serving | stopped => exact hrests
    | waiting _ => exact hrests
    | writing _ => exact hrests
  | receive text =>
    unfold happening? step
    by_cases hphase : c.phase = .serving
    · cases hclosing : c.isClosing with
      | true => simpa [hphase, hclosing] using Move.parts hphase
      | false => simpa [hphase, hclosing] using Move.reads now text hphase hclosing
    · simpa [hphase] using hrests
  | write =>
    unfold happening? step
    by_cases hphase : c.phase = .serving
    · by_cases hclosing : c.isClosing = true
      · simpa [hphase, hclosing] using Move.parts hphase
      · dsimp only
        rw [if_pos hphase, if_neg hclosing]
        split
        · exact hrests
        · exact .begins hphase (Bool.eq_false_iff.2 hclosing) ⟨rfl, rfl, rfl, rfl, id⟩
    · simpa [hphase] using hrests
  | wrote =>
    unfold happening? step
    dsimp only
    split
    next text hphase => exact .returns hphase ⟨rfl, rfl, rfl, rfl, id⟩
    next => exact hrests
  | writeFails =>
    unfold happening? step
    dsimp only
    split
    next text hphase => exact .breaks hphase
    next => exact hrests
  | lose =>
    unfold happening? step
    by_cases hphase : c.phase = .serving
    · simpa [hphase] using Move.parts hphase
    · simpa [hphase] using hrests
  | wake =>
    unfold happening? step
    cases hphase : c.phase with
    | waiting delay => exact .wakes hphase
    | connecting | opened | serving | stopped => exact hrests
    | parted _ => exact hrests
    | writing _ => exact hrests
  | notice =>
    -- where the client does not look for a close, it goes on as before
    unfold happening? step
    cases hclosing : c.isClosing with
    | false => exact hrests
    | true =>
      simp only [↓reduceIte]
      cases hphase : c.phase with
      | connecting => exact .quits (Or.inl hphase) hclosing
      | waiting delay => exact .quits (Or.inr ⟨delay, hphase⟩) hclosing
      | serving => exact hclosing ▸ Move.parts hphase
      | opened | stopped => exact hrests
      | parted _ => exact hrests
      | writing _ => exact hrests

/-- What one move keeps, a run keeps. The property may speak of what has happened so far, which each
move adds to. -/
theorem after_induction {P : Client → List Happening → Prop}
    (move : ∀ c hs learned d, P c hs → c.Move learned d → P d (hs ++ learned.toList))
    (c : Client) (hs : List Happening) (start : P c hs) (steps : List (Int × ClientStep)) :
    P (c.after steps) (hs ++ c.happenings steps) := by
  induction steps generalizing c hs with
  | nil => exact (List.append_nil hs).symm ▸ start
  | cons s steps ih =>
    obtain ⟨now, s⟩ := s
    have hnext := ih _ _ (move c hs _ _ start (move_step now c s))
    rw [List.append_assoc] at hnext
    exact hnext

/-- A failure ends the client when the policy allows no more of them in a row. -/
theorem fail_eq (c : Client) : c.fail =
    if c.reconnect.policy.maxAttempts ≤ c.reconnect.attempts then
      { c with
        attempts := c.reconnect.attempts
        phase := .stopped
        isConnected := false
        events := c.events ++ [.gaveUp c.reconnect.attempts] }
    else
      { c with
        reconnect := { c.reconnect with attempts := c.reconnect.attempts + 1 }
        attempts := c.reconnect.attempts + 1
        phase := .waiting (c.reconnect.policy.baseDelay.times (c.reconnect.attempts + 1)) } := by
  unfold fail ReconnectState.onFailure
  by_cases hle : c.reconnect.policy.maxAttempts ≤ c.reconnect.attempts
  · rw [if_pos hle, if_pos hle]
    rfl
  · have hlt := c.reconnect.policy.maxAttempts_lt
    have hword : min (c.reconnect.attempts + 1) (Number.limit32 - 1) = c.reconnect.attempts + 1 := by
      omega
    simp only [if_neg hle, hword]

/-! ## What one move tells -/

/-- A move tells the envelope that it reads, and the end of a connection only once that is over. -/
theorem Move.told {c d : Client} {learned : Option Happening} (h : c.Move learned d) :
    ∃ told, d.events = c.events ++ told ∧
      told.filterMap ClientEvent.envelope? = learned.toList.filterMap Happening.envelope? ∧
      (.disconnected ∈ told → ∃ byOwner, c.phase = .parted byOwner) := by
  cases h with
  | rests h => exact ⟨[], by rw [h.events, List.append_nil], rfl, nofun⟩
  | fails _ _ =>
    rw [fail_eq]
    split
    · exact ⟨_, rfl, rfl, by simp⟩
    · exact ⟨[], (List.append_nil _).symm, rfl, nofun⟩
  | connects _ _ | quits _ _ | breaks _ | parts _ | wakes _ =>
    exact ⟨[], (List.append_nil _).symm, rfl, nofun⟩
  | begins _ _ h | returns _ h => exact ⟨[], h.events.trans (List.append_nil _).symm, rfl, nofun⟩
  | greets _ => exact ⟨_, rfl, rfl, by simp⟩
  | reads now text _ _ =>
    unfold receive
    cases hparse : Envelope.parse now text with
    | ok e => exact ⟨[.message e], rfl, by simp [ClientEvent.envelope?, Happening.envelope?, hparse,
        Except.toOption], by simp⟩
    | error _ => exact ⟨[], (List.append_nil _).symm, by simp [Happening.envelope?, hparse,
        Except.toOption], nofun⟩
  | leaves hphase => exact ⟨_, rfl, rfl, fun _ => ⟨true, hphase⟩⟩
  | loses hphase =>
    rw [fail_eq]
    split
    · exact ⟨_, List.append_assoc _ _ _, rfl, fun _ => ⟨false, hphase⟩⟩
    · exact ⟨_, rfl, rfl, fun _ => ⟨false, hphase⟩⟩

/-- The flag of the handle is set from the opening of a connection to its end. -/
def Flagged (c : Client) : Prop := c.isConnected = c.phase.isOpen

/-- The flag follows the phase, whatever the move. -/
theorem Flagged.move {c d : Client} {learned : Option Happening} (hflag : c.Flagged)
    (h : c.Move learned d) : d.Flagged := by
  unfold Flagged at hflag ⊢
  cases h with
  | rests h => rw [h.isConnected, h.phase, hflag]
  | fails hphase _ | loses hphase =>
    -- nothing was open, so the flag is unset already where the client goes on to wait
    rw [hphase] at hflag
    rw [fail_eq]
    split
    · rfl
    · exact hflag
  | connects _ _ => rfl
  | quits _ _ => rfl
  | greets hphase =>
    rw [hphase] at hflag
    exact hflag
  | reads now text hphase _ =>
    unfold receive
    split <;> exact hflag
  | begins hphase _ h | returns hphase h =>
    rw [hphase] at hflag
    rw [h.isConnected, h.phase]
    exact hflag
  | breaks _ | parts _ => rfl
  | leaves _ => rfl
  | wakes hphase =>
    rw [hphase] at hflag
    exact hflag

/-! ## The stream of events -/

/-- The events are sessions that have ended. -/
def Whole (events : List ClientEvent) : Prop :=
  ∃ sessions : List (List Envelope), events = sessions.flatMap ClientEvent.session

/-- What stands in the stream behind the sessions that have ended, by the phase of the client. -/
def Rest : ClientPhase → List ClientEvent → Prop
  | .connecting, rest | .opened, rest | .waiting _, rest => rest = []
  | .serving, rest | .writing _, rest | .parted _, rest =>
    ∃ messages : List Envelope, rest = .connected :: messages.map .message
  | .stopped, rest => rest = [] ∨ ∃ attempts, rest = [.gaveUp attempts]

/-- The events are sessions that have ended, and behind them what the phase allows. -/
def Streamed (c : Client) : Prop :=
  ∃ told rest, c.events = told ++ rest ∧ Whole told ∧ Rest c.phase rest

/-- A client that rests has told of whole sessions only. -/
theorem Whole.streamed {c : Client} (hwhole : Whole c.events) (hphase : Rest c.phase []) :
    c.Streamed :=
  ⟨c.events, [], (List.append_nil _).symm, hwhole, hphase⟩

/-- Before a connection is told of, the events are sessions that have ended. -/
theorem Streamed.whole {c : Client} (hstream : c.Streamed)
    (hphase : ∀ rest, Rest c.phase rest → rest = []) : Whole c.events := by
  obtain ⟨told, rest, hevents, hwhole, hrest⟩ := hstream
  rwa [hevents, hphase rest hrest, List.append_nil]

/-- The end of a connection completes its session, so what was told up to there is made of whole
sessions. -/
theorem Streamed.disconnected {c : Client} {byOwner : Bool} (hstream : c.Streamed)
    (hphase : c.phase = .parted byOwner) : Whole (c.tell .disconnected).events := by
  obtain ⟨told, rest, hevents, ⟨sessions, rfl⟩, hrest⟩ := hstream
  rw [hphase] at hrest
  obtain ⟨messages, rfl⟩ := hrest
  refine ⟨sessions ++ [messages], ?_⟩
  show c.events ++ [.disconnected] = _
  rw [hevents]
  simp [ClientEvent.session]

/-- And so has one that has failed once more, since a failure is told at once and for itself. -/
theorem Whole.fail {c : Client} (hwhole : Whole c.events) : c.fail.Streamed := by
  rw [fail_eq]
  split
  · exact ⟨c.events, _, rfl, hwhole, Or.inr ⟨_, rfl⟩⟩
  · exact Whole.streamed hwhole rfl

/-- The step lemma of the stream: a move tells what the phase it starts in leaves to be told. -/
theorem Streamed.move {c d : Client} {learned : Option Happening} (hstream : c.Streamed)
    (h : c.Move learned d) : d.Streamed := by
  cases h with
  | rests h =>
    unfold Streamed
    rw [h.events, h.phase]
    exact hstream
  | fails hphase _ => exact (hstream.whole fun _ hrest => by rwa [hphase] at hrest).fail
  | connects hphase _ =>
    have hwhole := hstream.whole fun _ hrest => by rwa [hphase] at hrest
    exact Whole.streamed hwhole rfl
  | quits hphase _ =>
    have hwhole := hstream.whole fun _ hrest => by
      rcases hphase with hphase | ⟨_, hphase⟩
      · rwa [hphase] at hrest
      · rwa [hphase] at hrest
    exact Whole.streamed hwhole (Or.inl rfl)
  | greets hphase =>
    -- before the greeting nothing was told of the session that begins
    have hwhole := hstream.whole fun _ hrest => by rwa [hphase] at hrest
    exact ⟨c.events, [.connected], rfl, hwhole, [], rfl⟩
  | reads now text hphase _ =>
    unfold receive
    split
    next e _ =>
      obtain ⟨told, rest, hevents, hwhole, hrest⟩ := hstream
      rw [hphase] at hrest
      obtain ⟨messages, rfl⟩ := hrest
      refine ⟨told, .connected :: (messages ++ [e]).map .message, ?_, hwhole, ?_⟩
      · show c.events ++ _ = _
        rw [hevents]
        simp
      · show Rest c.phase _
        rw [hphase]
        exact ⟨messages ++ [e], rfl⟩
    next => exact hstream
  | begins hphase _ h | returns hphase h =>
    obtain ⟨told, rest, hevents, hwhole, hrest⟩ := hstream
    rw [hphase] at hrest
    refine ⟨told, rest, h.events.trans hevents, hwhole, ?_⟩
    rw [h.phase]
    exact hrest
  | breaks hphase | parts hphase =>
    obtain ⟨told, rest, hevents, hwhole, hrest⟩ := hstream
    rw [hphase] at hrest
    exact ⟨told, rest, hevents, hwhole, hrest⟩
  | leaves hphase => exact Whole.streamed (hstream.disconnected hphase) (Or.inl rfl)
  | loses hphase => exact (hstream.disconnected hphase).fail
  | wakes hphase =>
    have hwhole := hstream.whole fun _ hrest => by rwa [hphase] at hrest
    exact Whole.streamed hwhole rfl

/-! ## Giving up -/

/-- What the counter of a client has to do with what happened to it. -/
structure Counted (maxAttempts : Nat) (c : Client) (happenings : List Happening) : Prop where
  policy : c.reconnect.policy.maxAttempts = maxAttempts
  /-- A client that still runs counts the row of failures, and the row is not too long so far. -/
  running : c.phase ≠ .stopped → c.reconnect.attempts = row happenings ∧
    row happenings ≤ maxAttempts ∧ ¬ InARow (maxAttempts + 1) happenings
  gaveUp_iff : ∀ n, .gaveUp n ∈ c.events ↔ n = maxAttempts ∧ InARow (maxAttempts + 1) happenings

variable {maxAttempts : Nat} {c d : Client} {hs : List Happening}

/-- A failure of a client that runs makes the row one longer. If the row is too long by that, the
client gives up and says so. -/
theorem Counted.fail (h : Counted maxAttempts c hs) (hphase : c.phase ≠ .stopped) {f : Happening}
    (hfailure : f.isFailure = true) : Counted maxAttempts c.fail (hs ++ [f]) := by
  obtain ⟨hattempts, hle, hrow⟩ := h.running hphase
  have hnone : ∀ n, ClientEvent.gaveUp n ∉ c.events := fun n hn => hrow ((h.gaveUp_iff n).1 hn).2
  have hnext : row (hs ++ [f]) = row hs + 1 := by
    rw [Happening.row_snoc, Happening.count_of_isFailure hfailure]
  rw [fail_eq, h.policy, hattempts]
  split
  · -- the row is one longer than the policy allows
    have hlong : InARow (maxAttempts + 1) (hs ++ [f]) := by
      obtain ⟨part, hpart, hopened, hcount⟩ := Happening.exists_row (hs ++ [f])
      exact ⟨part, hpart.isInfix, hopened, by omega⟩
    have hmax : row hs = maxAttempts := by omega
    refine ⟨h.policy, fun hne => absurd rfl hne, fun n => ?_⟩
    simp [hnone n, hlong, hmax]
  · have hshort : ¬ InARow (maxAttempts + 1) (hs ++ [f]) := by
      intro hlong
      rcases hlong.of_concat with hlong | hlt
      · exact hrow hlong
      · omega
    refine ⟨h.policy, fun _ => ⟨hnext.symm, by omega, hshort⟩, fun n => ?_⟩
    simp [hnone n, hshort]

/-- Nothing that counts has happened, so the row is as long as it was and nothing new was given up. -/
theorem Counted.alike (h : Counted maxAttempts c hs) (hreconnect : d.reconnect = c.reconnect)
    (hphase : d.phase ≠ .stopped → c.phase ≠ .stopped)
    (hevents : ∀ n, .gaveUp n ∈ d.events ↔ .gaveUp n ∈ c.events) : Counted maxAttempts d hs := by
  refine ⟨by rw [hreconnect, h.policy], fun hne => ?_, fun n => by rw [hevents, h.gaveUp_iff]⟩
  rw [hreconnect]
  exact h.running (hphase hne)

/-- Something other than a failure has happened to a client that runs. -/
theorem Counted.succeed (h : Counted maxAttempts c hs) (hphase : c.phase ≠ .stopped) {f : Happening}
    (hfailure : f.isFailure = false) (hpolicy : d.reconnect.policy = c.reconnect.policy)
    (hattempts : d.reconnect.attempts = row (hs ++ [f]))
    (hevents : ∀ n, .gaveUp n ∈ d.events ↔ .gaveUp n ∈ c.events) :
    Counted maxAttempts d (hs ++ [f]) := by
  obtain ⟨-, hle, hshort⟩ := h.running hphase
  have hrow : row (hs ++ [f]) ≤ row hs := by
    rw [Happening.row_snoc]
    exact Happening.count_le_of_not_isFailure hfailure _
  have hnext : ¬ InARow (maxAttempts + 1) (hs ++ [f]) := by
    intro hlong
    rcases hlong.of_concat with hlong | hlt
    · exact hshort hlong
    · omega
  refine ⟨by rw [hpolicy, h.policy], fun _ => ⟨hattempts, by omega, hnext⟩, fun n => ?_⟩
  rw [hevents, h.gaveUp_iff]
  simp [hshort, hnext]

/-- The step lemma of the count: the client has failed so many times in a row as it has learned. -/
theorem Counted.move {learned : Option Happening} (h : Counted maxAttempts c hs)
    (hmove : c.Move learned d) : Counted maxAttempts d (hs ++ learned.toList) := by
  cases hmove with
  | rests hsame =>
    rw [Option.toList_none, List.append_nil]
    exact h.alike hsame.reconnect (hsame.phase ▸ id) fun n => by rw [hsame.events]
  | fails hphase _ => exact h.fail (by simp [hphase]) rfl
  | connects hphase _ =>
    have hrow : row (hs ++ [.opened]) = 0 := Happening.row_snoc hs .opened
    exact h.succeed (by simp [hphase]) rfl rfl hrow.symm fun n => Iff.rfl
  | reads now text hphase _ =>
    have hrunning : c.phase ≠ .stopped := by simp [hphase]
    have hattempts := (h.running hrunning).1
    have hrow : row (hs ++ [.read now text]) = row hs := Happening.row_snoc hs (.read now text)
    unfold receive
    split
    · exact h.succeed hrunning rfl rfl (hattempts.trans hrow.symm) fun n => by simp [tell]
    · exact h.succeed hrunning rfl rfl (hattempts.trans hrow.symm) fun n => Iff.rfl
  | loses hphase =>
    have hrunning : c.phase ≠ .stopped := by simp [hphase]
    have htold : Counted maxAttempts (c.tell .disconnected) hs :=
      h.alike rfl id fun n => by simp [tell]
    exact htold.fail hrunning rfl
  | quits _ _ =>
    rw [Option.toList_none, List.append_nil]
    exact h.alike rfl (absurd rfl) fun n => Iff.rfl
  | greets hphase =>
    rw [Option.toList_none, List.append_nil]
    exact h.alike rfl (fun _ => by simp [hphase]) fun n => by simp [tell]
  | begins hphase _ hd | returns hphase hd =>
    rw [Option.toList_none, List.append_nil]
    exact h.alike hd.reconnect (fun _ => by simp [hphase]) fun n => by rw [hd.events]
  | breaks hphase | parts hphase | wakes hphase =>
    rw [Option.toList_none, List.append_nil]
    exact h.alike rfl (fun _ => by simp [hphase]) fun n => Iff.rfl
  | leaves _ =>
    rw [Option.toList_none, List.append_nil]
    exact h.alike rfl (absurd rfl) fun n => by simp [tell, stop]

/-! ## Closing -/

/-- What a client that was closed has left to tell. -/
def lastWords : ClientPhase → List ClientEvent
  | .opened => [.connected, .disconnected]
  | .serving | .writing _ | .parted _ => [.disconnected]
  | .connecting | .waiting _ | .stopped => []

/-- A client that was closed, and that looks for it before it takes a failure for one. -/
structure Ending (c : Client) : Prop where
  isClosing : c.isClosing = true
  phase : c.phase ≠ .parted false
  free : ∀ text, c.phase ≠ .writing text

/-- A client that was closed by its owner learns nothing more, and what it still tells are its last
words. -/
theorem Ending.move {learned : Option Happening} (h : c.Ending) (hmove : c.Move learned d) :
    d.Ending ∧ learned = none ∧ d.events ++ lastWords d.phase = c.events ++ lastWords c.phase := by
  have hclosing := h.isClosing
  cases hmove with
  | rests hsame =>
    refine ⟨⟨hsame.isClosing hclosing, hsame.phase ▸ h.phase, hsame.phase ▸ h.free⟩, rfl, ?_⟩
    rw [hsame.events, hsame.phase]
  -- whatever the client learns or begins, it does because it has not seen the close
  | fails _ hopen | connects _ hopen | reads _ _ _ hopen | begins _ hopen =>
    simp [hclosing] at hopen
  | loses hphase => exact absurd hphase h.phase
  | returns hphase | breaks hphase => exact absurd hphase (h.free _)
  | quits hphase _ =>
    refine ⟨⟨hclosing, by simp [stop], by simp [stop]⟩, rfl, ?_⟩
    rcases hphase with hphase | ⟨_, hphase⟩
    · rw [hphase]
      rfl
    · rw [hphase]
      rfl
  | greets hphase =>
    refine ⟨⟨hclosing, by simp, by simp⟩, rfl, ?_⟩
    rw [hphase]
    exact List.append_assoc _ _ _
  | parts hphase =>
    refine ⟨⟨hclosing, by simp [part, hclosing], by simp [part]⟩, rfl, ?_⟩
    rw [hphase]
    rfl
  | leaves hphase =>
    refine ⟨⟨hclosing, by simp [stop], by simp [stop]⟩, rfl, ?_⟩
    rw [hphase]
    exact List.append_nil _
  | wakes hphase =>
    refine ⟨⟨hclosing, by simp, by simp⟩, rfl, ?_⟩
    rw [hphase]
    rfl

/-- Nothing more happens to a client that ends, and it tells its last words at most. -/
theorem Ending.after (h : c.Ending) (steps : List (Int × ClientStep)) :
    (c.after steps).Ending ∧ c.happenings steps = [] ∧
      (c.after steps).events ++ lastWords (c.after steps).phase = c.events ++ lastWords c.phase := by
  refine after_induction (P := fun d hs => d.Ending ∧ hs = [] ∧
    d.events ++ lastWords d.phase = c.events ++ lastWords c.phase) ?_ c [] ⟨h, rfl, rfl⟩ steps
  intro d hs learned d' ⟨hending, hnone, hwords⟩ hmove
  obtain ⟨hending', rfl, hwords'⟩ := hending.move hmove
  exact ⟨hending', by simp [hnone], hwords'.trans hwords⟩

/-- A client that ends needs three steps of its own at most. -/
theorem Ending.stops (h : c.Ending) (now : Int) :
    (c.after [(now, .tell), (now, .notice), (now, .tell)]).phase = .stopped := by
  have hclosing := h.isClosing
  cases hphase : c.phase with
  | parted byOwner =>
    cases byOwner with
    | true => simp [Client.after, step, hphase, hclosing, tell, stop]
    | false => exact absurd hphase h.phase
  | writing text => exact absurd hphase (h.free text)
  | connecting | opened | serving | stopped =>
    simp [Client.after, step, hphase, hclosing, tell, part, stop]
  | waiting _ => simp [Client.after, step, hphase, hclosing, stop]

/-- What a client tells of a connection that was lost: its end, and that it gives up where that is one
failure too many. -/
def lossWords (c : Client) : List ClientEvent :=
  .disconnected :: if c.reconnect.policy.maxAttempts ≤ c.reconnect.attempts then
    [.gaveUp c.reconnect.attempts] else []

/-- What a client that was closed may have left to tell, where the write that goes on may still fail. -/
def MayTell (c : Client) (words : List ClientEvent) : Prop :=
  match c.phase with
  | .parted false => words = c.lossWords
  | .writing _ => words = [.disconnected] ∨ words = c.lossWords
  | phase => words = lastWords phase

/-- What a client may tell hangs on its phase and on its state of reconnecting alone. -/
theorem mayTell_of_alike (hphase : d.phase = c.phase) (hreconnect : d.reconnect = c.reconnect)
    {words : List ClientEvent} : d.MayTell words ↔ c.MayTell words := by
  unfold MayTell lossWords
  rw [hphase, hreconnect]

/-- A move of a client that was closed opens nothing, and tells part of what it had left to tell. -/
theorem Move.mayTell {learned : Option Happening} (hmove : c.Move learned d)
    (hclosing : c.isClosing = true) : d.isClosing = true ∧ learned ≠ some .opened ∧
      ∃ told, d.events = c.events ++ told ∧ ∀ words, d.MayTell words → c.MayTell (told ++ words) := by
  cases hmove with
  | rests hsame =>
    refine ⟨hsame.isClosing hclosing, nofun, [], hsame.events.trans (List.append_nil _).symm, ?_⟩
    exact fun words => (mayTell_of_alike hsame.phase hsame.reconnect).1
  | fails _ hopen | connects _ hopen | reads _ _ _ hopen | begins _ hopen =>
    simp [hclosing] at hopen
  -- a connection that is lost may be followed by giving up, which is then the last word
  | loses hphase =>
    refine ⟨?_, nofun, c.lossWords, ?_, ?_⟩
    · rw [fail_eq]
      split <;> exact hclosing
    · have hreconnect : (c.tell .disconnected).reconnect = c.reconnect := rfl
      rw [fail_eq, lossWords, hreconnect]
      by_cases hle : c.reconnect.policy.maxAttempts ≤ c.reconnect.attempts
      · rw [if_pos hle, if_pos hle]
        exact List.append_assoc _ _ _
      · rw [if_neg hle, if_neg hle]
        rfl
    · intro words hwords
      have hnone : words = [] := by
        rw [fail_eq] at hwords
        split at hwords <;> exact hwords
      rw [hnone, List.append_nil, MayTell, hphase]
  | returns hphase hsame =>
    refine ⟨hsame.isClosing hclosing, nofun, [], hsame.events.trans (List.append_nil _).symm, ?_⟩
    intro words hwords
    rw [MayTell, hsame.phase] at hwords
    rw [MayTell, hphase]
    exact Or.inl hwords
  | breaks hphase =>
    refine ⟨hclosing, nofun, [], (List.append_nil _).symm, fun words hwords => ?_⟩
    rw [MayTell, hphase]
    exact Or.inr hwords
  | quits hphase _ =>
    refine ⟨hclosing, nofun, [], (List.append_nil _).symm, fun words hwords => ?_⟩
    rw [MayTell]
    rcases hphase with hphase | ⟨_, hphase⟩
    · rw [hphase]
      exact hwords
    · rw [hphase]
      exact hwords
  | greets hphase =>
    refine ⟨hclosing, nofun, [.connected], rfl, fun words hwords => ?_⟩
    rw [MayTell, hphase, show words = _ from hwords]
    rfl
  | parts hphase =>
    refine ⟨hclosing, nofun, [], (List.append_nil _).symm, fun words hwords => ?_⟩
    rw [hclosing] at hwords
    rw [MayTell, hphase]
    exact hwords
  | leaves hphase =>
    refine ⟨hclosing, nofun, [.disconnected], rfl, fun words hwords => ?_⟩
    rw [MayTell, hphase, show words = _ from hwords]
    rfl
  | wakes hphase =>
    refine ⟨hclosing, nofun, [], (List.append_nil _).symm, fun words hwords => ?_⟩
    rw [MayTell, hphase]
    exact hwords

/-- Whatever comes, a client that was closed connects no more, and tells part of what it had left. -/
theorem mayTell_after (h : c.isClosing = true) (steps : List (Int × ClientStep)) :
    (c.after steps).isClosing = true ∧ .opened ∉ c.happenings steps ∧
      ∃ told, (c.after steps).events = c.events ++ told ∧
        ∀ words, (c.after steps).MayTell words → c.MayTell (told ++ words) := by
  refine after_induction (P := fun d hs => d.isClosing = true ∧ .opened ∉ hs ∧
    ∃ told, d.events = c.events ++ told ∧ ∀ words, d.MayTell words → c.MayTell (told ++ words)) ?_
    c [] ⟨h, List.not_mem_nil, [], (List.append_nil _).symm, fun _ => id⟩ steps
  intro d hs learned d' ⟨hclosing, hnone, told, hevents, hwords⟩ hmove
  obtain ⟨hclosing', hopened, more, hmore, hwords'⟩ := hmove.mayTell hclosing
  refine ⟨hclosing', ?_, told ++ more, ?_, fun words hlast => ?_⟩
  · rw [List.mem_append, not_or]
    exact ⟨hnone, fun hmem => hopened (Option.mem_toList.1 hmem)⟩
  · rw [hmore, hevents, List.append_assoc]
  · rw [List.append_assoc]
    exact hwords _ (hwords' words hlast)

/-- A client that was closed needs four steps of its own at most. -/
theorem stops_of_isClosing (h : c.isClosing = true) (now : Int) :
    (c.after [(now, .wrote), (now, .tell), (now, .notice), (now, .tell)]).phase = .stopped := by
  cases hphase : c.phase with
  | parted byOwner =>
    cases byOwner with
    | true => simp [Client.after, step, hphase, h, tell, stop]
    | false =>
      by_cases hle : c.reconnect.policy.maxAttempts ≤ c.reconnect.attempts
      · simp [Client.after, step, hphase, fail_eq, tell, hle]
      · simp [Client.after, step, hphase, fail_eq, tell, hle, h, stop]
  | writing text => simp [Client.after, step, hphase, h, part, tell, stop]
  | connecting | opened | serving | stopped =>
    simp [Client.after, step, hphase, h, tell, part, stop]
  | waiting _ => simp [Client.after, step, hphase, h, stop]

/-! ## All runs -/

/-- A client before its first attempt has failed at nothing yet. -/
theorem counted_ofPolicy (policy : ReconnectPolicy) :
    Counted policy.maxAttempts (ofPolicy policy) [] := by
  have hshort : ¬ InARow (policy.maxAttempts + 1) [] := by
    intro ⟨part, hpart, _, hcount⟩
    rw [List.infix_nil.1 hpart] at hcount
    cases hcount
  refine ⟨rfl, fun _ => ⟨rfl, Nat.zero_le _, hshort⟩, fun n => ?_⟩
  exact iff_of_false List.not_mem_nil fun h => hshort h.2

/-- What holds of a client all along, whoever makes the steps. -/
theorem kept_after (policy : ReconnectPolicy) (steps : List (Int × ClientStep)) :
    let c := (ofPolicy policy).after steps
    let hs := (ofPolicy policy).happenings steps
    c.Flagged ∧ c.Streamed ∧ Counted policy.maxAttempts c hs ∧
      c.events.filterMap ClientEvent.envelope? = hs.filterMap Happening.envelope? := by
  refine after_induction (P := fun c hs => c.Flagged ∧ c.Streamed ∧
    Counted policy.maxAttempts c hs ∧
    c.events.filterMap ClientEvent.envelope? = hs.filterMap Happening.envelope?) ?_
    (ofPolicy policy) [] ?_ steps
  · intro c hs learned d ⟨hflag, hstream, hcounted, hread⟩ hmove
    obtain ⟨told, hevents, hmessages, -⟩ := hmove.told
    refine ⟨hflag.move hmove, hstream.move hmove, hcounted.move hmove, ?_⟩
    rw [hevents, List.filterMap_append, List.filterMap_append, hread, hmessages]
  · have hflag : (ofPolicy policy).Flagged := rfl
    exact ⟨hflag, Whole.streamed ⟨[], rfl⟩ rfl, counted_ofPolicy policy, rfl⟩

/-- Only the opening of a connection sets the flag, and a client that opens one was connecting. -/
theorem Move.opened {learned : Option Happening} (hmove : c.Move learned d) (hflag : c.Flagged)
    (hunset : c.isConnected = false) (hset : d.isConnected = true) :
    learned = some .opened ∧ c.phase = .connecting := by
  have hphase : c.phase.isOpen = false := Eq.trans (Eq.symm hflag) hunset
  cases hmove with
  | connects hconnecting _ => exact ⟨rfl, hconnecting⟩
  | rests hsame => simp [hsame.isConnected, hunset] at hset
  | fails _ _ | loses _ =>
    rw [fail_eq] at hset
    split at hset
    · cases hset
    · simp [tell, hunset] at hset
  | greets hnow | reads _ _ hnow _ | begins hnow | returns hnow | breaks hnow | parts hnow =>
    rw [hnow] at hphase
    cases hphase
  | quits _ _ | leaves _ => cases hset
  | wakes _ => simp [hunset] at hset

/-- The end of a connection is told with the flag unset. -/
theorem Move.disconnected {learned : Option Happening} (hmove : c.Move learned d)
    (hflag : c.Flagged) (htold : .disconnected ∈ d.events.drop c.events.length) :
    c.isConnected = false ∧ d.isConnected = false := by
  obtain ⟨told, hevents, -, hparted⟩ := hmove.told
  rw [hevents, List.drop_left] at htold
  obtain ⟨byOwner, hphase⟩ := hparted htold
  have hunset : c.isConnected = false := by
    rw [hflag, hphase]
    rfl
  refine ⟨hunset, Bool.eq_false_iff.2 fun hset => ?_⟩
  have hconnecting := (hmove.opened hflag hunset hset).2
  rw [hphase] at hconnecting
  cases hconnecting

/--
For every policy and every run, with `c` the client after it and `hs` what it learned:

* the events are sessions that have ended, each a `connected`, messages and a `disconnected`; behind
  them stands the open session, or once the client has stopped nothing or one `gaveUp`;
* a `gaveUp` was told just when one failure more than the policy allows came in a row, and it tells
  the number that the policy allows;
* the messages are the well-formed frames that were read, in order;
* a step that tells `disconnected` finds the flag of the handle unset and leaves it so, and only the
  opening of a connection sets it;
* once the owner has closed the client, and no write goes on and no lost connection waits to be told
  and counted, nothing more happens to it whatever comes: it tells its last words and stops, three
  steps of its own being enough for the rest of them;
* and a closed client connects no more in any case, and stops after four steps of its own at most. A
  connection that was lost before it noticed, or with the write that went on, it tells as lost, and
  gives up where that is one failure too many.
-/
theorem events_after (policy : ReconnectPolicy) (steps : List (Int × ClientStep)) :
    let c := (ofPolicy policy).after steps
    let hs := (ofPolicy policy).happenings steps
    (∃ (sessions : List (List Envelope)) (rest : List ClientEvent),
      c.events = sessions.flatMap ClientEvent.session ++ rest ∧ Rest c.phase rest) ∧
    (∀ n, .gaveUp n ∈ c.events ↔
      n = policy.maxAttempts ∧ InARow (policy.maxAttempts + 1) hs) ∧
    c.events.filterMap ClientEvent.envelope? = hs.filterMap Happening.envelope? ∧
    (∀ now s, let d := c.step now s
      (.disconnected ∈ d.events.drop c.events.length →
        c.isConnected = false ∧ d.isConnected = false) ∧
      (c.isConnected = false → d.isConnected = true → c.happening? now s = some .opened)) ∧
    (c.isClosing = true → c.phase ≠ .parted false → (∀ text, c.phase ≠ .writing text) →
      ∀ more now, let d := c.after more
      let e := d.after [(now, .tell), (now, .notice), (now, .tell)]
      c.happenings more = [] ∧ d.events ++ lastWords d.phase = c.events ++ lastWords c.phase ∧
        e.phase = .stopped ∧ e.events = c.events ++ lastWords c.phase) ∧
    (c.isClosing = true → ∀ more now,
      let e := (c.after more).after [(now, .wrote), (now, .tell), (now, .notice), (now, .tell)]
      .opened ∉ c.happenings more ∧ e.phase = .stopped ∧
        ∃ words, c.MayTell words ∧ e.events = c.events ++ words) := by
  intro c hs
  obtain ⟨hflag, ⟨told, rest, hevents, ⟨sessions, rfl⟩, hrest⟩, hcounted, hread⟩ :=
    kept_after policy steps
  refine ⟨⟨sessions, rest, hevents, hrest⟩, hcounted.gaveUp_iff, hread, ?_, ?_, ?_⟩
  · intro now s d
    have hmove := move_step now c s
    refine ⟨hmove.disconnected hflag, fun hunset hset => ?_⟩
    exact (hmove.opened hflag hunset hset).1
  · intro hclosing hphase hfree more now d e
    obtain ⟨hending, hnothing, hwords⟩ := Ending.after ⟨hclosing, hphase, hfree⟩ more
    have hstopped : e.phase = .stopped := hending.stops now
    have hlast := (hending.after [(now, .tell), (now, .notice), (now, .tell)]).2.2
    refine ⟨hnothing, hwords, hstopped, ?_⟩
    have hall : e.events ++ lastWords e.phase = c.events ++ lastWords c.phase := hlast.trans hwords
    rwa [hstopped, lastWords, List.append_nil] at hall
  · intro hclosing more now e
    -- what may be told is only ever used up, and a stopped client has nothing left to tell
    obtain ⟨hclosing', hopened, told, htold, hwords⟩ := mayTell_after hclosing more
    have hstopped : e.phase = .stopped := stops_of_isClosing hclosing' now
    obtain ⟨-, -, last, hlast, hrest⟩ := mayTell_after hclosing'
      [(now, .wrote), (now, .tell), (now, .notice), (now, .tell)]
    have hnone : e.MayTell [] := by
      rw [MayTell, hstopped]
      rfl
    have hsaid := hrest [] hnone
    rw [List.append_nil] at hsaid
    refine ⟨hopened, hstopped, told ++ last, hwords last hsaid, ?_⟩
    rw [← List.append_assoc, ← htold]
    exact hlast

/-- The loss of an open connection starts a new row: where one failure is allowed, the connect that
fails after it is one too many. -/
example :
    let steps := [.connectFails, .wake, .connectOpens, .tell, .lose, .tell, .wake, .connectFails]
    ((ofPolicy ⟨.ofMilliseconds 1000, 1, by decide⟩).after (steps.map (0, ·))).events =
      [.connected, .disconnected, .gaveUp 1] := rfl

/-- A close that comes while a frame is being written is not seen where the write fails: the lost
connection counts, and may be one failure too many. -/
example :
    let steps := [.connectOpens, .tell, .send "frame", .write, .close, .writeFails, .tell]
    ((ofPolicy ⟨.ofMilliseconds 1000, 0, by decide⟩).after (steps.map (0, ·))).events =
      [.connected, .disconnected, .gaveUp 0] := rfl

end Client

end AppletHost.Push
