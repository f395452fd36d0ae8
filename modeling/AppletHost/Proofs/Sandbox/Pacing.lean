import AppletHost.Proofs.Sandbox.Clearing
import AppletHost.Proofs.Sandbox.Timetable

/-!
# When timers are started

A timer comes due for a reading of the clock, and with it all others that are due then; their callbacks
are started one after another, each when the one before is through. What an interval is armed anew from
is the reading, however late its callback is started. So a slow callback moves the starts behind it in
its batch, but not the next batch:

> `slow_callback_shortens_interval`: an interval of 10 ms that is started late, at 15, is started again
> at 20.

The readings of the batches are spaced as the claim on starts would have it, and a start stands between
the reading of its batch and the reading of the next one. That much is true of every run (`timers_paced`).

A `Timeline` dates the events of a history by what the clock shows, also where nobody reads it. `Course`
reads the starts of one timer off a timeline, from where it was set. What ties them to the queue is
`Setting.OnCourse`: as long as the number is that of the timer, the deadline on the queue is the one
that the last batch, or the setting, asks for. A start that is still to come in the batch counts here as
if it had been, since the queue has the timer armed anew already.

> `paced_of_reachable`: at any moment every timer that was ever set is on course.

That there are never more timers than the limits allow is a matter of its own (`Session.Roomy`).
-/

namespace AppletHost.Sandbox

open Script (Closure)

/-! ## Timelines -/

/-- What happened to timers, each with what the clock showed then. -/
abbrev Timeline := List (Nat × TimerEvent)

/-- What is read off the clock when a timer is set or a batch is taken. -/
def TimerEvent.reading? : TimerEvent → Option Nat
  | .set _ now _ _ => some now
  | .due now _ => some now
  | .cleared _ => none
  | .started _ => none

/-- The clock never goes back, and shows what is read. -/
structure Chronological (timeline : Timeline) : Prop where
  ordered : timeline.Pairwise fun a b => a.1 ≤ b.1
  read : ∀ e ∈ timeline, ∀ now ∈ e.2.reading?, e.1 = now

/-- When the timer of that number was started. -/
def startDates (id : TimerId) (timeline : Timeline) : List Nat :=
  timeline.filterMap fun e => if e.2 = .started id then some e.1 else none

namespace Chronological

variable {timeline later : Timeline} {e : Nat × TimerEvent}

/-- What was chronological with later events was so before them. -/
theorem of_append (h : Chronological (timeline ++ later)) : Chronological timeline where
  ordered := (List.pairwise_append.1 h.ordered).1
  read e he := h.read e (List.mem_append_left _ he)

/-- What happens next happens no earlier, and at the time that is read. -/
theorem last (h : Chronological (timeline ++ [e])) :
    (∀ e' ∈ timeline, e'.1 ≤ e.1) ∧ ∀ now ∈ e.2.reading?, e.1 = now := by
  refine ⟨fun e' he' => ?_, h.read e (List.mem_append_right _ List.mem_cons_self)⟩
  exact (List.pairwise_append.1 h.ordered).2.2 e' he' e List.mem_cons_self

end Chronological

/-- As long as the readings do not go back, there is a clock that shows them: one that stands still
between them. -/
theorem exists_chronological {history : List TimerEvent}
    (h : (history.filterMap TimerEvent.reading?).Pairwise (· ≤ ·)) :
    ∃ timeline : Timeline, timeline.map Prod.snd = history ∧ Chronological timeline := by
  -- the last date is that of the last reading, and 0 before the first
  suffices hlast : ∃ timeline : Timeline, timeline.map Prod.snd = history ∧ Chronological timeline ∧
      ∀ e ∈ timeline, e.1 ≤ ((history.filterMap TimerEvent.reading?).getLast?).getD 0 by
    obtain ⟨timeline, hsnd, hchronological, -⟩ := hlast
    exact ⟨timeline, hsnd, hchronological⟩
  induction history using List.reverseRecOn with
  | nil => exact ⟨[], rfl, ⟨List.Pairwise.nil, nofun⟩, nofun⟩
  | append_singleton history event ih =>
    rw [List.filterMap_append] at h ⊢
    obtain ⟨timeline, rfl, hchronological, hpast⟩ := ih (List.pairwise_append.1 h).1
    cases hreading : event.reading? with
    | none =>
      have hnone : [event].filterMap TimerEvent.reading? = [] := by simp [hreading]
      rw [hnone, List.append_nil] at h ⊢
      refine ⟨timeline ++ [(((timeline.map Prod.snd).filterMap TimerEvent.reading?).getLast?.getD 0, event)],
        by simp, ⟨?_, ?_⟩, ?_⟩
      · refine List.pairwise_append.2 ⟨hchronological.ordered, List.pairwise_singleton _ _, ?_⟩
        intro e he e' he'
        obtain rfl := List.mem_singleton.1 he'
        exact hpast e he
      · intro e he now hnow
        rcases List.mem_append.1 he with he | he
        · exact hchronological.read e he now hnow
        · obtain rfl := List.mem_singleton.1 he
          cases hreading.symm.trans hnow
      · refine List.forall_mem_append.2 ⟨hpast, List.forall_mem_singleton.2 (Nat.le_refl _)⟩
    | some now =>
      have hsome : [event].filterMap TimerEvent.reading? = [now] := by simp [hreading]
      rw [hsome] at h ⊢
      have hlast : ∀ e ∈ timeline, e.1 ≤ now := by
        intro e he
        refine Nat.le_trans (hpast e he) ?_
        cases hget : ((timeline.map Prod.snd).filterMap TimerEvent.reading?).getLast? with
        | none => exact Nat.zero_le _
        | some earlier =>
          exact (List.pairwise_append.1 h).2.2 earlier (List.mem_of_getLast? hget) now
            (List.mem_singleton_self _)
      refine ⟨timeline ++ [(now, event)], by simp, ⟨?_, ?_⟩, ?_⟩
      · refine List.pairwise_append.2 ⟨hchronological.ordered, List.pairwise_singleton _ _, ?_⟩
        intro e he e' he'
        obtain rfl := List.mem_singleton.1 he'
        exact hlast e he
      · intro e he now' hnow
        rcases List.mem_append.1 he with he | he
        · exact hchronological.read e he now' hnow
        · obtain rfl := List.mem_singleton.1 he
          exact Option.some.inj (hreading.symm.trans hnow)
      · rw [List.getLast?_append]
        refine List.forall_mem_append.2 ⟨hlast, List.forall_mem_singleton.2 (Nat.le_refl _)⟩

/-! ## Courses -/

/-- A start of a timer. -/
structure Start where
  /-- The reading that its batch was taken for. -/
  batch : Nat
  /-- What the clock showed when the callback was started. -/
  date : Nat

/-- The course of one timer from where it was set. -/
structure Course where
  /-- The number is still that of this timer. -/
  own : Bool := true
  /-- The reading that the last batch was taken for, if it was taken since. -/
  batch : Option Nat := none
  starts : List Start := []

namespace Course

/-- The course of a timer with that number after one more event, when the clock shows that. -/
def next (id : TimerId) (c : Course) (date : Nat) : TimerEvent → Course
  | .set other _ _ _ => if other = id then { c with own := false } else c
  | .cleared _ => c
  | .due now _ => { c with batch := if c.own then some now else none }
  | .started other =>
    if other = id then { c with starts := c.starts ++ (c.batch.map fun batch => ⟨batch, date⟩).toList }
    else c

/-- The course of a timer with that number when these events have happened since it was set. -/
def ofEvents (id : TimerId) (events : Timeline) : Course :=
  events.foldl (fun c e => c.next id e.1 e.2) {}

theorem ofEvents_snoc (id : TimerId) (events : Timeline) (e : Nat × TimerEvent) :
    ofEvents id (events ++ [e]) = (ofEvents id events).next id e.1 e.2 := by
  simp [ofEvents]

/-- The readings of the batches that the starts were in. -/
def batches (c : Course) : List Nat := c.starts.map Start.batch

/-- The batches so far, and the one whose start is still to come if the timer is among those that
wait. -/
def times (c : Course) (id : TimerId) (ids : List TimerId) : List Nat :=
  c.batches ++ if id ∈ ids then c.batch.toList else []

/-- A timer that is not in the batch has no start coming, so its times are those of the batches it was
in. -/
theorem times_of_notMem {c : Course} {id : TimerId} {ids : List TimerId} (h : id ∉ ids) :
    c.times id ids = c.batches := by
  rw [times, if_neg h, List.append_nil]

/-- A batch makes one start to come, if the timer is in it. -/
theorem times_due (c : Course) (id : TimerId) (date now : Nat) (ids : List TimerId) :
    (c.next id date (.due now ids)).times id ids =
      c.batches ++ if c.own = true ∧ id ∈ ids then [now] else [] := by
  rw [times, next]
  by_cases hmem : id ∈ ids
  · by_cases hown : c.own = true
    · rw [if_pos hmem, if_pos hown, if_pos ⟨hown, hmem⟩]
      rfl
    · have hnot : ¬ (c.own = true ∧ id ∈ ids) := fun h => hown h.1
      rw [if_pos hmem, if_neg hown, if_neg hnot]
      rfl
  · have hnot : ¬ (c.own = true ∧ id ∈ ids) := fun h => hmem h.2
    rw [if_neg hmem, if_neg hnot]
    rfl

/-- A start that was to come has come: its batch was counted before, so the times are as they were. -/
theorem times_started (c : Course) {id other : TimerId} {ids : List TimerId} (date : Nat)
    (hnot : other ∉ ids) :
    (c.next id date (.started other)).times id ids = c.times id (other :: ids) := by
  by_cases heq : other = id
  · subst heq
    rw [times_of_notMem hnot, times, if_pos List.mem_cons_self, next, if_pos rfl, batches,
      List.map_append, batches]
    cases c.batch with
    | none => rfl
    | some batch => rfl
  · have hmem : id ∈ other :: ids ↔ id ∈ ids := by
      rw [List.mem_cons, or_iff_right (Ne.symm heq)]
    rw [next, if_neg heq, times, times]
    simp only [hmem]

/-- Each start stands between the reading of its batch and that of the next one. If the timer waits
for a start, that one is in the last batch. -/
structure Dated (c : Course) (waits : Prop) (now : Nat) : Prop where
  late : ∀ start ∈ c.starts, start.batch ≤ start.date
  past : ∀ start ∈ c.starts, start.date ≤ now
  taken : ∀ batch ∈ c.batch, batch ≤ now
  between : c.starts.IsChain fun a b => a.date ≤ b.batch
  awaited : waits → ∀ start ∈ c.starts.getLast?, ∀ batch ∈ c.batch, start.date ≤ batch

section Dated

variable {c : Course} {now later : Nat} {id : TimerId}

theorem Dated.mono {waits waits' : Prop} (h : c.Dated waits now) (hnow : now ≤ later)
    (hwaits : waits' → waits) : c.Dated waits' later where
  late := h.late
  past start hstart := Nat.le_trans (h.past start hstart) hnow
  taken batch hbatch := Nat.le_trans (h.taken batch hbatch) hnow
  between := h.between
  awaited hwait := h.awaited (hwaits hwait)

/-- A batch is taken, so that the next start comes after all that were before. -/
theorem Dated.due {waits waits' : Prop} (h : c.Dated waits now) (ids : List TimerId) :
    (c.next id now (.due now ids)).Dated waits' now where
  late := h.late
  past := h.past
  taken batch hbatch := by
    have hsome : (if c.own then some now else none) = some batch := hbatch
    split at hsome
    · exact Nat.le_of_eq (Option.some.inj hsome).symm
    · cases hsome
  between := h.between
  awaited _ start hstart batch hbatch := by
    have hsome : (if c.own then some now else none) = some batch := hbatch
    split at hsome
    · obtain rfl := Option.some.inj hsome
      exact h.past start (List.mem_of_getLast? hstart)
    · cases hsome

/-- The start that was to come has come. It is dated no earlier than its batch, and all later batches
are read after it. -/
theorem Dated.started {ids : List TimerId} (h : c.Dated (id ∈ id :: ids) now) (hnot : id ∉ ids) :
    (c.next id now (.started id)).Dated (id ∈ ids) now := by
  have hnext : c.next id now (.started id) =
      { c with starts := c.starts ++ (c.batch.map fun batch => ⟨batch, now⟩).toList } := if_pos rfl
  rw [hnext]
  cases hbatch : c.batch with
  | none =>
    refine ⟨?_, ?_, nofun, ?_, fun hwait => absurd hwait hnot⟩
    · simpa using h.late
    · simpa using h.past
    · simpa using h.between
  | some batch =>
    have hle := h.taken batch hbatch
    refine ⟨?_, ?_, fun b hb => Option.some.inj hb ▸ hle, ?_, fun hwait => absurd hwait hnot⟩
    · exact List.forall_mem_append.2 ⟨h.late, List.forall_mem_singleton.2 hle⟩
    · exact List.forall_mem_append.2 ⟨h.past, List.forall_mem_singleton.2 (Nat.le_refl _)⟩
    · refine List.isChain_append.2 ⟨h.between, List.isChain_singleton _, ?_⟩
      intro start hstart next hnext
      obtain rfl := Option.some.inj hnext
      exact h.awaited List.mem_cons_self start hstart batch hbatch

end Dated

end Course

/-- How a timer was set. -/
structure Setting where
  id : TimerId
  now : Nat
  delay : Int
  repeats : Bool

namespace Setting

/-- The timer is set. -/
def event (x : Setting) : TimerEvent := .set x.id x.now x.delay x.repeats

/-- How long the timer waits. -/
def wait (x : Setting) (limits : Limits) : Nat := Session.delayOf limits x.delay x.repeats

/-- When the timer comes due after these starts. -/
def deadline (x : Setting) (limits : Limits) (times : List Nat) : Nat :=
  match times.getLast? with
  | none => x.now + x.wait limits
  | some last => last + max (x.wait limits) shortestRearm

/-- The starts are as far apart as the timer waits; one that does not repeat has one at most. -/
structure Spaced (x : Setting) (limits : Limits) (times : List Nat) : Prop where
  waits : (x.now :: times).IsChain fun a b => a + x.wait limits ≤ b
  increases : times.IsChain fun a b => a + 1 ≤ b
  once : x.repeats = false → times.length ≤ 1

variable {x : Setting} {limits : Limits} {times : List Nat}

theorem spaced_nil : x.Spaced limits [] :=
  ⟨List.isChain_singleton _, List.isChain_nil, fun _ => Nat.zero_le 1⟩

/-- One more start, when the timer is due: its deadline lies as far behind the last batch as the
interval asks for. -/
theorem Spaced.snoc (h : x.Spaced limits times) {now : Nat} (hdue : x.deadline limits times ≤ now)
    (honce : x.repeats = false → times = []) : x.Spaced limits (times ++ [now]) := by
  unfold deadline at hdue
  refine ⟨?_, ?_, ?_⟩
  · rw [← List.cons_append]
    refine List.isChain_append.2 ⟨h.waits, List.isChain_singleton _, ?_⟩
    intro a ha b hb
    obtain rfl : now = b := Option.some.inj hb
    cases hlast : times.getLast? with
    | none =>
      rw [List.getLast?_eq_none_iff] at hlast
      subst hlast
      obtain rfl : x.now = a := Option.some.inj ha
      exact hdue
    | some last =>
      rw [hlast] at hdue
      rw [List.getLast?_cons, hlast] at ha
      obtain rfl : last = a := Option.some.inj ha
      dsimp only at hdue
      omega
  · refine List.isChain_append.2 ⟨h.increases, List.isChain_singleton _, ?_⟩
    intro a ha b hb
    obtain rfl : now = b := Option.some.inj hb
    rw [show times.getLast? = some a from ha] at hdue
    dsimp only [shortestRearm] at hdue
    omega
  · intro hrepeats
    rw [honce hrepeats]
    exact Nat.le_refl 1

/-- Starts that are spaced are so up to each of them. -/
theorem Spaced.of_append {later : List Nat} (h : x.Spaced limits (times ++ later)) :
    x.Spaced limits times := by
  refine ⟨?_, (List.isChain_append.1 h.increases).1, ?_⟩
  · have hwaits := h.waits
    rw [← List.cons_append] at hwaits
    exact (List.isChain_append.1 hwaits).1
  · intro hrepeats
    have honce := h.once hrepeats
    rw [List.length_append] at honce
    omega

/-- A timer that is live after it was taken repeats, and is armed anew from the reading. -/
theorem repeats_of_taken {timer later : Timer Closure} {now : Nat}
    (hinterval : timer.interval = if x.repeats then some (x.wait limits) else none)
    (hdue : timer.deadline ≤ now) (htaken : timer.taken now = some later) :
    x.repeats = true ∧ later.interval = timer.interval ∧
      later.deadline = now + max (x.wait limits) shortestRearm := by
  rw [Timer.taken, if_pos hdue] at htaken
  obtain ⟨interval, hsome, rfl⟩ := Option.map_eq_some_iff.1 htaken
  rw [hsome] at hinterval
  cases hrepeats : x.repeats with
  | false =>
    rw [hrepeats] at hinterval
    cases hinterval
  | true =>
    rw [hrepeats] at hinterval
    obtain rfl := Option.some.inj hinterval
    exact ⟨rfl, rfl, rfl⟩

/-- The batches of the timer are spaced and its starts are dated by them, and while its number is its
own the queue has it, if at all, with the deadline that goes with them. -/
structure OnCourse (x : Setting) (limits : Limits) (ids : List TimerId) (q : TimerQueue Closure)
    (now : Nat) (c : Course) : Prop where
  spaced : x.Spaced limits (c.times x.id ids)
  dated : c.Dated (x.id ∈ ids) now
  live : c.own = true → ∀ timer, q.timer? x.id = some timer →
    timer.interval = (if x.repeats then some (x.wait limits) else none) ∧
      timer.deadline = x.deadline limits (c.times x.id ids) ∧
      (x.repeats = false → c.times x.id ids = [])

namespace OnCourse

variable {ids : List TimerId} {q q' : TimerQueue Closure} {now later : Nat} {c : Course}

/-- What only ends timers, as time passes, leaves each timer on its course; of those that are left
nothing has changed. -/
theorem congr (h : x.OnCourse limits ids q now c) (hnow : now ≤ later)
    (hlive : ∀ id timer, q'.timer? id = some timer → q.timer? id = some timer) :
    x.OnCourse limits ids q' later c :=
  ⟨h.spaced, h.dated.mono hnow fun hwait => hwait, fun hown timer htimer => h.live hown timer (hlive _ _ htimer)⟩

/-- Another timer is set, possibly with the same number. -/
theorem set (h : x.OnCourse limits ids q now c) (date : Nat) (callback : Closure) (delay : Int)
    (repeats : Bool) (wait : Nat) :
    x.OnCourse limits ids (q.schedule date callback wait repeats).2 now
      (c.next x.id now (.set q.nextId date delay repeats)) := by
  by_cases hid : q.nextId = x.id
  · rw [Course.next, if_pos hid]
    obtain ⟨hlate, hpast, htaken, hbetween, hawaited⟩ := h.dated
    exact ⟨h.spaced, ⟨hlate, hpast, htaken, hbetween, hawaited⟩, nofun⟩
  · rw [Course.next, if_neg hid]
    refine ⟨h.spaced, h.dated, ?_⟩
    intro hown timer htimer
    rw [TimerQueue.timer?_schedule, Function.update_of_ne (Ne.symm hid)] at htimer
    exact h.live hown timer htimer

/-- A timer that has just been set has no starts behind it, and its deadline is where the first one
may come. -/
theorem new (hid : x.id = q.nextId) (callback : Closure) :
    x.OnCourse limits ids (q.schedule x.now callback (x.wait limits) x.repeats).2 now {} := by
  have htimes : Course.times {} x.id ids = [] := by
    rw [Course.times]
    split
    · rfl
    · rfl
  refine ⟨?_, ⟨nofun, nofun, nofun, List.isChain_nil, fun _ => nofun⟩, ?_⟩
  · rw [htimes]
    exact spaced_nil
  · intro _ timer htimer
    rw [TimerQueue.timer?_schedule, hid, Function.update_self] at htimer
    obtain rfl := Option.some.inj htimer
    rw [htimes]
    exact ⟨rfl, rfl, fun _ => rfl⟩

/-- A start uses up the reading of the batch that it was drained for, and is dated by a reading of its
own. -/
theorem started {id : TimerId} (h : x.OnCourse limits (id :: ids) q now c) (hnot : id ∉ ids) :
    x.OnCourse limits ids q now (c.next x.id now (.started id)) := by
  have htimes : (c.next x.id now (.started id)).times x.id ids = c.times x.id (id :: ids) :=
    c.times_started now hnot
  have hown : (c.next x.id now (.started id)).own = c.own := by
    rw [Course.next]
    split
    · rfl
    · rfl
  refine ⟨htimes ▸ h.spaced, ?_, ?_⟩
  · by_cases heq : id = x.id
    · subst heq
      exact h.dated.started hnot
    · rw [Course.next, if_neg heq]
      exact h.dated.mono (Nat.le_refl _) (List.mem_cons_of_mem _)
  · rw [hown, htimes]
    exact h.live

/-- The timers that are due are taken. A timer among them has a start to come, dated by this reading,
and its next deadline if it repeats; any other is as it was. -/
theorem due (h : x.OnCourse limits [] q now c) (hkept : q.Kept) :
    x.OnCourse limits ((q.takeDue now).1.map Prod.fst) (q.takeDue now).2 now
      (c.next x.id now (.due now ((q.takeDue now).1.map Prod.fst))) := by
  have htakes := TimerQueue.takeDue_takes hkept now
  have htimes := c.times_due x.id now now ((q.takeDue now).1.map Prod.fst)
  obtain ⟨hspaced, hdated, hlive⟩ := h
  rw [Course.times_of_notMem List.not_mem_nil] at hspaced hlive
  by_cases htaken : c.own = true ∧ x.id ∈ (q.takeDue now).1.map Prod.fst
  · -- the timer was due, so the batch starts it once more
    rw [if_pos htaken] at htimes
    obtain ⟨hown, hmem⟩ := htaken
    obtain ⟨⟨id, callback⟩, hdue, hid⟩ := List.mem_map.1 hmem
    obtain rfl : id = x.id := hid
    obtain ⟨timer, htimer, hle, -⟩ := (htakes.right.exact x.id callback).1 hdue
    have htimer' : q.timer? x.id = some timer := htimer
    obtain ⟨hinterval, hdeadline, honce⟩ := hlive hown timer htimer
    refine ⟨?_, hdated.due _, ?_⟩
    · rw [htimes]
      exact hspaced.snoc (hdeadline ▸ hle) honce
    · intro _ later hlater
      rw [htakes.timers, htimer', Option.bind_some] at hlater
      obtain ⟨hrepeats, hsame, hnext⟩ := repeats_of_taken hinterval hle hlater
      rw [htimes]
      refine ⟨hsame.trans hinterval, ?_, fun hnot => absurd (hrepeats.symm.trans hnot) nofun⟩
      rw [hnext, deadline, List.getLast?_concat]
  · rw [if_neg htaken, List.append_nil] at htimes
    refine ⟨?_, hdated.due _, ?_⟩
    · rw [htimes]
      exact hspaced
    · -- the timer was not due, so it is as it was
      intro hown later hlater
      have hnot : x.id ∉ (q.takeDue now).1.map Prod.fst := fun hmem => htaken ⟨hown, hmem⟩
      rw [htakes.timers] at hlater
      obtain ⟨timer, htimer, hafter⟩ := Option.bind_eq_some_iff.1 hlater
      rw [Timer.taken] at hafter
      rw [htimes]
      split at hafter
      next hle =>
        have hdue := (htakes.right.exact x.id timer.callback).2 ⟨timer, htimer, hle, rfl⟩
        exact absurd (List.mem_map_of_mem hdue) hnot
      next =>
        obtain rfl := Option.some.inj hafter
        exact hlive hown timer htimer

end OnCourse

end Setting

/-! ## Sessions -/

/-- Taking a timer leaves no more of them than there were. -/
theorem TimerQueue.size_settle {α : Type} (q : TimerQueue α) (now : Nat) (id : TimerId)
    (timer : Timer α) (agenda : List Appointment) : (q.settle now id timer agenda).size ≤ q.size := by
  unfold TimerQueue.settle
  split
  · exact Nat.le_of_eq (List.length_map _)
  · exact List.length_filter_le _ _

/-- Taking the timers that are due never adds a live timer: one that repeats is kept, and any other is
gone. -/
theorem TimerQueue.size_takeDue {α : Type} (q : TimerQueue α) (now : Nat) :
    (q.takeDue now).2.size ≤ q.size := by
  fun_induction TimerQueue.takeDue q now with
  | case1 q _ => exact Nat.le_refl _
  | case2 q a rest _ _ timer _ later q' htake ih =>
    rw [htake] at ih
    exact Nat.le_trans ih (q.size_settle now a.id timer rest)
  | case3 q a rest _ _ _ ih => exact ih
  | case4 q a rest _ _ => exact Nat.le_refl _

/-- There are no more timers than the limits allow. -/
structure Session.Roomy (limits : Limits) (s : Session) : Prop where
  limits_eq : s.limits = limits
  size_le : s.timers.size ≤ limits.maxTimers

namespace Session

variable {limits : Limits} {s s' : Session}

/-- What sets no timer keeps the queue within its limit. -/
theorem Roomy.quiet (h : s.Roomy limits) (hlimits : s'.limits = s.limits)
    (hsize : s'.timers.size ≤ s.timers.size) : s'.Roomy limits :=
  ⟨hlimits.trans h.limits_eq, Nat.le_trans hsize h.size_le⟩

/-- What logic asks for has nothing to do with timers, or it is about one of them. -/
theorem answer_untimed (s : Session) (call : HostCall) :
    ((s.answer call).2.limits = s.limits ∧ (s.answer call).2.timers = s.timers ∧
      timerEvents s (.use call) = []) ∨
    (∃ callback delay repeats, call = .addTimer callback delay repeats) ∨
    ∃ id, call = .clearTimer id := by
  cases call with
  | setData update =>
    left
    show (s.setData update).2.limits = _ ∧ (s.setData update).2.timers = _ ∧ _
    unfold Session.setData
    split
    · exact ⟨rfl, rfl, rfl⟩
    · exact ⟨rfl, rfl, rfl⟩
  | register app =>
    left
    show (s.register app).2.limits = _ ∧ (s.register app).2.timers = _ ∧ _
    unfold Session.register
    split
    · exact ⟨rfl, rfl, rfl⟩
    · exact ⟨rfl, rfl, rfl⟩
  | log level args => exact .inl ⟨rfl, rfl, rfl⟩
  | addTimer callback delay repeats => exact .inr (.inl ⟨_, _, _, rfl⟩)
  | clearTimer id => exact .inr (.inr ⟨_, rfl⟩)

/-- The queue keeps within its limit whatever host function is called, since no timer is added to a
full one. -/
theorem Roomy.use (h : s.Roomy limits) (call : HostCall) : (s.after (.use call)).Roomy limits := by
  rcases s.answer_untimed call with ⟨hlimits, htimers, -⟩ | ⟨callback, delay, repeats, rfl⟩ | ⟨id, rfl⟩
  · exact h.quiet hlimits (Nat.le_of_eq (congrArg TimerQueue.size htimers))
  · by_cases hfull : s.limits.maxTimers ≤ s.timers.size
    · rw [(addTimer_of_full hfull callback delay repeats).2]
      exact h
    · have hroom := Nat.lt_of_not_le hfull
      rw [(addTimer_of_room hroom callback delay repeats).2]
      refine ⟨h.limits_eq, ?_⟩
      have hrest : (s.timers.without s.timers.nextId).length ≤ s.timers.size :=
        List.length_filter_le _ _
      rw [h.limits_eq] at hroom
      show (s.timers.without s.timers.nextId ++ [_]).length ≤ _
      rw [List.length_append, List.length_singleton]
      omega
  · exact h.quiet rfl (List.length_filter_le _ _)

/-- Whatever is done, there are no more timers than the limits allow. -/
theorem Roomy.deed (h : s.Roomy limits) (d : Deed) : (s.after d).Roomy limits := by
  cases d with
  | use call => exact h.use call
  | due now => exact h.quiet rfl (s.timers.size_takeDue now)
  | clearTimers => exact h.quiet rfl (Nat.zero_le _)
  | visit | start | track | untrack | report | wind | read | look | takeRegistration | initData =>
    exact h.quiet rfl (Nat.le_refl _)

theorem roomy_sessionAt (app : String) (limits : Limits) (earlier : List Deed) :
    (sessionAt app limits earlier).Roomy limits :=
  afterAll_keeps (P := Roomy limits) (fun _ d _ hs => hs.deed d) ⟨rfl, Nat.zero_le _⟩

theorem roomy_of_reachable {app : String} {ids : List TimerId} {history : List TimerEvent}
    (h : Reachable app limits ids history s) : s.Roomy limits := by
  induction h with
  | create => exact ⟨rfl, Nat.zero_le _⟩
  | deed _ _ ih => exact ih.deed _
  | due _ ih => exact ih.deed (.due _)
  | started _ ih => exact ih

end Session

/-- The timers of the session are in order, and every one that was set is on course. -/
structure Session.Paced (limits : Limits) (ids : List TimerId) (timeline : Timeline) (s : Session) :
    Prop where
  kept : s.timers.Kept
  nodup : ids.Nodup
  onCourse : ∀ now, (∀ e ∈ timeline, e.1 ≤ now) →
    ∀ before date x after, timeline = before ++ (date, Setting.event x) :: after →
      x.OnCourse limits ids s.timers now (Course.ofEvents x.id after)

namespace Session

variable {limits : Limits} {ids ids' : List TimerId} {timeline : Timeline} {s s' : Session}

/-- What only ends timers, or has nothing to do with them, and is no event. -/
theorem Paced.quiet (h : s.Paced limits ids timeline) (hkept : s'.timers.Kept)
    (hlive : ∀ id timer, s'.timers.timer? id = some timer → s.timers.timer? id = some timer) :
    s'.Paced limits ids timeline := by
  refine ⟨hkept, h.nodup, ?_⟩
  intro now hnow before date x after hsplit
  exact (h.onCourse now hnow before date x after hsplit).congr (Nat.le_refl _) hlive

/-- What has nothing to do with timers keeps what is said of them, since it is said of the queue
alone. -/
theorem Paced.untimed (h : s.Paced limits ids timeline) (htimers : s'.timers = s.timers) :
    s'.Paced limits ids timeline := by
  refine h.quiet ?_ ?_
  · rw [htimers]
    exact h.kept
  · intro id timer htimer
    rwa [htimers] at htimer

/-- The timers that were set stay on course with an event if each of them does. -/
theorem Paced.onCourse_snoc (h : s.Paced limits ids timeline) {e : Nat × TimerEvent}
    (hpast : ∀ e' ∈ timeline, e'.1 ≤ e.1)
    (hold : ∀ (x : Setting) (c : Course), x.OnCourse limits ids s.timers e.1 c →
      x.OnCourse limits ids' s'.timers e.1 (c.next x.id e.1 e.2))
    (hnew : ∀ x : Setting, x.event = e.2 → x.OnCourse limits ids' s'.timers e.1 {})
    (now : Nat) (hnow : ∀ e' ∈ timeline ++ [e], e'.1 ≤ now) (before : Timeline) (date : Nat)
    (x : Setting) (after : Timeline) (hsplit : timeline ++ [e] = before ++ (date, x.event) :: after) :
    x.OnCourse limits ids' s'.timers now (Course.ofEvents x.id after) := by
  have hle : e.1 ≤ now := hnow e (List.mem_append_right _ List.mem_cons_self)
  rcases List.eq_nil_or_concat after with rfl | ⟨after, last, rfl⟩
  · obtain ⟨-, hlast⟩ := List.append_inj' hsplit rfl
    have hevent := List.singleton_inj.1 hlast
    exact (hnew x (congrArg Prod.snd hevent).symm).congr hle fun _ _ h => h
  · rw [List.concat_eq_append, ← List.cons_append, ← List.append_assoc] at hsplit
    obtain ⟨hbefore, hlast⟩ := List.append_inj' hsplit rfl
    rw [List.concat_eq_append, Course.ofEvents_snoc, ← List.singleton_inj.1 hlast]
    exact (hold x _ (h.onCourse e.1 hpast before date x after hbefore)).congr hle fun _ _ h => h

/-- A new timer has no past, so all that was said of the others still holds and nothing is to be said
of it. -/
theorem Paced.addTimer (h : s.Paced limits ids timeline) (hlimits : s.limits = limits)
    (callback : Closure) (delay : Int) (repeats : Bool) {added : Timeline}
    (hadded : added.map Prod.snd = timerEvents s (.use (.addTimer callback delay repeats)))
    (hchronological : Chronological (timeline ++ added)) :
    (s.after (.use (.addTimer callback delay repeats))).Paced limits ids (timeline ++ added) := by
  by_cases hfull : s.limits.maxTimers ≤ s.timers.size
  · obtain ⟨hevents, hafter⟩ := addTimer_of_full hfull callback delay repeats
    rw [hevents, List.map_eq_nil_iff] at hadded
    rw [hafter, hadded, List.append_nil]
    exact h
  · obtain ⟨hevents, hafter⟩ := addTimer_of_room (Nat.lt_of_not_le hfull) callback delay repeats
    rw [hevents, List.map_eq_singleton_iff] at hadded
    obtain ⟨⟨date, event⟩, rfl, hevent⟩ := hadded
    obtain rfl : event = _ := hevent
    obtain ⟨hpast, hread⟩ := hchronological.last
    obtain rfl : date = s.clock.read.1 := hread _ rfl
    rw [hafter]
    refine ⟨h.kept.schedule _ _ _ _, h.nodup, h.onCourse_snoc hpast ?_ ?_⟩
    · intro x c hcourse
      exact hcourse.set _ callback delay repeats _
    · intro x hx
      -- the timer that is set is the new one
      obtain ⟨id, now, delay', repeats'⟩ := x
      cases hx
      rw [hlimits]
      exact Setting.OnCourse.new rfl callback

/-- A timer that is cleared has no future, and its past was as it should be. -/
theorem Paced.clearTimer (h : s.Paced limits ids timeline) (id : TimerId) {date : Nat}
    (hchronological : Chronological (timeline ++ [(date, .cleared id)])) :
    (s.clearTimer id).Paced limits ids (timeline ++ [(date, .cleared id)]) := by
  have hlive : ∀ other timer, (s.timers.cancel id).2.timer? other = some timer →
      s.timers.timer? other = some timer := by
    intro other timer htimer
    rw [TimerQueue.timer?_cancel, Function.update_apply] at htimer
    split at htimer
    · cases htimer
    · exact htimer
  refine ⟨h.kept.cancel id, h.nodup, h.onCourse_snoc hchronological.last.1 ?_ nofun⟩
  intro x c hcourse
  exact hcourse.congr (Nat.le_refl _) hlive

/-- Whatever is no matter of batches keeps the timers on course. -/
theorem Paced.deed (h : s.Paced limits ids timeline) (hlimits : s.limits = limits) {d : Deed}
    (hd : d.isOfBatch = false) {added : Timeline} (hadded : added.map Prod.snd = timerEvents s d)
    (hchronological : Chronological (timeline ++ added)) :
    (s.after d).Paced limits ids (timeline ++ added) := by
  have hnone : timerEvents s d = [] → s.Paced limits ids (timeline ++ added) := by
    intro hevents
    rw [hevents, List.map_eq_nil_iff] at hadded
    rw [hadded, List.append_nil]
    exact h
  cases d with
  | use call =>
    rcases s.answer_untimed call with ⟨-, htimers, hevents⟩ | ⟨callback, delay, repeats, rfl⟩ | ⟨id, rfl⟩
    · exact (hnone hevents).untimed htimers
    · exact h.addTimer hlimits callback delay repeats hadded hchronological
    · obtain ⟨⟨date, event⟩, rfl, hevent⟩ := List.map_eq_singleton_iff.1 hadded
      obtain rfl : event = _ := hevent
      exact h.clearTimer id hchronological
  | due | start => cases hd
  | look => exact (hnone rfl).quiet (h.kept.drop rfl) fun _ _ htimer => htimer
  | clearTimers => exact (hnone rfl).quiet (TimerQueue.kept_clear _) nofun
  | visit | track | untrack | report | wind | read | takeRegistration | initData =>
    exact (hnone rfl).untimed rfl

/-- The timers that are drained were due: each of them by its delay from the reading of its last
batch. -/
theorem Paced.takeDueTimers (h : s.Paced limits [] timeline) (now : Nat) {date : Nat}
    (hchronological : Chronological
      (timeline ++ [(date, .due now ((s.takeDueTimers now).1.map Prod.fst))])) :
    (s.takeDueTimers now).2.Paced limits ((s.takeDueTimers now).1.map Prod.fst)
      (timeline ++ [(date, .due now ((s.takeDueTimers now).1.map Prod.fst))]) := by
  obtain ⟨hpast, hread⟩ := hchronological.last
  obtain rfl : date = now := hread now rfl
  have htakes := TimerQueue.takeDue_takes h.kept date
  have hnodup : ((s.timers.takeDue date).1.map Prod.fst).Nodup := by
    refine htakes.right.ordered.imp ?_
    rintro id _ hbefore rfl
    exact hbefore.asymm hbefore
  refine ⟨htakes.kept, hnodup, h.onCourse_snoc hpast ?_ nofun⟩
  intro x c hcourse
  exact hcourse.due h.kept

/-- A timer that starts was drained, and is dated by a reading that is no earlier. -/
theorem Paced.started {id : TimerId} (h : s.Paced limits (id :: ids) timeline) {date : Nat}
    (hchronological : Chronological (timeline ++ [(date, .started id)])) :
    s.Paced limits ids (timeline ++ [(date, .started id)]) := by
  obtain ⟨hnot, hnodup⟩ := List.nodup_cons.1 h.nodup
  refine ⟨h.kept, hnodup, h.onCourse_snoc hchronological.last.1 ?_ nofun⟩
  intro x c hcourse
  exact hcourse.started hnot

end Session

/-- At any moment the timers are on course, whatever the clock showed between its readings. -/
theorem paced_of_reachable {app : String} {limits : Limits} {ids : List TimerId}
    {history : List TimerEvent} {s : Session} (h : Session.Reachable app limits ids history s)
    {timeline : Timeline} (hhistory : timeline.map Prod.snd = history)
    (hchronological : Chronological timeline) : s.Paced limits ids timeline := by
  induction h generalizing timeline with
  | create =>
    obtain rfl := List.map_eq_nil_iff.1 hhistory
    refine ⟨TimerQueue.kept_empty, List.nodup_nil, ?_⟩
    intro now _ before date x after hsplit
    cases before <;> cases hsplit
  | deed hreachable hd ih =>
    obtain ⟨earlier, added, rfl, hearlier, hadded⟩ := List.map_eq_append_iff.1 hhistory
    have hlimits := (Session.roomy_of_reachable hreachable).limits_eq
    exact (ih hearlier hchronological.of_append).deed hlimits hd hadded hchronological
  | due _ ih =>
    obtain ⟨earlier, added, rfl, hearlier, hadded⟩ := List.map_eq_append_iff.1 hhistory
    obtain ⟨⟨date, event⟩, rfl, hevent⟩ := List.map_eq_singleton_iff.1 hadded
    obtain rfl : event = _ := hevent
    exact (ih hearlier hchronological.of_append).takeDueTimers _ hchronological
  | started _ ih =>
    obtain ⟨earlier, added, rfl, hearlier, hadded⟩ := List.map_eq_append_iff.1 hhistory
    obtain ⟨⟨date, event⟩, rfl, hevent⟩ := List.map_eq_singleton_iff.1 hadded
    obtain rfl : event = _ := hevent
    exact (ih hearlier hchronological.of_append).started hchronological

/-! ## Every start is counted -/

/-- Only a timer that was set waits for its start, as a batch is made of live timers. -/
theorem Lawful.set_of_waiting {history : List TimerEvent} (h : Lawful history) {id : TimerId}
    (hwait : id ∈ waiting history) : ∃ event ∈ history, Sets id event := by
  induction history using List.reverseRecOn with
  | nil => cases hwait
  | append_singleton history event ih =>
    have hearlier : id ∈ waiting history → ∃ event' ∈ history ++ [event], Sets id event' := by
      intro hin
      obtain ⟨event', hmem, hsets⟩ := ih h.of_append hin
      exact ⟨event', List.mem_append_left _ hmem, hsets⟩
    rw [waiting_snoc] at hwait
    cases event with
    | set | cleared => exact hearlier hwait
    | started other => exact hearlier (List.mem_of_mem_tail hwait)
    | due now ids =>
      obtain ⟨before, event', after, hsplit, hsets, -⟩ := h.allowed.2 id hwait
      refine ⟨event', List.mem_append_left _ ?_, hsets⟩
      rw [hsplit]
      exact List.mem_append_right _ List.mem_cons_self

/-- The dates of the starts of a timer are noted as it starts. -/
theorem startDates_snoc (id : TimerId) (timeline : Timeline) (e : Nat × TimerEvent) :
    startDates id (timeline ++ [e]) = startDates id timeline ++ if e.2 = .started id then [e.1] else [] := by
  rw [startDates, List.filterMap_append]
  by_cases hstart : e.2 = .started id
  · simp [startDates, hstart]
  · simp [startDates, hstart]

/-- As long as numbers are given once, the course of a timer has all starts with its number. -/
theorem Lawful.starts_dates {before after : Timeline} {date : Nat} {x : Setting}
    (h : Lawful ((before ++ (date, x.event) :: after).map Prod.snd)) (hid : x.id ≠ lastTimerId) :
    (Course.ofEvents x.id after).starts.map Start.date = startDates x.id after ∧
      (Course.ofEvents x.id after).own = true ∧
      ((Course.ofEvents x.id after).batch = none →
        x.id ∉ waiting ((before ++ (date, x.event) :: after).map Prod.snd)) := by
  have hset : Sets x.id x.event := ⟨_, _, _, rfl⟩
  induction after using List.reverseRecOn with
  | nil =>
    rw [List.map_append] at h ⊢
    refine ⟨rfl, rfl, ?_⟩
    intro _ hwait
    have hwait' : x.id ∈ waiting (before.map Prod.snd ++ [x.event]) := hwait
    rw [waiting_snoc] at hwait'
    -- a timer that waited already would have been set before
    obtain ⟨event, hmem, hsets⟩ := h.of_append.set_of_waiting hwait'
    have hallowed : Allowed (before.map Prod.snd) x.event := h.allowed
    rcases hallowed x.id event hmem hsets with hlt | hlast
    · exact absurd hlt (Int.lt_irrefl _)
    · exact hid hlast
  | append_singleton after e ih =>
    obtain ⟨now, event⟩ := e
    rw [← List.cons_append, ← List.append_assoc, List.map_append] at h ⊢
    obtain ⟨hdates, hown, hnone⟩ := ih h.of_append
    have hallowed : Allowed ((before ++ (date, x.event) :: after).map Prod.snd) event := h.allowed
    show _ ∧ _ ∧ (_ → x.id ∉ waiting (_ ++ [event]))
    rw [Course.ofEvents_snoc, waiting_snoc, startDates_snoc]
    cases event with
    | set id reading delay repeats =>
      -- its number is given out once, unless it is the last there is
      have hne : id ≠ x.id := by
        rintro rfl
        rcases hallowed _ x.event (by simp) hset with hlt | hlast
        · exact absurd hlt (Int.lt_irrefl _)
        · exact hid hlast
      rw [Course.next, if_neg hne, if_neg nofun, List.append_nil]
      exact ⟨hdates, hown, hnone⟩
    | cleared id =>
      rw [Course.next, if_neg nofun, List.append_nil]
      exact ⟨hdates, hown, hnone⟩
    | due reading ids =>
      rw [Course.next, if_pos hown, if_neg nofun, List.append_nil]
      exact ⟨hdates, hown, nofun⟩
    | started id =>
      by_cases heq : id = x.id
      · subst heq
        rw [Course.next, if_pos rfl, if_pos rfl]
        -- what starts has waited in a batch, so there is a reading to date it by
        have hwait : x.id ∈ waiting ((before ++ (date, x.event) :: after).map Prod.snd) :=
          List.mem_of_head? hallowed
        obtain ⟨batch, hbatch⟩ := Option.ne_none_iff_exists'.1 fun hbatch => hnone hbatch hwait
        refine ⟨?_, hown, fun hnot => absurd (hbatch.symm.trans hnot) (Option.some_ne_none batch)⟩
        rw [hbatch, List.map_append, hdates]
        rfl
      · have hne : TimerEvent.started id ≠ TimerEvent.started x.id :=
          fun hsame => heq (TimerEvent.started.inj hsame)
        rw [Course.next, if_neg heq, if_neg hne, List.append_nil]
        exact ⟨hdates, hown, fun hbatch hwait => hnone hbatch (List.mem_of_mem_tail hwait)⟩

/-! ## Starts -/

namespace Setting

variable {x : Setting} {limits : Limits} {c : Course} {ids : List TimerId} {q : TimerQueue Closure}
  {now : Nat}

/-- The batches that were started are spaced as all batches are. -/
theorem OnCourse.spaced_batches (h : x.OnCourse limits ids q now c) : x.Spaced limits c.batches :=
  Spaced.of_append h.spaced

/-- No start comes before the timer has waited, as long as was asked for and no less than the least
interval if it repeats. -/
theorem OnCourse.waits (h : x.OnCourse limits ids q now c) :
    ∀ start ∈ c.starts, x.now + x.wait limits ≤ start.date := by
  intro start hstart
  have hfirst : ∀ batch ∈ c.batches, x.now + x.wait limits ≤ batch := by
    have htrans : IsTrans Nat fun a b => a + x.wait limits ≤ b := ⟨fun a b c hab hbc => by omega⟩
    exact (List.pairwise_cons.1 (List.isChain_iff_pairwise.1 h.spaced_batches.waits)).1
  exact Nat.le_trans (hfirst _ (List.mem_map_of_mem hstart)) (h.dated.late start hstart)

/-- A start comes before the next batch, which is spaced from its own. -/
theorem OnCourse.spaced_starts (h : x.OnCourse limits ids q now c) :
    c.starts.IsChain fun a b =>
      a.date ≤ b.batch ∧ a.batch + max (x.wait limits) shortestRearm ≤ b.batch := by
  have hwaits : c.starts.IsChain fun a b => a.batch + x.wait limits ≤ b.batch :=
    (List.isChain_map Start.batch).1 h.spaced_batches.waits.tail
  have hincreases : c.starts.IsChain fun a b => a.batch + 1 ≤ b.batch :=
    (List.isChain_map Start.batch).1 h.spaced_batches.increases
  rw [List.isChain_iff_getElem]
  intro i hi
  have hwait := hwaits.getElem i hi
  have hincrease := hincreases.getElem i hi
  refine ⟨h.dated.between.getElem i hi, ?_⟩
  dsimp only [shortestRearm]
  omega

/-- Of three starts in a row, the last one is spaced from the first one however late that was. -/
theorem OnCourse.third_start (h : x.OnCourse limits ids q now c) {i : Nat} {first third : Start}
    (hfirst : c.starts[i]? = some first) (hthird : c.starts[i + 2]? = some third) :
    first.date + max (x.wait limits) shortestRearm ≤ third.date := by
  obtain ⟨hi, rfl⟩ := List.getElem?_eq_some_iff.1 hthird
  obtain ⟨_, rfl⟩ := List.getElem?_eq_some_iff.1 hfirst
  have hbetween := (h.spaced_starts.getElem i (by omega)).1
  have hspaced : c.starts[i + 1].batch + max (x.wait limits) shortestRearm ≤ c.starts[i + 2].batch :=
    (h.spaced_starts.getElem (i + 1) hi).2
  have hlate := h.dated.late _ (List.getElem_mem hi)
  omega

end Setting

/-- A program that sets a timeout and an interval. -/
def metronome : Script.Program :=
  [.evaluate (.call "setTimeout" [.closure [] [], .literal (.int 5)]),
    .evaluate (.call "setInterval" [.closure [] [], .literal (.int 5)])]

/-- The clock is read late for both of them, and again. -/
def ticking : List Step := [.load (some metronome), .wind [17], .fire, .wind [30], .fire]

/-- A program that sets a timeout whose callback takes its time, and an interval of 10 ms behind it. -/
def slowNeighbour : Script.Program :=
  [.evaluate (.call "setTimeout" [.closure [] [.spin], .literal (.int 10)]),
    .evaluate (.call "setInterval"
      [.closure [] [.evaluate (.console "log" [.literal (.str "tick")])], .literal (.int 10)])]

end AppletHost.Sandbox
