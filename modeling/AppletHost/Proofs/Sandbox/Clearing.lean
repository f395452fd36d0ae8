import AppletHost.Proofs.Sandbox.Moments
import Mathlib.Data.List.Induction

/-!
# Clearing timers

`clearTimeout` and `clearInterval` take a timer out of the queue. But the timers that are due at one
moment are all taken out of the queue before the first of their callbacks runs, so a callback cannot
reach the ones of its own batch that are still to come: clearing them does nothing, and they are
started all the same. This is the one gap: a timer is started after it was cleared iff it was
waiting for its start in the batch that was being fired.

A history is `Lawful` when each of its events is allowed by the ones before it: only timers that are
set and not cleared since are taken as due, only when the batch before is through, and only the next
one of a batch is started. `Session.Timed` is what carries it through a run of the sandbox, deed by
deed:

> `waits_of_reachable`: at any moment the history is lawful, and tells which timers are waiting.
-/

namespace AppletHost.Sandbox

open Script (Closure)

/-! ## Lawful histories -/

/-- The timers of the batch after one more event. -/
def batchAfter (ids : List TimerId) : TimerEvent → List TimerId
  | .due _ taken => taken
  | .started _ => ids.tail
  | _ => ids

/-- The timers that were taken as due and whose callbacks have not been started yet. -/
def waiting (history : List TimerEvent) : List TimerId := history.foldl batchAfter []

/-- What waits of a batch is followed event by event. -/
theorem waiting_snoc (history : List TimerEvent) (event : TimerEvent) :
    waiting (history ++ [event]) = batchAfter (waiting history) event := by
  simp [waiting]

/-- The event sets the timer. -/
def Sets (id : TimerId) (event : TimerEvent) : Prop :=
  ∃ now delay repeats, event = .set id now delay repeats

/-- The timer was set, and not cleared since. -/
def Armed (history : List TimerEvent) (id : TimerId) : Prop :=
  ∃ before event after, history = before ++ event :: after ∧ Sets id event ∧ .cleared id ∉ after

/-- What may happen next. A new timer has a higher number than all before, until the numbers run
out. -/
def Allowed (history : List TimerEvent) : TimerEvent → Prop
  | .set id _ _ _ => ∀ id', ∀ event ∈ history, Sets id' event → id' < id ∨ id = lastTimerId
  | .cleared _ => True
  | .due _ ids => waiting history = [] ∧ ∀ id ∈ ids, Armed history id
  | .started id => (waiting history).head? = some id

/-- Every event was allowed when it happened. -/
def Lawful (history : List TimerEvent) : Prop :=
  ∀ before event after, history = before ++ event :: after → Allowed before event

theorem lawful_nil : Lawful [] := by
  intro before event after h
  cases before <;> cases h

/-- A history stays lawful under an event that is allowed after it. -/
theorem Lawful.snoc {history : List TimerEvent} {event : TimerEvent} (h : Lawful history)
    (hevent : Allowed history event) : Lawful (history ++ [event]) := by
  intro before event' after heq
  rcases List.eq_nil_or_concat after with rfl | ⟨after, last, rfl⟩
  · obtain ⟨rfl, hlast⟩ := List.append_inj' heq rfl
    cases hlast
    exact hevent
  · have heq' : history ++ [event] = (before ++ event' :: after) ++ [last] := by simpa using heq
    obtain ⟨rfl, -⟩ := List.append_inj' heq' rfl
    exact h before event' after rfl

/-- What was lawful in the end was so at every moment before. -/
theorem Lawful.of_append {before after : List TimerEvent} (h : Lawful (before ++ after)) :
    Lawful before := by
  intro front event back heq
  exact h front event (back ++ after) (by rw [heq]; simp)

theorem Lawful.allowed {history : List TimerEvent} {event : TimerEvent}
    (h : Lawful (history ++ [event])) : Allowed history event :=
  h history event [] rfl

/-- Clearing a timer disarms it until it is set again, which its number cannot be but at the end of
the range. -/
theorem not_armed_of_cleared {before after : List TimerEvent} {id : TimerId}
    (hset : ∀ event ∈ after, ¬ Sets id event) : ¬ Armed (before ++ .cleared id :: after) id := by
  rintro ⟨front, event, back, heq, hevent, hcleared⟩
  rcases List.append_eq_append_iff.mp heq with ⟨mid, hfront, hmid⟩ | ⟨mid, hbefore, hmid⟩
  · -- the clearing is not before the setting
    cases mid with
    | nil =>
      obtain ⟨now, delay, repeats, rfl⟩ := hevent
      cases hmid
    | cons x mid =>
      obtain ⟨-, rfl⟩ := List.cons.inj hmid
      exact hset event (by simp) hevent
  · cases mid with
    | nil =>
      obtain ⟨now, delay, repeats, rfl⟩ := hevent
      cases hmid
    | cons x mid =>
      obtain ⟨-, rfl⟩ := List.cons.inj hmid
      exact hcleared (by simp)

/-- A cleared timer that was not waiting for its start is not started. -/
theorem Lawful.not_started {before after : List TimerEvent} {id : TimerId}
    (h : Lawful (before ++ .cleared id :: after)) (hset : ∀ event ∈ after, ¬ Sets id event)
    (hwait : id ∉ waiting before) :
    id ∉ waiting (before ++ .cleared id :: after) ∧ .started id ∉ after := by
  induction after using List.reverseRecOn with
  | nil =>
    refine ⟨?_, List.not_mem_nil⟩
    rw [waiting_snoc]
    exact hwait
  | append_singleton after event ih =>
    rw [← List.cons_append, ← List.append_assoc] at h ⊢
    have hset' : ∀ event ∈ after, ¬ Sets id event :=
      fun e he => hset e (List.mem_append_left _ he)
    obtain ⟨hnot, hstart⟩ := ih h.of_append hset'
    have hallowed := h.allowed
    rw [waiting_snoc]
    cases event with
    | set | cleared => exact ⟨hnot, by simpa using hstart⟩
    | due now ids =>
      refine ⟨fun hid => ?_, by simpa using hstart⟩
      exact not_armed_of_cleared hset' (hallowed.2 id hid)
    | started id' =>
      have hne : id ≠ id' := by
        rintro rfl
        exact hnot (List.mem_of_head? hallowed)
      refine ⟨fun hid => hnot (List.mem_of_mem_tail hid), ?_⟩
      simpa [hne] using hstart

/-- A timer that is waiting for its start keeps waiting until it is started. -/
theorem Lawful.still_waiting {before after : List TimerEvent} {id : TimerId}
    (h : Lawful (before ++ after)) (hwait : id ∈ waiting before) (hstart : .started id ∉ after) :
    id ∈ waiting (before ++ after) := by
  induction after using List.reverseRecOn with
  | nil => rwa [List.append_nil]
  | append_singleton after event ih =>
    rw [← List.append_assoc] at h ⊢
    have hin := ih h.of_append fun hmem => hstart (List.mem_append_left _ hmem)
    have hallowed := h.allowed
    rw [waiting_snoc]
    cases event with
    | set | cleared => exact hin
    | due now ids => exact absurd (hallowed.1 ▸ hin) List.not_mem_nil
    | started id' =>
      have hne : id ≠ id' := by
        rintro rfl
        exact hstart (by simp)
      obtain ⟨rest, hrest⟩ := List.head?_eq_some_iff.mp hallowed
      rw [hrest] at hin ⊢
      exact List.mem_of_ne_of_mem hne hin

/-- A timer of a number that was set already is not set again, until the numbers run out. -/
theorem Lawful.sets_once {before after : List TimerEvent} {id : TimerId} {event : TimerEvent}
    (h : Lawful (before ++ after)) (hbefore : event ∈ before) (hevent : Sets id event)
    {event' : TimerEvent} (hafter : event' ∈ after) (hevent' : Sets id event') :
    id = lastTimerId := by
  obtain ⟨front, back, rfl⟩ := List.append_of_mem hafter
  obtain ⟨now, delay, repeats, rfl⟩ := hevent'
  have hallowed := h (before ++ front) (.set id now delay repeats) back (by simp)
  rcases hallowed id event (List.mem_append_left _ hbefore) hevent with hlt | heq
  · exact absurd hlt (Int.lt_irrefl id)
  · exact heq

/-! ## The queue -/

/-- The numbers of the live timers. -/
def TimerQueue.live {α : Type} (q : TimerQueue α) : List TimerId := q.timers.map Prod.fst

section Queue

variable {α : Type} {q : TimerQueue α}

theorem mem_live_of_timer? {id : TimerId} {timer : Timer α} (h : q.timer? id = some timer) :
    id ∈ q.live := by
  obtain ⟨front, back, heq, -⟩ := List.lookup_eq_some_iff.mp h
  simp [TimerQueue.live, heq]

/-- Taking a number out of the queue leaves the other live timers. -/
theorem mem_live_without (id id' : TimerId) :
    id' ∈ (q.without id).map Prod.fst ↔ id' ∈ q.live ∧ id' ≠ id := by
  simp [TimerQueue.without, TimerQueue.live]

/-- Taking the front appointment keeps a repeating timer and ends any other. -/
theorem live_settle (now : Nat) (id : TimerId) (timer : Timer α) (agenda : List Appointment) :
    (q.settle now id timer agenda).live ⊆ q.live := by
  intro id' h
  unfold TimerQueue.settle at h
  split at h
  · simp only [TimerQueue.live, List.map_map, List.mem_map] at h ⊢
    obtain ⟨t, ht, rfl⟩ := h
    refine ⟨t, ht, ?_⟩
    by_cases hid : t.1 = id
    · simp [hid]
    · simp [hid]
  · exact ((mem_live_without id id').mp h).1

/-- What is due was live, and what is live afterwards was live before. -/
theorem takeDue_live (q : TimerQueue α) (now : Nat) :
    (q.takeDue now).1.map Prod.fst ⊆ q.live ∧ (q.takeDue now).2.live ⊆ q.live ∧
      (q.takeDue now).2.nextId = q.nextId := by
  fun_induction TimerQueue.takeDue q now with
  | case1 q _ => exact ⟨List.nil_subset _, List.Subset.refl _, rfl⟩
  | case2 q a rest _ _ timer htimer later q' htake ih =>
    rw [htake] at ih
    obtain ⟨hdue, hlive, hnext⟩ := ih
    have hsettle := live_settle now a.id timer rest (q := q)
    refine ⟨?_, List.Subset.trans hlive hsettle, hnext.trans ?_⟩
    · exact List.cons_subset.mpr ⟨mem_live_of_timer? htimer, List.Subset.trans hdue hsettle⟩
    · unfold TimerQueue.settle
      split <;> rfl
  | case3 q a rest _ _ _ ih => exact ih
  | case4 q a rest _ _ => exact ⟨List.nil_subset _, List.Subset.refl _, rfl⟩

end Queue

/-! ## Sessions -/

/-- The history of a session is lawful, and it knows of every live timer and of every number that
was given out. -/
structure Session.Timed (history : List TimerEvent) (s : Session) : Prop where
  lawful : Lawful history
  armed : ∀ id ∈ s.timers.live, Armed history id
  given : ∀ id, ∀ event ∈ history, Sets id event →
    id < s.timers.nextId ∨ s.timers.nextId = lastTimerId
  bounded : s.timers.nextId ≤ lastTimerId

/-- The session is timed, and these timers are waiting for their start. -/
def Session.Waits (ids : List TimerId) (history : List TimerEvent) (s : Session) : Prop :=
  s.Timed history ∧ waiting history = ids

/-- A timer stays armed under every event but its own clearing. -/
theorem Armed.snoc {history : List TimerEvent} {id : TimerId} {event : TimerEvent}
    (h : Armed history id) (hevent : event ≠ .cleared id) : Armed (history ++ [event]) id := by
  obtain ⟨before, setting, after, rfl, hset, hcleared⟩ := h
  refine ⟨before, setting, after ++ [event], by simp, hset, ?_⟩
  simpa [hcleared] using hevent.symm

section Waits

variable {ids : List TimerId} {history : List TimerEvent} {s s' : Session}

/-- What ends timers, or leaves them alone, and is nothing for the history. -/
theorem Session.Waits.quiet (h : s.Waits ids history) (hlive : s'.timers.live ⊆ s.timers.live)
    (hnext : s'.timers.nextId = s.timers.nextId) : s'.Waits ids history := by
  obtain ⟨⟨hlawful, harmed, hgiven, hbounded⟩, hwait⟩ := h
  refine ⟨⟨hlawful, fun id hid => harmed id (hlive hid), ?_, ?_⟩, hwait⟩
  · rwa [hnext]
  · rwa [hnext]

/-- What ends timers, or leaves them alone, and is an event that sets none. -/
theorem Session.Waits.noted (h : s.Waits ids history) (event : TimerEvent)
    (hallowed : Allowed history event) (hset : ∀ id, ¬ Sets id event)
    (hlive : ∀ id ∈ s'.timers.live, id ∈ s.timers.live ∧ event ≠ .cleared id)
    (hnext : s'.timers.nextId = s.timers.nextId) :
    s'.Waits (batchAfter ids event) (history ++ [event]) := by
  obtain ⟨⟨hlawful, harmed, hgiven, hbounded⟩, hwait⟩ := h
  refine ⟨⟨hlawful.snoc hallowed, ?_, ?_, ?_⟩, ?_⟩
  · intro id hid
    exact (harmed id (hlive id hid).1).snoc (hlive id hid).2
  · intro id event' hevent' hset'
    rw [hnext]
    rcases List.mem_append.mp hevent' with hold | hnew
    · exact hgiven id event' hold hset'
    · rw [List.mem_singleton.mp hnew] at hset'
      exact absurd hset' (hset id)
  · rwa [hnext]
  · rw [waiting_snoc, hwait]

/-- The next number to be given out is above all that were, or they have run out. -/
theorem lt_next_number {id next : Int} (h : id ≤ next ∨ next = lastTimerId)
    (hnext : next ≤ lastTimerId) :
    id < min (next + 1) lastTimerId ∨ min (next + 1) lastTimerId = lastTimerId := by
  omega

/-- While there is room a timer is set, with the next number. -/
theorem addTimer_of_room (hroom : s.timers.size < s.limits.maxTimers) (callback : Closure)
    (delay : Int) (repeats : Bool) :
    timerEvents s (.use (.addTimer callback delay repeats)) =
        [.set s.timers.nextId s.clock.read.1 delay repeats] ∧
      s.after (.use (.addTimer callback delay repeats)) = { s with
        timers := (s.timers.schedule s.clock.read.1 callback
          (Session.delayOf s.limits delay repeats) repeats).2
        clock := s.clock.read.2 } := by
  rw [timerEvents, Session.after, Session.answer, Session.addTimer, if_neg (Nat.not_le.mpr hroom)]
  exact ⟨rfl, rfl⟩

/-- Without room nothing happens: no timer is set, and the session is as it was. -/
theorem addTimer_of_full (hfull : s.limits.maxTimers ≤ s.timers.size) (callback : Closure)
    (delay : Int) (repeats : Bool) :
    timerEvents s (.use (.addTimer callback delay repeats)) = [] ∧
      s.after (.use (.addTimer callback delay repeats)) = s := by
  rw [timerEvents, Session.after, Session.answer, Session.addTimer, if_pos hfull]
  exact ⟨rfl, rfl⟩

/-- A timer that is added is live under a new number, and armed from then on. -/
theorem Session.Waits.addTimer (h : s.Waits ids history) (callback : Closure) (delay : Int)
    (repeats : Bool) : (s.after (.use (.addTimer callback delay repeats))).Waits ids
      (history ++ timerEvents s (.use (.addTimer callback delay repeats))) := by
  by_cases hfull : s.limits.maxTimers ≤ s.timers.size
  · obtain ⟨hevents, hafter⟩ := addTimer_of_full hfull callback delay repeats
    rw [hevents, hafter, List.append_nil]
    exact h
  · obtain ⟨hevents, hafter⟩ := addTimer_of_room (Nat.lt_of_not_le hfull) callback delay repeats
    obtain ⟨⟨hlawful, harmed, hgiven, hbounded⟩, hwait⟩ := h
    have hset : ∀ id now delay repeats, Sets id (.set s.timers.nextId now delay repeats) →
        id = s.timers.nextId := by
      rintro id now delay repeats ⟨_, _, _, heq⟩
      cases heq
      rfl
    rw [hevents, hafter]
    refine ⟨⟨?_, ?_, ?_, ?_⟩, ?_⟩
    · exact hlawful.snoc fun id event hevent hsets => hgiven id event hevent hsets
    · intro id hid
      have hid' : id ∈ s.timers.live ∧ id ≠ s.timers.nextId ∨ id = s.timers.nextId := by
        simpa [TimerQueue.schedule, TimerQueue.live, TimerQueue.without] using hid
      rcases hid' with ⟨hlive, -⟩ | rfl
      · refine (harmed id hlive).snoc ?_
        rintro ⟨⟩
      · exact ⟨history, _, [], rfl, ⟨_, _, _, rfl⟩, List.not_mem_nil⟩
    · intro id event hevent hsets
      refine lt_next_number ?_ hbounded
      rcases List.mem_append.mp hevent with hold | hnew
      · exact (hgiven id event hold hsets).imp_left Int.le_of_lt
      · rw [List.mem_singleton.mp hnew] at hsets
        exact Or.inl (Int.le_of_eq (hset id _ _ _ hsets))
    · exact Int.min_le_right _ _
    · exact (waiting_snoc _ _).trans hwait

/-- A timer that is cleared is live no more. In the batch that waits it stays where it is. -/
theorem Session.Waits.clearTimer (h : s.Waits ids history) (id : TimerId) :
    (s.clearTimer id).Waits ids (history ++ [.cleared id]) := by
  refine h.noted (.cleared id) trivial ?_ ?_ rfl
  · rintro id' ⟨_, _, _, heq⟩
    cases heq
  · intro id' hid'
    have hlive := (mem_live_without id id').mp hid'
    exact ⟨hlive.1, fun heq => hlive.2 (by cases heq; rfl)⟩

/-- Whatever logic asks for lets the timers of a batch wait. -/
theorem Session.Waits.use (h : s.Waits ids history) (call : HostCall) :
    (s.after (.use call)).Waits ids (history ++ timerEvents s (.use call)) := by
  have hquiet : ∀ s' : Session, s'.timers = s.timers → s'.Waits ids (history ++ []) := by
    intro s' htimers
    rw [List.append_nil]
    exact h.quiet (by rw [htimers]; exact List.Subset.refl _) (by rw [htimers])
  cases call with
  | setData update =>
    refine hquiet _ ?_
    show (s.setData update).2.timers = s.timers
    unfold Session.setData
    split <;> rfl
  | register app =>
    refine hquiet _ ?_
    show (s.register app).2.timers = s.timers
    unfold Session.register
    split <;> rfl
  | log level args => exact hquiet _ rfl
  | addTimer callback delay repeats => exact h.addTimer callback delay repeats
  | clearTimer id => exact h.clearTimer id

/-- Whatever is no matter of batches lets the timers of a batch wait. -/
theorem Session.Waits.deed (h : s.Waits ids history) {d : Deed} (hd : d.isOfBatch = false) :
    (s.after d).Waits ids (history ++ timerEvents s d) := by
  have hnone : s.Waits ids (history ++ []) := by
    rw [List.append_nil]
    exact h
  cases d with
  | use call => exact h.use call
  | due | start => cases hd
  | clearTimers => exact hnone.quiet (List.nil_subset _) rfl
  | visit | track | untrack | report | wind | read | look | takeRegistration | initData =>
    exact hnone.quiet (List.Subset.refl _) rfl

/-- Taking what is due makes it wait for its start. Those that wait are the batch, in its order, and
each of them was armed. -/
theorem Session.Waits.takeDueTimers (h : s.Waits [] history) (now : Nat) :
    (s.takeDueTimers now).2.Waits ((s.takeDueTimers now).1.map Prod.fst)
      (history ++ timerEvents s (.due now)) := by
  obtain ⟨hdue, hlive, hnext⟩ := takeDue_live s.timers now
  refine h.noted (.due now ((s.takeDueTimers now).1.map Prod.fst))
    ⟨h.2, fun id hid => h.1.armed id (hdue hid)⟩ ?_ ?_ hnext
  · rintro id ⟨_, _, _, heq⟩
    cases heq
  · exact fun id hid => ⟨hlive hid, nofun⟩

/-- A start takes the first timer off the batch, cleared or not. This is where a cleared timer still
fires. -/
theorem Session.Waits.started {id : TimerId} (h : s.Waits (id :: ids) history) :
    s.Waits ids (history ++ timerEvents s (.start id)) := by
  refine h.noted (.started id) ?_ ?_ (fun id hid => ⟨hid, nofun⟩) rfl
  · rw [Allowed, h.2]
    rfl
  · rintro id ⟨_, _, _, heq⟩
    cases heq

/-! ## Sandboxes -/

/-- At any moment the history is lawful, and it tells which timers are waiting. -/
theorem waits_of_reachable {app : String} {limits : Limits}
    (h : Session.Reachable app limits ids history s) : s.Waits ids history := by
  induction h with
  | create =>
    have hbounded : (1 : Int) ≤ lastTimerId := by decide
    exact ⟨⟨lawful_nil, nofun, nofun, hbounded⟩, rfl⟩
  | deed _ hd ih => exact ih.deed hd
  | due _ ih => exact ih.takeDueTimers _
  | started _ ih => exact ih.started

end Waits

/-- Between the steps of a sandbox no timer is waiting for its start. -/
theorem waits_run (app : String) (limits : Limits) (steps : List Step) :
    ((Actor.create app limits).run steps).engine.session.Waits []
      ((Actor.create app limits).history steps) :=
  waits_of_reachable (reachable_run app limits steps)

/--
In every run, a timer that is cleared is started afterwards iff, at the clearing, it was waiting for
its start in the batch that was being fired. This is said of timers that are not set after the
clearing, which no timer is that was set before, until the numbers of timers run out. (The history is
that of the deeds by which the session of the run has come about.)
-/
theorem started_after_clearing_iff (app : String) (limits : Limits) (steps : List Step)
    (before after : List TimerEvent) (id : TimerId)
    (h : (Actor.create app limits).history steps = before ++ .cleared id :: after) :
    ((∀ event ∈ after, ¬ Sets id event) → (.started id ∈ after ↔ id ∈ waiting before)) ∧
      ((∃ event ∈ before, Sets id event) → id ≠ lastTimerId →
        ∀ event ∈ after, ¬ Sets id event) ∧
      ((Actor.create app limits).run steps).engine.session =
        (Actor.create app limits).engine.session.afterAll ((Actor.create app limits).deeds steps) := by
  obtain ⟨⟨hlawful, -, -, -⟩, hwait⟩ := waits_run app limits steps
  rw [h] at hlawful hwait
  refine ⟨?_, ?_, Actor.run_session _ steps⟩
  · intro hset
    constructor
    · intro hstart
      -- a number that nobody waits for can only be started after it was set
      by_contra hnot
      exact (hlawful.not_started hset hnot).2 hstart
    · intro hin
      -- and one that somebody waits for leaves the batch in no other way
      by_contra hstart
      have hstart' : .started id ∉ TimerEvent.cleared id :: after := by simpa using hstart
      have hstill := hlawful.still_waiting hin hstart'
      rw [hwait] at hstill
      cases hstill
  · rintro ⟨event, hevent, hsets⟩ hne event' hevent' hsets'
    exact hne (hlawful.sets_once hevent hsets (List.mem_cons_of_mem _ hevent') hsets')

/-- Two timeouts that are due at once, of which the first one clears the second. -/
def clearsNext : Script.Program :=
  [.evaluate (.call "setTimeout"
      [.closure [] [.evaluate (.call "clearTimeout" [.literal (.int 2)])], .literal (.int 10)]),
    .evaluate (.call "setTimeout" [.closure [] [], .literal (.int 10)])]

/-- What becomes of the two timeouts when the time has come. -/
def clearsNextHistory : List TimerEvent :=
  (Actor.create "demo" .standard).history [.load (some clearsNext), .wind [10], .fire]

/-- The second timeout is set, cleared by the first one, and started all the same. -/
theorem cleared_in_batch_is_started :
    ∃ before after, clearsNextHistory = before ++ .cleared 2 :: after ∧
      (∃ event ∈ before, Sets 2 event) ∧ .started 2 ∈ after := by
  refine ⟨[.set 1 0 10 false, .set 2 0 10 false, .due 10 [1, 2], .started 1], [.started 2], ?_,
    ⟨.set 2 0 10 false, by simp, ⟨0, 10, false, rfl⟩⟩, by simp⟩
  decide +kernel

/-- At that clearing, the second timeout was waiting for its start. -/
theorem started_iff_waiting_clearsNext :
    ∃ before after, clearsNextHistory = before ++ .cleared 2 :: after ∧
      (∀ event ∈ after, ¬ Sets 2 event) ∧ (.started 2 ∈ after ↔ 2 ∈ waiting before) := by
  have hrun : clearsNextHistory = [.set 1 0 10 false, .set 2 0 10 false, .due 10 [1, 2],
      .started 1] ++ .cleared 2 :: [.started 2] := by decide +kernel
  obtain ⟨hiff, hset, -⟩ := started_after_clearing_iff "demo" .standard _ _ _ 2 hrun
  have hfree := hset ⟨.set 2 0 10 false, by simp, ⟨0, 10, false, rfl⟩⟩ (by decide)
  exact ⟨_, _, hrun, hfree, hiff hfree⟩

end AppletHost.Sandbox
