import AppletHost.Sandbox.Timers
import Mathlib

/-!
# Timers as a timetable

Seen from outside, a queue of timers is a table: which timers are live, each with its callback, its
interval and its deadline, and how many numbers were given out. `Timetable.Step` says of each use of
the queue what it answers and what it makes of the table; there is no agenda in it and nothing stale.

The queue itself never looks through its timers. What makes the front of its agenda the right answer
is `TimerQueue.Kept`: the agenda is in order, and every live timer has its appointment on it. All
other appointments are stale, and nothing more need be known of them.

> `takeDue_takes`: one call hands out the due timers, each once and in the order of the table;
> `step_of_serve`: each use of the queue is a step of its table.

A timer that was handed out is gone or has a deadline after `now`, so it is not handed out again by
the same call. The same fact ends the loop (`dueCount_of_turn`), and it is the reason why an interval
waits a millisecond at least.
-/

namespace AppletHost.Sandbox

variable {α : Type}

/-! ## Tables -/

/-- The live timers by number, and the last number that was given out. -/
structure Timetable (α : Type) where
  timer? : TimerId → Option (Timer α)
  last : TimerId

/-- What is left of a timer when those that are due at `now` were taken: if it was due, it is armed
anew from `now` if it repeats, and a millisecond later at least. -/
def Timer.taken (now : Nat) (timer : Timer α) : Option (Timer α) :=
  if timer.deadline ≤ now then
    timer.interval.map fun interval => { timer with deadline := now + max interval 1 }
  else some timer

/-- A use of the timers. -/
inductive TimerCall (α : Type) where
  | schedule (now : Nat) (callback : α) (delay : Nat) (repeats : Bool)
  | cancel (id : TimerId)
  | nextDeadline
  | takeDue (now : Nat)
  | clear

/-- What comes back. -/
inductive TimerAnswer (α : Type) where
  | scheduled (id : TimerId)
  | cancelled (wasLive : Bool)
  | deadline (earliest : Option Nat)
  | taken (due : List (TimerId × α))
  | cleared
deriving DecidableEq

/-- The number of the new timer, if one was set. -/
def TimerAnswer.scheduled? : TimerAnswer α → Option TimerId
  | .scheduled id => some id
  | _ => none

/-- A new timer is set. -/
def TimerCall.isSchedule : TimerCall α → Bool
  | .schedule .. => true
  | _ => false

namespace Timetable

/-- No timer is live, and no number was given out. -/
def empty : Timetable α := ⟨fun _ => none, 0⟩

/-- The table with another entry for one timer. -/
def put (t : Timetable α) (id : TimerId) (timer : Option (Timer α)) : Timetable α :=
  { t with timer? := Function.update t.timer? id timer }

/-- The earliest deadline of all live timers, if there are any. -/
def IsEarliest (t : Timetable α) : Option Nat → Prop
  | none => ∀ id, t.timer? id = none
  | some deadline => (∃ id timer, t.timer? id = some timer ∧ timer.deadline = deadline) ∧
      ∀ id timer, t.timer? id = some timer → deadline ≤ timer.deadline

/-- Of two live timers the first one comes due first: by deadline, then by number. -/
def Before (t : Timetable α) (a b : TimerId) : Prop :=
  ∃ x y, t.timer? a = some x ∧ t.timer? b = some y ∧
    (x.deadline < y.deadline ∨ x.deadline = y.deadline ∧ a < b)

/-- The live timers that are due at `now`, in order. -/
structure AreDue (t : Timetable α) (now : Nat) (due : List (TimerId × α)) : Prop where
  ordered : (due.map Prod.fst).Pairwise t.Before
  exact : ∀ id callback, (id, callback) ∈ due ↔
    ∃ timer, t.timer? id = some timer ∧ timer.deadline ≤ now ∧ timer.callback = callback

/-- What a use of the timers answers, and what it makes of the table. -/
inductive Step (t : Timetable α) : TimerCall α → TimerAnswer α → Timetable α → Prop
  | schedule (now : Nat) (callback : α) (delay : Nat) (repeats : Bool)
      (unused : t.timer? (t.last + 1) = none) :
      Step t (.schedule now callback delay repeats) (.scheduled (t.last + 1))
        { t.put (t.last + 1) (some ⟨callback, if repeats then some delay else none, now + delay⟩) with
          last := t.last + 1 }
  | cancel (id : TimerId) : Step t (.cancel id) (.cancelled (t.timer? id).isSome) (t.put id none)
  | nextDeadline (earliest : Option Nat) (right : t.IsEarliest earliest) :
      Step t .nextDeadline (.deadline earliest) t
  | takeDue (now : Nat) (due : List (TimerId × α)) (right : t.AreDue now due) :
      Step t (.takeDue now) (.taken due)
        { t with timer? := fun id => (t.timer? id).bind (Timer.taken now) }
  | clear : Step t .clear .cleared { t with timer? := fun _ => none }

/-- The timers are used again and again. -/
inductive Run : Timetable α → List (TimerCall α) → List (TimerAnswer α) → Timetable α → Prop
  | nil (t : Timetable α) : Run t [] [] t
  | cons {t t' t'' : Timetable α} {call : TimerCall α} {answer : TimerAnswer α}
      {calls : List (TimerCall α)} {answers : List (TimerAnswer α)}
      (first : Step t call answer t') (rest : Run t' calls answers t'') :
      Run t (call :: calls) (answer :: answers) t''

/-! ### A table leaves nothing open -/

/-- A table has one earliest deadline, or none; what describes it leaves no choice. -/
theorem IsEarliest.unique {t : Timetable α} {a b : Option Nat} (ha : t.IsEarliest a)
    (hb : t.IsEarliest b) : a = b := by
  cases a with
  | none =>
    cases b with
    | none => rfl
    | some d =>
      obtain ⟨⟨id, timer, htimer, -⟩, -⟩ := hb
      rw [ha id] at htimer
      cases htimer
  | some d =>
    obtain ⟨⟨id, timer, htimer, hd⟩, hleast⟩ := ha
    cases b with
    | none =>
      rw [hb id] at htimer
      cases htimer
    | some d' =>
      obtain ⟨⟨id', timer', htimer', hd'⟩, hleast'⟩ := hb
      have h := hleast id' timer' htimer'
      have h' := hleast' id timer htimer
      rw [show d = d' by omega]

/-- No timer comes before itself, and of two only one before the other. -/
theorem Before.asymm {t : Timetable α} {a b : TimerId} (h : t.Before a b) : ¬ t.Before b a := by
  intro h'
  obtain ⟨x, y, hx, hy, hlt⟩ := h
  obtain ⟨y', x', hy', hx', hlt'⟩ := h'
  obtain rfl := Option.some.inj (hx.symm.trans hx')
  obtain rfl := Option.some.inj (hy.symm.trans hy')
  rcases hlt with hlt | ⟨heq, hid⟩
  · omega
  · rcases hlt' with hlt' | ⟨-, hid'⟩
    · omega
    · exact absurd hid' (Int.lt_asymm hid)

/-- Nor does it leave a choice which timers are due and in which order: they are sorted by deadline
and number, and the numbers are distinct. -/
theorem AreDue.unique {t : Timetable α} {now : Nat} {due due' : List (TimerId × α)}
    (h : t.AreDue now due) (h' : t.AreDue now due') : due = due' := by
  let R : TimerId × α → TimerId × α → Prop := fun x y => t.Before x.1 y.1
  have hirrefl : Std.Irrefl R := ⟨fun x hx => hx.asymm hx⟩
  have hantisymm : Std.Antisymm R := ⟨fun x y hxy hyx => absurd hyx hxy.asymm⟩
  refine (List.pairwise_map.1 h.ordered : due.Pairwise R).eq_of_mem_iff
    (List.pairwise_map.1 h'.ordered) ?_
  intro (id, callback)
  rw [h.exact, h'.exact]

/-- So each call of the plain table has one answer and one table after it, though it is given as a
relation. -/
theorem Step.unique {t t' t'' : Timetable α} {call : TimerCall α} {answer answer' : TimerAnswer α}
    (h : t.Step call answer t') (h' : t.Step call answer' t'') : answer = answer' ∧ t' = t'' := by
  cases h with
  | schedule now callback delay repeats unused =>
    cases h'
    exact ⟨rfl, rfl⟩
  | cancel id =>
    cases h'
    exact ⟨rfl, rfl⟩
  | nextDeadline earliest right =>
    cases h' with
    | nextDeadline earliest' right' => exact ⟨congrArg _ (right.unique right'), rfl⟩
  | takeDue now due right =>
    cases h' with
    | takeDue _ due' right' => exact ⟨congrArg _ (right.unique right'), rfl⟩
  | clear =>
    cases h'
    exact ⟨rfl, rfl⟩

/-- And so have the calls of a run, one after another. This is why an implementation that refines the
table answers as any other that does. -/
theorem Run.unique {t t' t'' : Timetable α} {calls : List (TimerCall α)}
    {answers answers' : List (TimerAnswer α)} (h : Run t calls answers t')
    (h' : Run t calls answers' t'') : answers = answers' ∧ t' = t'' := by
  induction h generalizing answers' with
  | nil t =>
    cases h'
    exact ⟨rfl, rfl⟩
  | cons first rest ih =>
    cases h' with
    | cons first' rest' =>
      obtain ⟨rfl, rfl⟩ := first.unique first'
      obtain ⟨rfl, rfl⟩ := ih rest'
      exact ⟨rfl, rfl⟩

/-- New timers get numbers above all that were given out, each above the one before. -/
theorem Run.increasing {t t' : Timetable α} {calls : List (TimerCall α)}
    {answers : List (TimerAnswer α)} (h : Run t calls answers t') :
    (t.last :: answers.filterMap TimerAnswer.scheduled?).Pairwise (· < ·) := by
  induction h with
  | nil t => exact List.pairwise_singleton _ _
  | cons first rest ih =>
    cases first with
    | schedule now callback delay repeats unused =>
      refine List.pairwise_cons.2 ⟨?_, ih⟩
      intro id hid
      rcases List.mem_cons.1 hid with rfl | hid
      · exact Int.lt_succ _
      · exact Int.lt_trans (Int.lt_succ _) ((List.pairwise_cons.1 ih).1 id hid)
    | cancel id => exact ih
    | nextDeadline earliest right => exact ih
    | takeDue now due right => exact ih
    | clear => exact ih

end Timetable

/-! ## Agendas -/

namespace Appointment

/-- The order on the agenda is that of the pairs of deadline and number, the deadline first. -/
theorem precedes_iff (a b : Appointment) :
    a.precedes b ↔ a.deadline < b.deadline ∨ a.deadline = b.deadline ∧ a.id ≤ b.id := by
  simp [precedes]

/-- An order by pairs of numbers is transitive; sorted insertion rests on it. -/
theorem precedes_trans {a b c : Appointment} (h : a.precedes b) (h' : b.precedes c) :
    a.precedes c := by
  rw [precedes_iff] at h h' ⊢
  rcases h with h | ⟨heq, hid⟩
  · left
    omega
  · rcases h' with h' | ⟨heq', hid'⟩
    · left
      omega
    · exact Or.inr ⟨heq.trans heq', Int.le_trans hid hid'⟩

/-- Of two appointments one precedes the other, so the search for a place on the agenda may stop at
the first that does not. -/
theorem precedes_of_not {a b : Appointment} (h : ¬ a.precedes b) : b.precedes a := by
  rw [precedes_iff] at h ⊢
  by_cases heq : a.deadline = b.deadline
  · refine Or.inr ⟨heq.symm, Int.le_of_not_le fun hid => h (Or.inr ⟨heq, hid⟩)⟩
  · left
    omega

/-- Entering an appointment keeps all the others and adds this one, wherever it finds its place. -/
theorem mem_enter {a b : Appointment} {agenda : List Appointment} :
    b ∈ a.enter agenda ↔ b = a ∨ b ∈ agenda := by
  induction agenda with
  | nil => rw [enter, List.mem_singleton, or_iff_left List.not_mem_nil]
  | cons c rest ih =>
    rw [enter]
    split
    · exact List.mem_cons
    · rw [List.mem_cons, ih, List.mem_cons]
      exact or_left_comm

/-- The agenda is in order. -/
def Ordered (agenda : List Appointment) : Prop := agenda.Pairwise fun a b => a.precedes b

/-- An appointment is entered where the order wants it, so a sorted agenda stays sorted. -/
theorem Ordered.enter {agenda : List Appointment} (h : Ordered agenda) (a : Appointment) :
    Ordered (a.enter agenda) := by
  induction agenda with
  | nil => exact List.pairwise_singleton _ _
  | cons b rest ih =>
    obtain ⟨hb, hrest⟩ := List.pairwise_cons.1 h
    rw [Appointment.enter]
    split
    next hprecedes =>
      refine List.pairwise_cons.2 ⟨?_, h⟩
      intro c hc
      rcases List.mem_cons.1 hc with rfl | hc
      · exact hprecedes
      · exact precedes_trans hprecedes (hb c hc)
    next hnot =>
      refine List.pairwise_cons.2 ⟨?_, ih hrest⟩
      intro c hc
      rcases mem_enter.1 hc with rfl | hc
      · exact precedes_of_not hnot
      · exact hb c hc

end Appointment

/-! ## The queue and its table -/

namespace TimerQueue

/-- The table of a queue. -/
def table (q : TimerQueue α) : Timetable α := ⟨q.timer?, q.nextId - 1⟩

/-- What a use of the queue answers, and what becomes of the queue. -/
def serve (q : TimerQueue α) : TimerCall α → TimerAnswer α × TimerQueue α
  | .schedule now callback delay repeats =>
    (.scheduled (q.schedule now callback delay repeats).1, (q.schedule now callback delay repeats).2)
  | .cancel id => (.cancelled (q.cancel id).1, (q.cancel id).2)
  | .nextDeadline => (.deadline q.nextDeadline.1, q.nextDeadline.2)
  | .takeDue now => (.taken (q.takeDue now).1, (q.takeDue now).2)
  | .clear => (.cleared, q.clear)

/-- The queue is used again and again. -/
def serveAll (q : TimerQueue α) : List (TimerCall α) → List (TimerAnswer α) × TimerQueue α
  | [] => ([], q)
  | call :: calls =>
    ((q.serve call).1 :: ((q.serve call).2.serveAll calls).1, ((q.serve call).2.serveAll calls).2)

/-- The agenda is in order, and every live timer has its appointment on it. -/
structure Kept (q : TimerQueue α) : Prop where
  ordered : Appointment.Ordered q.agenda
  booked : ∀ id timer, q.timer? id = some timer → ⟨timer.deadline, id⟩ ∈ q.agenda

/-! ### Looking timers up -/

/-- Filtering a number out of an association list is a lookup that finds nothing there and everything
elsewhere as before. -/
theorem lookup_filter_ne (timers : List (TimerId × Timer α)) (id other : TimerId) :
    (timers.filter fun t => t.1 != id).lookup other =
      if other = id then none else timers.lookup other := by
  induction timers with
  | nil => simp
  | cons t rest ih =>
    obtain ⟨k, timer⟩ := t
    by_cases hk : k = id
    · subst hk
      rw [List.filter_cons_of_neg (by simp), ih]
      by_cases hother : other = k
      · rw [if_pos hother, if_pos hother]
      · rw [if_neg hother, if_neg hother, List.lookup_cons, beq_false_of_ne hother]
    · rw [List.filter_cons_of_pos (by simpa using hk)]
      by_cases hother : other = k
      · subst hother
        simp [hk]
      · simp [ih, List.lookup_cons, beq_false_of_ne hother]

/-- Without one timer, all others are found as before; the queue as a function is updated at one
number. -/
theorem lookup_without (q : TimerQueue α) (id : TimerId) :
    (fun other => (q.without id).lookup other) = Function.update q.timer? id none := by
  funext other
  rw [without, lookup_filter_ne, Function.update_apply]
  rfl

/-- Replacing the entry of a number is a lookup that finds the new one there, if there was one, and
all others as before. -/
theorem lookup_map_ne (timers : List (TimerId × Timer α)) (id other : TimerId) (timer : Timer α) :
    (timers.map fun t => if t.1 = id then (id, timer) else t).lookup other =
      if other = id then (timers.lookup id).map fun _ => timer else timers.lookup other := by
  induction timers with
  | nil => simp
  | cons t rest ih =>
    obtain ⟨k, old⟩ := t
    by_cases hk : k = id
    · subst hk
      by_cases hother : other = k
      · simp [hother]
      · simp [ih, hother, List.lookup_cons, beq_false_of_ne hother]
    · by_cases hother : other = id
      · subst hother
        simp [ih, hk, List.lookup_cons, beq_false_of_ne (Ne.symm hk)]
      · by_cases hkother : other = k
        · subst hkother
          simp [hk]
        · simp [ih, hk, hother, List.lookup_cons, beq_false_of_ne hkother]

/-! ### The front of the agenda -/

section Kept

variable {q : TimerQueue α}

/-- The appointment of a live timer is not dropped: it is booked for the deadline that the timer has
now. -/
theorem Kept.mem_current (h : q.Kept) {id : TimerId} {timer : Timer α}
    (hlive : q.timer? id = some timer) : ⟨timer.deadline, id⟩ ∈ q.current := by
  have hmem := h.booked id timer hlive
  have hsplit : q.agenda.takeWhile q.isStale ++ q.current = q.agenda :=
    List.takeWhile_append_dropWhile
  rw [← hsplit] at hmem
  rcases List.mem_append.1 hmem with hstale | hcurrent
  · have hdropped := List.mem_takeWhile_imp hstale
    simp [isStale, hlive] at hdropped
  · exact hcurrent

theorem Kept.ordered_current (h : q.Kept) : Appointment.Ordered q.current :=
  h.ordered.sublist (List.dropWhile_sublist _)

/-- The front of the current agenda is the appointment of a live timer. -/
theorem exists_front {a : Appointment} {rest : List Appointment} (hfront : q.current = a :: rest) :
    ∃ timer, q.timer? a.id = some timer ∧ timer.deadline = a.deadline := by
  have hfresh := List.head?_dropWhile_not q.isStale q.agenda
  rw [show q.agenda.dropWhile q.isStale = a :: rest from hfront] at hfresh
  have hnot : q.isStale a = false := hfresh
  rw [isStale] at hnot
  cases hlive : q.timer? a.id with
  | none =>
    rw [hlive] at hnot
    cases hnot
  | some timer =>
    rw [hlive] at hnot
    exact ⟨timer, rfl, by simpa using hnot⟩

/-- No live timer comes due before the front of the current agenda. -/
theorem Kept.front_le (h : q.Kept) {a : Appointment} {rest : List Appointment}
    (hfront : q.current = a :: rest) {id : TimerId} {timer : Timer α}
    (hlive : q.timer? id = some timer) :
    a.deadline < timer.deadline ∨ a.deadline = timer.deadline ∧ a.id ≤ id := by
  have hmem := h.mem_current hlive
  have hordered := h.ordered_current
  rw [hfront] at hmem hordered
  rcases List.mem_cons.1 hmem with rfl | hrest
  · exact Or.inr ⟨rfl, Int.le_refl _⟩
  · exact (Appointment.precedes_iff _ _).1 ((List.pairwise_cons.1 hordered).1 _ hrest)

/-- When no appointment is current, no timer is live: each live timer has one, at its own deadline. -/
theorem Kept.no_timer (h : q.Kept) (hempty : q.current = []) (id : TimerId) :
    q.timer? id = none := by
  cases hlive : q.timer? id with
  | none => rfl
  | some timer =>
    have hmem := h.mem_current hlive
    rw [hempty] at hmem
    cases hmem

/-- The earliest deadline is the one at the front of the current agenda. -/
theorem Kept.isEarliest (h : q.Kept) : q.table.IsEarliest q.nextDeadline.1 := by
  cases hfront : q.current with
  | nil =>
    rw [nextDeadline, hfront]
    exact h.no_timer hfront
  | cons a rest =>
    obtain ⟨timer, hlive, hdeadline⟩ := exists_front hfront
    rw [nextDeadline, hfront]
    refine ⟨⟨a.id, timer, hlive, hdeadline⟩, ?_⟩
    intro id timer' hlive'
    have hle := h.front_le hfront hlive'
    show a.deadline ≤ timer'.deadline
    omega

/-- Dropping stale appointments keeps all others, so it may be done at any time without being
noticed. -/
theorem Kept.drop (h : q.Kept) {agenda : List Appointment} (hagenda : agenda = q.current) :
    Kept { q with agenda } := by
  subst hagenda
  exact ⟨h.ordered_current, fun id timer hlive => h.mem_current hlive⟩

/-! ### Taking what is due -/

/-- One turn of the loop of `takeDue`: the front appointment is due, and its timer is taken. -/
inductive Turn (now : Nat) (q : TimerQueue α) : TimerQueue α → Prop
  | take {a : Appointment} {rest : List Appointment} {timer : Timer α}
      (front : q.current = a :: rest) (due : a.deadline ≤ now)
      (live : q.timer? a.id = some timer) : Turn now q (q.settle now a.id timer rest)

/-- A turn leaves fewer appointments that are due: what it arms anew is due later. -/
theorem dueCount_of_turn {now : Nat} {q' : TimerQueue α} (h : q.Turn now q') :
    Appointment.dueCount now q'.agenda < Appointment.dueCount now q.agenda := by
  cases h with
  | take front due live =>
    rw [dueCount_settle]
    exact dueCount_lt_of_current front due

/-- A timer that is taken is armed anew or gone; the others are as they were. -/
theorem timer?_settle {now : Nat} {id : TimerId} {timer : Timer α} (hlive : q.timer? id = some timer)
    (hdue : timer.deadline ≤ now) (agenda : List Appointment) :
    (q.settle now id timer agenda).timer? = Function.update q.timer? id (timer.taken now) := by
  unfold settle
  rw [Timer.taken, if_pos hdue]
  split
  next interval hinterval =>
    funext other
    rw [timer?, lookup_map_ne, Function.update_apply, show q.timers.lookup id = some timer from hlive,
      hinterval]
    rfl
  next hinterval =>
    rw [hinterval]
    exact q.lookup_without id

/-- Firing a timer gives out no number, also where it is entered again for its next turn. -/
theorem nextId_settle (now : Nat) (id : TimerId) (timer : Timer α) (agenda : List Appointment) :
    (q.settle now id timer agenda).nextId = q.nextId := by
  unfold settle
  split
  · rfl
  · rfl

/-- The deadline of a timer that was taken is past `now`. -/
theorem lt_deadline_of_taken {now : Nat} {timer later : Timer α} (h : timer.taken now = some later) :
    now < later.deadline := by
  unfold Timer.taken at h
  split at h
  next =>
    obtain ⟨interval, -, rfl⟩ := Option.map_eq_some_iff.1 h
    show now < now + max interval 1
    omega
  next hlate =>
    obtain rfl := Option.some.inj h
    omega

/-- Firing the timer in front keeps the agenda faithful: it is gone, or stands there once more with
its next deadline. -/
theorem Kept.settle (h : q.Kept) {now : Nat} {a : Appointment} {rest : List Appointment}
    {timer : Timer α} (hfront : q.current = a :: rest) (hlive : q.timer? a.id = some timer)
    (hdue : timer.deadline ≤ now) : Kept (q.settle now a.id timer rest) := by
  have hordered := h.ordered_current
  rw [hfront] at hordered
  have htimers := timer?_settle hlive hdue rest
  -- the appointments of all other timers are on the rest of the agenda
  have hothers : ∀ id timer', id ≠ a.id → q.timer? id = some timer' →
      ⟨timer'.deadline, id⟩ ∈ rest := by
    intro id timer' hne hlive'
    have hmem := h.mem_current hlive'
    rw [hfront] at hmem
    rcases List.mem_cons.1 hmem with rfl | hmem
    · exact absurd rfl hne
    · exact hmem
  constructor
  · unfold TimerQueue.settle
    split
    · exact Appointment.Ordered.enter (List.Pairwise.of_cons hordered) _
    · exact List.Pairwise.of_cons hordered
  · intro id timer' hlive'
    rw [htimers] at hlive'
    by_cases hid : id = a.id
    · subst hid
      rw [Function.update_self, Timer.taken, if_pos hdue] at hlive'
      obtain ⟨interval, hinterval, rfl⟩ := Option.map_eq_some_iff.1 hlive'
      unfold TimerQueue.settle
      rw [hinterval]
      exact Appointment.mem_enter.2 (Or.inl rfl)
    · rw [Function.update_of_ne hid] at hlive'
      have hmem := hothers id timer' hid hlive'
      unfold TimerQueue.settle
      split
      · exact Appointment.mem_enter.2 (Or.inr hmem)
      · exact hmem

/-- What one call of `takeDue` does to a queue: it hands out what is due by the table, and arms anew
what repeats. -/
structure Takes (now : Nat) (q : TimerQueue α) (due : List (TimerId × α)) (q' : TimerQueue α) :
    Prop where
  kept : q'.Kept
  nextId : q'.nextId = q.nextId
  timers : ∀ id, q'.timer? id = (q.timer? id).bind (Timer.taken now)
  right : q.table.AreDue now due

/-- Nothing is taken when nothing is due, however many stale appointments stand in front. -/
theorem Kept.takes_nothing (h : q.Kept) {now : Nat}
    (hnone : ∀ id timer, q.timer? id = some timer → now < timer.deadline)
    {agenda : List Appointment} (hagenda : agenda = q.current) :
    q.Takes now [] { q with agenda } := by
  refine ⟨h.drop hagenda, rfl, ?_, List.Pairwise.nil, ?_⟩
  · intro id
    show q.timer? id = _
    cases hlive : q.timer? id with
    | none => rfl
    | some timer =>
      have hlate := hnone id timer hlive
      rw [Option.bind_some, Timer.taken, if_neg (by omega)]
  · intro id callback
    constructor
    · intro hmem
      cases hmem
    · intro hdue
      obtain ⟨timer, hlive, hle, -⟩ := hdue
      have hlate := hnone id timer hlive
      omega

/-- A timer in front whose deadline has come is the first that is taken, and the others follow from
the queue without it. -/
theorem Kept.takes_front (h : q.Kept) {now : Nat} {a : Appointment} {rest : List Appointment}
    {timer : Timer α} (hfront : q.current = a :: rest) (hlive : q.timer? a.id = some timer)
    (hdue : timer.deadline ≤ now) {later : List (TimerId × α)} {q' : TimerQueue α}
    (hlater : (q.settle now a.id timer rest).Takes now later q') :
    q.Takes now ((a.id, timer.callback) :: later) q' := by
  have htimers := timer?_settle hlive hdue rest
  have hdeadline : timer.deadline = a.deadline := by
    obtain ⟨timer', hlive', hdeadline⟩ := exists_front hfront
    rwa [Option.some.inj (hlive.symm.trans hlive')]
  have hself : (q.settle now a.id timer rest).timer? a.id = timer.taken now := by
    rw [htimers, Function.update_self]
  have hother : ∀ id, id ≠ a.id → (q.settle now a.id timer rest).timer? id = q.timer? id := by
    intro id hne
    rw [htimers, Function.update_of_ne hne]
  -- what is handed out later is another timer, which was due before
  have hdueLater : ∀ id callback, (id, callback) ∈ later → id ≠ a.id ∧
      ∃ timer', q.timer? id = some timer' ∧ timer'.deadline ≤ now ∧ timer'.callback = callback := by
    intro id callback hmem
    obtain ⟨timer', hlive', hle, hcallback⟩ := (hlater.right.exact id callback).1 hmem
    have hlive'' : (q.settle now a.id timer rest).timer? id = some timer' := hlive'
    have hne : id ≠ a.id := by
      intro heq
      rw [heq, hself] at hlive''
      have hlt := lt_deadline_of_taken hlive''
      omega
    rw [hother id hne] at hlive''
    exact ⟨hne, timer', hlive'', hle, hcallback⟩
  refine ⟨hlater.kept, hlater.nextId.trans (nextId_settle _ _ _ _), ?_, ?_, ?_⟩
  · intro id
    rw [hlater.timers id]
    by_cases hid : id = a.id
    · subst hid
      rw [hself, hlive, Option.bind_some]
      cases htaken : timer.taken now with
      | none => rfl
      | some timer' =>
        have hlt := lt_deadline_of_taken htaken
        rw [Option.bind_some, Timer.taken, if_neg (by omega)]
    · rw [hother id hid]
  · refine List.pairwise_cons.2 ⟨?_, ?_⟩
    · intro id hid
      obtain ⟨⟨id', callback⟩, hmem, rfl⟩ := List.mem_map.1 hid
      obtain ⟨hne, timer', hlive', -, -⟩ := hdueLater id' callback hmem
      refine ⟨timer, timer', hlive, hlive', ?_⟩
      rcases h.front_le hfront hlive' with hlt | ⟨heq, hle⟩
      · left
        omega
      · exact Or.inr ⟨by omega, lt_of_le_of_ne hle (Ne.symm hne)⟩
    · refine hlater.right.ordered.imp_of_mem ?_
      intro id id' hid hid' hbefore
      obtain ⟨⟨id, callback⟩, hmem, rfl⟩ := List.mem_map.1 hid
      obtain ⟨⟨id', callback'⟩, hmem', rfl⟩ := List.mem_map.1 hid'
      obtain ⟨x, y, hx, hy, hlt⟩ := hbefore
      exact ⟨x, y, (hother id (hdueLater id callback hmem).1).symm.trans hx,
        (hother id' (hdueLater id' callback' hmem').1).symm.trans hy, hlt⟩
  · intro id callback
    constructor
    · intro hmem
      rcases List.mem_cons.1 hmem with heq | hmem
      · cases heq
        exact ⟨timer, hlive, hdue, rfl⟩
      · exact (hdueLater id callback hmem).2
    · intro hdue'
      obtain ⟨timer', hlive', hle, rfl⟩ := hdue'
      by_cases hid : id = a.id
      · subst hid
        obtain rfl := Option.some.inj (hlive.symm.trans hlive')
        exact List.mem_cons_self
      · refine List.mem_cons_of_mem _ ((hlater.right.exact id _).2 ⟨timer', ?_, hle, rfl⟩)
        exact (hother id hid).trans hlive'

/-- The function that takes the due timers does what the relation says, turn by turn until the front
lies in the future. -/
theorem takeDue_takes (h : q.Kept) (now : Nat) : q.Takes now (q.takeDue now).1 (q.takeDue now).2 := by
  fun_induction TimerQueue.takeDue q now with
  | case1 q hempty =>
    refine h.takes_nothing ?_ hempty.symm
    intro id timer hlive
    rw [h.no_timer hempty id] at hlive
    cases hlive
  | case2 q a rest hfront hdue timer hlive later q' htake ih =>
    obtain ⟨timer', hlive', hdeadline⟩ := exists_front hfront
    obtain rfl := Option.some.inj (hlive.symm.trans hlive')
    rw [← hdeadline] at hdue
    have hlater := ih (h.settle hfront hlive hdue)
    rw [htake] at hlater
    exact h.takes_front hfront hlive hdue hlater
  | case3 q a rest hfront _ hnone _ =>
    obtain ⟨timer, hlive, -⟩ := exists_front hfront
    rw [hnone] at hlive
    cases hlive
  | case4 q a rest hfront hlate =>
    refine h.takes_nothing ?_ hfront.symm
    intro id timer hlive
    have hle := h.front_le hfront hlive
    omega

/-- A turn is the first one of the loop: the rest of the loop is the loop from there on. -/
theorem takeDue_of_turn {now : Nat} {q' : TimerQueue α} (h : q.Turn now q') :
    (q.takeDue now).2 = (q'.takeDue now).2 := by
  cases h with
  | take front due live =>
    rw [takeDue]
    split
    next hempty => cases front.symm.trans hempty
    next a rest hfront =>
      obtain ⟨rfl, rfl⟩ := List.cons.inj (front.symm.trans hfront)
      rw [dif_pos due]
      split
      next timer hlive =>
        obtain rfl := Option.some.inj (live.symm.trans hlive)
        rfl
      next hnone => cases live.symm.trans hnone

end Kept

/-! ### Every use of the queue -/

/-- So many numbers were given out, from one on, and only those are in use. -/
structure Numbered (n : Nat) (q : TimerQueue α) : Prop where
  nextId : q.nextId = n + 1
  given : ∀ id timer, q.timer? id = some timer → id ≤ n

/-- How many numbers are given out. -/
def given (calls : List (TimerCall α)) : Nat := calls.countP TimerCall.isSchedule

section Serve

variable {q : TimerQueue α} {n : Nat}

/-- What the queue shows of itself is a table: the live timers by number, and the number that comes
next. -/
theorem table_eq (h : q.Numbered n) : q.table = ⟨q.timer?, n⟩ := by
  rw [table, h.nextId]
  exact congrArg _ (Int.add_sub_cancel (n : Int) 1)

/-- A new timer is found under the number that was next, with its deadline so far from now, and no
other is touched. -/
theorem timer?_schedule (q : TimerQueue α) (now : Nat) (callback : α) (delay : Nat) (repeats : Bool) :
    (q.schedule now callback delay repeats).2.timer? = Function.update q.timer? q.nextId
      (some ⟨callback, if repeats then some delay else none, now + delay⟩) := by
  funext other
  have hrest := congrFun (q.lookup_without q.nextId) other
  rw [Function.update_apply] at hrest
  rw [timer?, schedule, Function.update_apply]
  dsimp only
  rw [List.lookup_append, hrest]
  by_cases hother : other = q.nextId
  · simp [hother]
  · simp [hother, List.lookup_cons, beq_false_of_ne hother]

/-- A new timer is booked, and the others are as they were. -/
theorem Kept.schedule (h : q.Kept) (now : Nat) (callback : α) (delay : Nat) (repeats : Bool) :
    (q.schedule now callback delay repeats).2.Kept := by
  refine ⟨h.ordered.enter _, ?_⟩
  intro id timer hlive
  rw [timer?_schedule] at hlive
  by_cases hid : id = q.nextId
  · subst hid
    rw [Function.update_self] at hlive
    obtain rfl := Option.some.inj hlive
    exact Appointment.mem_enter.2 (Or.inl rfl)
  · rw [Function.update_of_ne hid] at hlive
    exact Appointment.mem_enter.2 (Or.inr (h.booked id timer hlive))

/-- A cancelled timer is found no more, and no other is touched; the appointment it leaves behind is
dropped later. -/
theorem timer?_cancel (q : TimerQueue α) (id : TimerId) :
    (q.cancel id).2.timer? = Function.update q.timer? id none :=
  q.lookup_without id

/-- Without one timer, the others are still booked. The appointment of the one that was cancelled goes
stale. -/
theorem Kept.cancel (h : q.Kept) (id : TimerId) : (q.cancel id).2.Kept := by
  refine ⟨h.ordered, ?_⟩
  intro other timer hlive
  rw [timer?_cancel, Function.update_apply] at hlive
  split at hlive
  · cases hlive
  · exact h.booked other timer hlive

theorem kept_clear (q : TimerQueue α) : q.clear.Kept := ⟨List.Pairwise.nil, nofun⟩

/-- The number after the next one, as long as there are more. -/
theorem next_number (hroom : n + 1 < 2 ^ 63 - 1) :
    min ((n : Int) + 1 + 1) lastTimerId = ((n + 1 : Nat) : Int) + 1 := by
  rw [lastTimerId, Number.signedLimit]
  omega

/-- Numbers go up by one for each timer, as long as they are in range, and no live timer has one that
is yet to come. -/
theorem Numbered.schedule (h : q.Numbered n) (hroom : n + 1 < 2 ^ 63 - 1) (now : Nat) (callback : α)
    (delay : Nat) (repeats : Bool) :
    (q.schedule now callback delay repeats).2.Numbered (n + 1) := by
  constructor
  · show min (q.nextId + 1) lastTimerId = _
    rw [h.nextId]
    exact next_number hroom
  · intro id timer hlive
    rw [timer?_schedule] at hlive
    by_cases hid : id = q.nextId
    · exact Int.le_of_eq (hid.trans h.nextId)
    · rw [Function.update_of_ne hid] at hlive
      exact Int.le_trans (h.given id timer hlive) (Int.ofNat_le.2 (Nat.le_succ n))

/-- What only ends timers or moves their deadlines gives out no number. -/
theorem Numbered.of_live {q' : TimerQueue α} (h : q.Numbered n) (hnext : q'.nextId = q.nextId)
    (hlive : ∀ id, q.timer? id = none → q'.timer? id = none) : q'.Numbered n := by
  refine ⟨hnext.trans h.nextId, ?_⟩
  intro id timer htimer
  cases hbefore : q.timer? id with
  | none =>
    rw [hlive id hbefore] at htimer
    cases htimer
  | some timer' => exact h.given id timer' hbefore

/-- Each use of a queue is a step of its table, as long as numbers are left: one case for each call,
and the invariants of the queue with it. -/
theorem step_of_serve (h : q.Kept) (hnumbered : q.Numbered n) (call : TimerCall α)
    (hroom : n + given [call] < 2 ^ 63 - 1) :
    q.table.Step call (q.serve call).1 (q.serve call).2.table ∧ (q.serve call).2.Kept ∧
      (q.serve call).2.Numbered (n + given [call]) := by
  cases call with
  | schedule now callback delay repeats =>
    have hnumbered' := hnumbered.schedule hroom now callback delay repeats
    refine ⟨?_, h.schedule now callback delay repeats, hnumbered'⟩
    -- no live timer has a number that is yet to be given out
    have hunused : q.timer? (n + 1) = none := by
      cases hlive : q.timer? (n + 1) with
      | none => rfl
      | some timer =>
        have hle := hnumbered.given _ timer hlive
        exact absurd hle (Int.not_le_of_gt (Int.lt_succ _))
    have hstep := Timetable.Step.schedule (t := ⟨q.timer?, n⟩) now callback delay repeats hunused
    rw [table_eq hnumbered, serve, table_eq hnumbered', timer?_schedule, hnumbered.nextId]
    have hid : (q.schedule now callback delay repeats).1 = (n : Int) + 1 := hnumbered.nextId
    rw [hid]
    exact hstep
  | cancel id =>
    have htimers := q.timer?_cancel id
    refine ⟨?_, h.cancel id, hnumbered.of_live rfl ?_⟩
    · have htable : (q.cancel id).2.table = q.table.put id none :=
        congrArg (fun timers => (⟨timers, q.nextId - 1⟩ : Timetable α)) htimers
      show q.table.Step _ _ (q.cancel id).2.table
      rw [htable]
      exact .cancel id
    · intro other hnone
      rw [serve, htimers, Function.update_apply]
      split
      · rfl
      · exact hnone
  | nextDeadline =>
    exact ⟨.nextDeadline _ h.isEarliest, h.drop rfl, hnumbered.of_live rfl fun id hnone => hnone⟩
  | takeDue now =>
    obtain ⟨hkept, hnext, htimers, hright⟩ := takeDue_takes h now
    refine ⟨?_, hkept, hnumbered.of_live hnext ?_⟩
    · have htable : (q.takeDue now).2.table =
          { q.table with timer? := fun id => (q.timer? id).bind (Timer.taken now) } := by
        rw [table, hnext, show (q.takeDue now).2.timer? = _ from funext htimers]
        rfl
      show q.table.Step _ _ (q.takeDue now).2.table
      rw [htable]
      exact .takeDue now _ hright
    · intro id hnone
      rw [serve, htimers, hnone]
      rfl
  | clear =>
    exact ⟨.clear, kept_clear q, hnumbered.of_live rfl fun id hnone => rfl⟩

/-- The timers that calls ask for are counted call by call. -/
theorem given_cons (call : TimerCall α) (calls : List (TimerCall α)) :
    given (call :: calls) = given [call] + given calls := by
  rw [given, given, given, ← List.countP_append]
  rfl

/-- A run of the queue is a run of its table, by induction over the calls. -/
theorem run_of_serveAll (h : q.Kept) (hnumbered : q.Numbered n) (calls : List (TimerCall α))
    (hroom : n + given calls < 2 ^ 63 - 1) :
    q.table.Run calls (q.serveAll calls).1 (q.serveAll calls).2.table ∧
      (q.serveAll calls).2.Kept ∧ (q.serveAll calls).2.Numbered (n + given calls) := by
  induction calls generalizing q n with
  | nil => exact ⟨.nil _, h, hnumbered⟩
  | cons call calls ih =>
    rw [given_cons] at hroom ⊢
    obtain ⟨hstep, hkept, hnumbered'⟩ := step_of_serve h hnumbered call (by omega)
    obtain ⟨hrun, hkept', hnumbered''⟩ := ih hkept hnumbered' (by omega)
    rw [← Nat.add_assoc]
    exact ⟨.cons hstep hrun, hkept', hnumbered''⟩

/-- Queues with one table cannot be told apart by any calls, since a table leaves no choice of
answers. -/
theorem answers_eq {q' : TimerQueue α} (h : q.Kept) (h' : q'.Kept) (hnumbered : q.Numbered n)
    (hnumbered' : q'.Numbered n) (htable : q.table = q'.table) (calls : List (TimerCall α))
    (hroom : n + given calls < 2 ^ 63 - 1) : (q.serveAll calls).1 = (q'.serveAll calls).1 := by
  obtain ⟨hrun, -, -⟩ := run_of_serveAll h hnumbered calls hroom
  obtain ⟨hrun', -, -⟩ := run_of_serveAll h' hnumbered' calls hroom
  rw [htable] at hrun
  exact (hrun.unique hrun').1

/-- A queue without timers. -/
theorem kept_empty : Kept ({} : TimerQueue α) := ⟨List.Pairwise.nil, nofun⟩

theorem numbered_empty : Numbered 0 ({} : TimerQueue α) := ⟨rfl, nofun⟩

end Serve

/--
Whatever is done with a queue, as long as the numbers of timers do not run out: its answers are those
of the plain table, step by step, and the live timers afterwards are those of the table. The numbers
of new timers increase. Asking for the next deadline can be left out without a change to any later
answer. And the loop that takes what is due, turn by turn, comes to an end.
-/
theorem refines_timetable (calls : List (TimerCall α))
    (hfew : calls.countP TimerCall.isSchedule < 2 ^ 63 - 1) :
    let run := ({} : TimerQueue α).serveAll calls
    (∃ table, Timetable.Run .empty calls run.1 table ∧ table.timer? = run.2.timer?) ∧
      (run.1.filterMap TimerAnswer.scheduled?).Pairwise (· < ·) ∧
      (∀ before after, calls = before ++ .nextDeadline :: after →
        let q := (({} : TimerQueue α).serveAll before).2
        (q.nextDeadline.2.serveAll after).1 = (q.serveAll after).1) ∧
      (∀ (now : Nat) (q q' : TimerQueue α), q.Turn now q' →
        (q.takeDue now).2 = (q'.takeDue now).2) ∧
      ∀ (now : Nat) (turns : Nat → TimerQueue α), ∃ i, ¬ (turns i).Turn now (turns (i + 1)) := by
  intro run
  obtain ⟨hrun, -, -⟩ := run_of_serveAll kept_empty numbered_empty calls
    (by rw [Nat.zero_add]; exact hfew)
  refine ⟨⟨run.2.table, hrun, rfl⟩, (List.pairwise_cons.1 hrun.increasing).2, ?_,
    fun now q q' => takeDue_of_turn, ?_⟩
  · intro before after hsplit q
    have hcount : given before + given after < 2 ^ 63 - 1 := by
      rw [hsplit, List.countP_append, List.countP_cons] at hfew
      exact hfew
    obtain ⟨-, hkept, hnumbered⟩ := run_of_serveAll (q := ({} : TimerQueue α)) kept_empty
      numbered_empty before (by omega)
    rw [Nat.zero_add] at hnumbered
    exact answers_eq (hkept.drop rfl) hkept (hnumbered.of_live rfl fun id hnone => hnone) hnumbered
      rfl after hcount
  · intro now turns
    by_contra hforever
    push Not at hforever
    -- the number of due appointments would decrease for ever
    have hbound : ∀ i, Appointment.dueCount now (turns i).agenda + i ≤
        Appointment.dueCount now (turns 0).agenda := by
      intro i
      induction i with
      | zero => exact Nat.le_refl _
      | succ i ih =>
        have hless := dueCount_of_turn (hforever i)
        omega
    have hover := hbound (Appointment.dueCount now (turns 0).agenda + 1)
    omega

/-- An interval of no length is handed out once by a call, behind nothing that is due later, and comes
due again a millisecond after the call. -/
theorem refines_timetable_interval :
    let calls : List (TimerCall String) := [.schedule 0 "once" 5 false, .schedule 0 "tick" 0 true,
      .nextDeadline, .takeDue 7, .cancel 1, .nextDeadline, .cancel 2, .takeDue 9]
    calls.countP TimerCall.isSchedule < 2 ^ 63 - 1 ∧
      ∃ table, Timetable.Run .empty calls [.scheduled 1, .scheduled 2, .deadline (some 0),
        .taken [(2, "tick"), (1, "once")], .cancelled false, .deadline (some 8), .cancelled true,
        .taken []] table := by
  intro calls
  have hfew : calls.countP TimerCall.isSchedule < 2 ^ 63 - 1 := by decide
  obtain ⟨⟨table, hrun, -⟩, -⟩ := refines_timetable calls hfew
  have hanswers : (({} : TimerQueue String).serveAll calls).1 = [.scheduled 1, .scheduled 2,
      .deadline (some 0), .taken [(2, "tick"), (1, "once")], .cancelled false, .deadline (some 8),
      .cancelled true, .taken []] := by
    cbv
  rw [hanswers] at hrun
  exact ⟨hfew, table, hrun⟩

end TimerQueue

end AppletHost.Sandbox
