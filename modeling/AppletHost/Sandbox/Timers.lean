import AppletHost.Number.Word

/-!
# Timers

A `TimerQueue` keeps the timers of one app by id and an agenda of appointments, ordered by deadline
and then by id. Cancelling or re-arming a timer leaves its old appointment on the agenda; such a
stale appointment is dropped when it comes to the front. Times are milliseconds.

`takeDue` hands out the timers that are due, in the order of the agenda. An interval is re-armed
from the time of the call and at least a millisecond later, so no timer is handed out twice by one
call and the call ends.
-/

namespace AppletHost.Sandbox

/-- The number of a timer, as the logic of an app sees it. -/
abbrev TimerId := Int

/-- The largest number a timer can have. -/
def lastTimerId : TimerId := Number.signedLimit - 1

/-- The shortest time after which an interval comes due again. -/
def shortestRearm : Nat := 1

/-- A timer; one with an interval repeats. -/
structure Timer (α : Type) where
  callback : α
  interval : Option Nat
  deadline : Nat
deriving Repr, Inhabited

/-- An entry of the agenda. -/
structure Appointment where
  deadline : Nat
  id : TimerId
deriving DecidableEq, Repr, Inhabited

namespace Appointment

/-- Comes first: by deadline, then by id. -/
def precedes (a b : Appointment) : Bool :=
  a.deadline < b.deadline || (a.deadline == b.deadline && a.id ≤ b.id)

/-- Puts an appointment in its place on an ordered agenda. -/
def enter (a : Appointment) : List Appointment → List Appointment
  | [] => [a]
  | b :: rest => if a.precedes b then a :: b :: rest else b :: a.enter rest

/-- How many appointments are due at `now`. -/
def dueCount (now : Nat) (agenda : List Appointment) : Nat :=
  agenda.countP fun a => a.deadline ≤ now

theorem dueCount_enter (now : Nat) (a : Appointment) (agenda : List Appointment) :
    dueCount now (a.enter agenda) = dueCount now (a :: agenda) := by
  induction agenda with
  | nil => rfl
  | cons b rest ih =>
    rw [enter]
    split
    · rfl
    · simp only [dueCount, List.countP_cons] at ih ⊢
      omega

theorem dueCount_dropWhile_le (now : Nat) (p : Appointment → Bool) (agenda : List Appointment) :
    dueCount now (agenda.dropWhile p) ≤ dueCount now agenda := by
  induction agenda with
  | nil => simp
  | cons a rest ih =>
    rw [List.dropWhile_cons]
    split
    · simp only [dueCount, List.countP_cons] at ih ⊢
      omega
    · exact Nat.le_refl _

end Appointment

/-- The timers of one app. -/
structure TimerQueue (α : Type) where
  timers : List (TimerId × Timer α) := []
  agenda : List Appointment := []
  nextId : TimerId := 1
deriving Repr, Inhabited

namespace TimerQueue

variable {α : Type}

/-- The live timer with that id. -/
def timer? (q : TimerQueue α) (id : TimerId) : Option (Timer α) := q.timers.lookup id

/-- The number of live timers. -/
def size (q : TimerQueue α) : Nat := q.timers.length

/-- The live timers without the one of that id. -/
def without (q : TimerQueue α) (id : TimerId) : List (TimerId × Timer α) :=
  q.timers.filter fun t => t.1 != id

/-- Sets a timer that comes due `delay` after `now`, and again every `delay` if it repeats. -/
def schedule (q : TimerQueue α) (now : Nat) (callback : α) (delay : Nat) (repeats : Bool) :
    TimerId × TimerQueue α :=
  let timer := { callback, interval := if repeats then some delay else none, deadline := now + delay }
  (q.nextId,
    { timers := q.without q.nextId ++ [(q.nextId, timer)]
      agenda := Appointment.enter ⟨timer.deadline, q.nextId⟩ q.agenda
      nextId := min (q.nextId + 1) lastTimerId })

/-- Ends a timer; tells whether it was live. -/
def cancel (q : TimerQueue α) (id : TimerId) : Bool × TimerQueue α :=
  ((q.timer? id).isSome, { q with timers := q.without id })

/-- No live timer has this appointment any more. -/
def isStale (q : TimerQueue α) (a : Appointment) : Bool :=
  match q.timer? a.id with
  | some timer => timer.deadline != a.deadline
  | none => true

/-- The agenda from its first appointment that is not stale. -/
def current (q : TimerQueue α) : List Appointment := q.agenda.dropWhile q.isStale

/-- The earliest deadline of a live timer. -/
def nextDeadline (q : TimerQueue α) : Option Nat × TimerQueue α :=
  (q.current.head?.map (·.deadline), { q with agenda := q.current })

/-- Takes the front appointment of a live timer: a repeating one is armed anew from `now`. -/
def settle (q : TimerQueue α) (now : Nat) (id : TimerId) (timer : Timer α)
    (agenda : List Appointment) : TimerQueue α :=
  match timer.interval with
  | some interval =>
    let deadline := now + max interval shortestRearm
    { q with
      timers := q.timers.map fun t => if t.1 = id then (id, { timer with deadline }) else t
      agenda := Appointment.enter ⟨deadline, id⟩ agenda }
  | none => { q with timers := q.without id, agenda }

theorem dueCount_settle (q : TimerQueue α) (now : Nat) (id : TimerId) (timer : Timer α)
    (agenda : List Appointment) :
    Appointment.dueCount now (q.settle now id timer agenda).agenda
      = Appointment.dueCount now agenda := by
  unfold settle
  split
  · rename_i interval _
    simp only [Appointment.dueCount_enter]
    simp only [Appointment.dueCount, List.countP_cons]
    have : ¬ now + max interval shortestRearm ≤ now := by
      simp only [shortestRearm]
      omega
    simp [this]
  · rfl

/-- Taking the front appointment off the agenda leaves fewer that are due. -/
theorem dueCount_lt_of_current {q : TimerQueue α} {now : Nat} {a : Appointment}
    {rest : List Appointment} (h : q.current = a :: rest) (due : a.deadline ≤ now) :
    Appointment.dueCount now rest < Appointment.dueCount now q.agenda := by
  have := Appointment.dueCount_dropWhile_le now q.isStale q.agenda
  rw [show q.agenda.dropWhile q.isStale = a :: rest from h] at this
  simp only [Appointment.dueCount, List.countP_cons, decide_eq_true due, if_true] at this ⊢
  omega

/-- Takes every timer that is due at `now`. -/
def takeDue (q : TimerQueue α) (now : Nat) : List (TimerId × α) × TimerQueue α :=
  match _front : q.current with
  | [] => ([], { q with agenda := [] })
  | a :: rest =>
    if _due : a.deadline ≤ now then
      match q.timer? a.id with
      | some timer =>
        let (later, q) := (q.settle now a.id timer rest).takeDue now
        ((a.id, timer.callback) :: later, q)
      | none => { q with agenda := rest }.takeDue now
    else ([], { q with agenda := a :: rest })
termination_by Appointment.dueCount now q.agenda
decreasing_by
  · rw [dueCount_settle]; exact dueCount_lt_of_current _front _due
  · exact dueCount_lt_of_current _front _due

/-- Ends every timer. -/
def clear (q : TimerQueue α) : TimerQueue α := { q with timers := [], agenda := [] }

end TimerQueue

end AppletHost.Sandbox
