import AppletHost.Push.Reconnect
import Mathlib.Data.List.DropRight

/-!
# The delays of a policy

A connection reports to the counter of its policy that it opened or failed, in any order. `row` counts
the failures since the last opening, and the counter is that number, cut off at the most attempts of the
policy (`counts_after`): it never wraps, as the most attempts are a number of 32 bits themselves.

A failure is answered by the number of failures in its row (`ReconnectPolicy.answer`), and by nothing
else. From there the answers of a whole row are one list: the delays in order, each the base delay so
many times over, or as long as a delay can last, and behind the most attempts only `giveUp`.

> `answers_row`: for every policy and all reports, the counter, the answer to the next failure, the
> delays between two openings, and that a counter which has given up stays so until the next opening.
-/

namespace AppletHost.Push

open Number (Duration limit32)

/-- What a policy says about the failure of that number in a row. -/
def ReconnectPolicy.answer (p : ReconnectPolicy) (failure : Nat) : ReconnectDecision :=
  if failure ≤ p.maxAttempts then .retry (.ofNanoseconds (p.baseDelay.total * failure)) else .giveUp

namespace ReconnectState

/-- What a connection reports. -/
inductive Report where
  | opened
  | failed
deriving DecidableEq, Repr

/-- The failures since the last opening. -/
def row (reports : List Report) : Nat := (reports.rtakeWhile (· = .failed)).length

/-- The state after a report. -/
def report (s : ReconnectState) : Report → ReconnectState
  | .opened => s.onOpen
  | .failed => s.onFailure.2

/-- The state after all reports. -/
def after (s : ReconnectState) (reports : List Report) : ReconnectState := reports.foldl report s

/-- The answers to so many failures. -/
def answers (s : ReconnectState) : Nat → List ReconnectDecision
  | 0 => []
  | n + 1 => s.onFailure.1 :: s.onFailure.2.answers n

@[simp]
theorem row_nil : row [] = 0 := rfl

@[simp]
theorem row_opened (reports : List Report) : row (reports ++ [.opened]) = 0 := by
  simp [row]

@[simp]
theorem row_failed (reports : List Report) : row (reports ++ [.failed]) = row reports + 1 := by
  simp [row]

/-! ## One report -/

/-- A state counts a row of so many failures for a policy. -/
structure Counts (p : ReconnectPolicy) (row : Nat) (s : ReconnectState) : Prop where
  policy : s.policy = p
  attempts : s.attempts = min row p.maxAttempts

variable {p : ReconnectPolicy} {row : Nat} {s : ReconnectState}

theorem Counts.start (p : ReconnectPolicy) : Counts p 0 ⟨p, 0⟩ := ⟨rfl, (Nat.zero_min _).symm⟩

theorem Counts.onOpen (h : Counts p row s) : Counts p 0 s.onOpen := ⟨h.policy, (Nat.zero_min _).symm⟩

/-- A counter that has reached the limit gives up and stays as it is, so it gives up at the next
failure, too. -/
theorem onFailure_of_le (h : s.policy.maxAttempts ≤ s.attempts) : s.onFailure = (.giveUp, s) :=
  if_pos h

/-- One more attempt is left, so the counter does not reach the last number of 32 bits. -/
theorem onFailure_of_lt (h : s.attempts < s.policy.maxAttempts) :
    s.onFailure = (.retry (.ofNanoseconds (s.policy.baseDelay.total * (s.attempts + 1))),
      { s with attempts := s.attempts + 1 }) := by
  have hword := s.policy.maxAttempts_lt
  have hnext : min (s.attempts + 1) (limit32 - 1) = s.attempts + 1 := by omega
  simp only [onFailure, if_neg (Nat.not_le.2 h), hnext, Duration.times_eq]

/-- The state of an answer that gives up has no attempt left. -/
theorem le_of_giveUp (h : s.onFailure.1 = .giveUp) : s.policy.maxAttempts ≤ s.attempts := by
  by_contra hlt
  rw [onFailure_of_lt (Nat.lt_of_not_le hlt)] at h
  cases h

/-- A failure is answered by its number in the row, and makes the row longer. -/
theorem Counts.onFailure (h : Counts p row s) :
    s.onFailure.1 = p.answer (row + 1) ∧ Counts p (row + 1) s.onFailure.2 := by
  obtain ⟨rfl, hattempts⟩ := h
  by_cases hle : s.policy.maxAttempts ≤ row
  · have hmost : s.attempts = s.policy.maxAttempts := by omega
    rw [onFailure_of_le hmost.ge, ReconnectPolicy.answer, if_neg (by omega)]
    exact ⟨rfl, rfl, hmost.trans (by omega)⟩
  · have hrow : s.attempts = row := by omega
    rw [onFailure_of_lt (by omega), ReconnectPolicy.answer, if_pos (by omega), hrow]
    exact ⟨rfl, rfl, (Nat.min_eq_left (Nat.lt_of_not_le hle)).symm⟩

/-! ## All reports -/

/-- The counter is the row of failures, cut off at the most attempts. -/
theorem counts_after (p : ReconnectPolicy) (reports : List Report) :
    Counts p (ReconnectState.row reports) (after ⟨p, 0⟩ reports) := by
  induction reports using List.reverseRecOn with
  | nil => exact .start p
  | append_singleton reports last ih =>
    rw [after, List.foldl_append]
    cases last with
    | opened =>
      rw [row_opened]
      exact ih.onOpen
    | failed =>
      rw [row_failed]
      exact ih.onFailure.2

/-- Failures one after another are answered by their numbers in the row. -/
theorem Counts.answers (h : Counts p row s) (n : Nat) :
    s.answers n = (List.range n).map fun i => p.answer (row + i + 1) := by
  induction n generalizing row s with
  | zero => rfl
  | succ n ih =>
    rw [ReconnectState.answers, h.onFailure.1, ih h.onFailure.2, List.range_succ_eq_map,
      List.map_cons, List.map_map]
    refine congrArg _ (List.map_congr_left fun i _ => ?_)
    simp only [Function.comp_apply]
    congr 2
    omega

/-- What gives up once, gives up ever after, whatever number of failures is reported to it. -/
theorem answers_of_giveUp (h : s.onFailure.1 = .giveUp) (n : Nat) :
    s.answers n = List.replicate n .giveUp ∧ s.after (List.replicate n .failed) = s := by
  have hstays := onFailure_of_le (le_of_giveUp h)
  induction n with
  | zero => exact ⟨rfl, rfl⟩
  | succ n ih =>
    constructor
    · rw [answers, hstays, ih.1, List.replicate_succ]
    · rw [List.replicate_succ, after, List.foldl_cons, report, hstays]
      exact ih.2

end ReconnectState

/-! ## One row -/

/-- The delays of the first failures of a row. -/
def ReconnectPolicy.delays (p : ReconnectPolicy) (n : Nat) : List Duration :=
  (List.range (min n p.maxAttempts)).map fun i => .ofNanoseconds (p.baseDelay.total * (i + 1))

/-- A row of failures is answered by the delays in order, and then by `giveUp` only. -/
theorem ReconnectPolicy.answers_eq_delays (p : ReconnectPolicy) (n : Nat) :
    ((List.range n).map fun i => p.answer (i + 1)) =
      (p.delays n).map .retry ++ List.replicate (n - p.maxAttempts) .giveUp := by
  have hsum : n = min n p.maxAttempts + (n - p.maxAttempts) := by omega
  conv_lhs => rw [hsum, List.range_add, List.map_append]
  congr 1
  · rw [delays, List.map_map]
    refine List.map_congr_left fun i hi => ?_
    have hlt : i + 1 ≤ p.maxAttempts := by
      have := List.mem_range.1 hi
      omega
    exact if_pos hlt
  · rw [List.eq_replicate_iff]
    refine ⟨by simp, fun answer hanswer => ?_⟩
    obtain ⟨j, hj, rfl⟩ : ∃ j < n - p.maxAttempts,
        p.answer (min n p.maxAttempts + j + 1) = answer := by simpa using hanswer
    exact if_neg (by omega)

theorem ReconnectPolicy.total_delays (p : ReconnectPolicy) (n : Nat) :
    (p.delays n).map Duration.total = (List.range (min n p.maxAttempts)).map fun i =>
      min (p.baseDelay.total * (i + 1)) Duration.longest.total := by
  rw [delays, List.map_map]
  refine List.map_congr_left fun i _ => ?_
  rw [Function.comp_apply, Duration.total_ofNanoseconds]

/-- The delays of a row never decrease: the base is doubled from one to the next, until the cap or the
end of the range holds it. -/
theorem ReconnectPolicy.pairwise_delays (p : ReconnectPolicy) (n : Nat) :
    ((p.delays n).map Duration.total).Pairwise (· ≤ ·) := by
  rw [total_delays, List.pairwise_map]
  refine List.pairwise_lt_range.imp fun {i j} hij => ?_
  have hle : p.baseDelay.total * (i + 1) ≤ p.baseDelay.total * (j + 1) :=
    Nat.mul_le_mul_left _ (by omega)
  exact Nat.le_min.2 ⟨Nat.le_trans (Nat.min_le_left _ _) hle, Nat.min_le_right _ _⟩

/-! ## Every policy -/

namespace ReconnectState

/--
For every policy and all reports of a connection:

* the counter is the number of failures since the last opening, or the most attempts if that is less;
* of the failures that come next, each is answered by its number in the row;
* after an opening, or at the start, so many failures are answered by so many delays, but no more than
  the most attempts, and by `giveUp` behind them. The delays are the base delay once, twice and so on,
  as long as that is a duration, and the longest duration then, so they never decrease;
* after an answer that gives up, every further failure gives up, and none changes the state.
-/
theorem answers_row (p : ReconnectPolicy) (reports : List Report) :
    let s := after ⟨p, 0⟩ reports
    s.policy = p ∧ s.attempts = min (row reports) p.maxAttempts ∧
    (∀ n, s.answers n = (List.range n).map fun i => p.answer (row reports + i + 1)) ∧
    (row reports = 0 → ∀ n, ∃ delays : List Duration,
      s.answers n = delays.map .retry ++ List.replicate (n - p.maxAttempts) .giveUp ∧
      (delays.map Duration.total = (List.range (min n p.maxAttempts)).map fun i =>
        min (p.baseDelay.total * (i + 1)) Duration.longest.total) ∧
      (delays.map Duration.total).Pairwise (· ≤ ·)) ∧
    (s.onFailure.1 = .giveUp → ∀ n,
      s.answers n = List.replicate n .giveUp ∧ s.after (List.replicate n .failed) = s) := by
  intro s
  have hcounts := counts_after p reports
  refine ⟨hcounts.policy, hcounts.attempts, hcounts.answers, fun hrow n => ?_, answers_of_giveUp⟩
  refine ⟨p.delays n, ?_, p.total_delays n, p.pairwise_delays n⟩
  rw [hcounts.answers, hrow, ← p.answers_eq_delays n]
  simp only [Nat.zero_add]

/-- A policy whose second delay is the longest one: what it answers after an opening, and that it has
given up two failures later. -/
theorem answers_row_longest :
    let p : ReconnectPolicy :=
      { baseDelay := ⟨0x8000000000000000, 5, by decide, by decide⟩, maxAttempts := 2 }
    (row [.failed, .opened] = 0 ∧ ∀ n, ∃ delays : List Duration,
      (after ⟨p, 0⟩ [.failed, .opened]).answers n =
        delays.map .retry ++ List.replicate (n - 2) .giveUp ∧
      (delays.map Duration.total = (List.range (min n 2)).map fun i =>
        min (p.baseDelay.total * (i + 1)) Duration.longest.total) ∧
      (delays.map Duration.total).Pairwise (· ≤ ·)) ∧
    ((after ⟨p, 0⟩ [.opened, .failed, .failed]).onFailure.1 = .giveUp ∧ ∀ n,
      (after ⟨p, 0⟩ [.opened, .failed, .failed]).answers n = List.replicate n .giveUp ∧
      (after ⟨p, 0⟩ [.opened, .failed, .failed]).after (List.replicate n .failed) =
        after ⟨p, 0⟩ [.opened, .failed, .failed]) := by
  intro p
  have hopened : row [.failed, .opened] = 0 := by decide
  have hover : (after ⟨p, 0⟩ [.opened, .failed, .failed]).onFailure.1 = .giveUp := by decide
  exact ⟨⟨hopened, (answers_row p [.failed, .opened]).2.2.2.1 hopened⟩,
    hover, (answers_row p [.opened, .failed, .failed]).2.2.2.2 hover⟩

end ReconnectState

end AppletHost.Push
