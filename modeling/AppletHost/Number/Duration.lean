import AppletHost.Number.Word

/-!
# Durations

A duration is a count of seconds of 64 bits and a count of nanoseconds below one second. What would
last longer than the longest duration lasts that long.
-/

namespace AppletHost.Number

/-- The nanoseconds of one second. -/
def nanosecondsPerSecond : Nat := 1000000000

/-- A span of time. -/
structure Duration where
  seconds : Nat
  nanoseconds : Nat
  seconds_lt : seconds < limit64 := by decide
  nanoseconds_lt : nanoseconds < nanosecondsPerSecond := by decide
deriving DecidableEq, Repr

namespace Duration

instance : Inhabited Duration := ⟨⟨0, 0, by decide, by decide⟩⟩

/-- The longest duration. -/
def longest : Duration := ⟨limit64 - 1, nanosecondsPerSecond - 1, by decide, by decide⟩

/-- All of a duration in nanoseconds. -/
def total (d : Duration) : Nat := d.seconds * nanosecondsPerSecond + d.nanoseconds

/-- The duration of so many nanoseconds. -/
def ofNanoseconds (n : Nat) : Duration :=
  if h : n / nanosecondsPerSecond < limit64 then
    ⟨n / nanosecondsPerSecond, n % nanosecondsPerSecond, h, Nat.mod_lt _ (by decide)⟩
  else longest

/-- The duration of so many milliseconds. -/
def ofMilliseconds (n : Nat) : Duration := ofNanoseconds (n * 1000000)

/-- The whole milliseconds of a duration. -/
def milliseconds (d : Duration) : Nat := d.total / 1000000

/-- A duration several times over, unless that is too long. The nanoseconds carry into the seconds. -/
def times? (d : Duration) (n : Nat) : Option Duration :=
  let seconds := d.seconds * n + d.nanoseconds * n / nanosecondsPerSecond
  if h : seconds < limit64 then
    some ⟨seconds, d.nanoseconds * n % nanosecondsPerSecond, h, Nat.mod_lt _ (by decide)⟩
  else none

/-- A duration several times over. -/
def times (d : Duration) (n : Nat) : Duration := (d.times? n).getD longest

/-- A duration is shown in whole milliseconds. -/
instance : ToString Duration := ⟨fun d => toString d.milliseconds⟩

/-- Durations that last equally long are the same. -/
theorem eq_of_total_eq {d e : Duration} (h : d.total = e.total) : d = e := by
  obtain ⟨s, n, hs, hn⟩ := d
  obtain ⟨t, m, ht, hm⟩ := e
  simp only [total, nanosecondsPerSecond] at h hn hm
  obtain ⟨rfl, rfl⟩ : s = t ∧ n = m := by omega
  rfl

/-- No duration is longer than the longest one. -/
theorem total_le_longest (d : Duration) : d.total ≤ longest.total := by
  have hs := d.seconds_lt
  have hn := d.nanoseconds_lt
  simp only [total, longest, nanosecondsPerSecond, limit64] at *
  omega

/-- So many nanoseconds last that long, or as long as a duration can. -/
theorem total_ofNanoseconds (n : Nat) : (ofNanoseconds n).total = min n longest.total := by
  unfold ofNanoseconds
  by_cases h : n / nanosecondsPerSecond < limit64
  · rw [dif_pos h]
    simp only [total, longest, nanosecondsPerSecond, limit64] at h ⊢
    omega
  · rw [dif_neg h]
    simp only [total, longest, nanosecondsPerSecond, limit64] at h ⊢
    omega

/-- Multiplying the seconds and the nanoseconds, with a carry, multiplies the whole. -/
theorem times_eq (d : Duration) (n : Nat) : d.times n = ofNanoseconds (d.total * n) := by
  have hpos : 0 < nanosecondsPerSecond := by decide
  have hsplit : d.total * n = d.nanoseconds * n + nanosecondsPerSecond * (d.seconds * n) := by
    rw [total, Nat.add_mul, Nat.mul_right_comm, Nat.add_comm, Nat.mul_comm nanosecondsPerSecond]
  unfold times times? ofNanoseconds
  simp only [hsplit, Nat.add_mul_div_left _ _ hpos, Nat.add_mul_mod_self_left,
    Nat.add_comm (d.seconds * n)]
  split <;> rfl

end Duration

end AppletHost.Number
