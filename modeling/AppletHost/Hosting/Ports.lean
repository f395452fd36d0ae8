import AppletHost.Number.Word

/-!
# Ports on lease

A pool leases ports out of a fixed range. A port that was given back is leased again before any port
that has not had its turn, the smallest first; the others have their turn once, in ascending order.
Whether a port can be used at all is up to a probe, which is asked anew for every lease.
-/

namespace AppletHost.Hosting

/-- The ports from `base` up to `stop`, and who has them; lists of ports ascend. -/
structure PortPool where
  base : Nat
  stop : Nat
  /-- The first port that has not had its turn. -/
  cursor : Nat
  /-- The ports that were given back. -/
  free : List Nat := []
  leased : List Nat := []
deriving DecidableEq, Repr, Inhabited

namespace PortPool

/-- A pool over `limit` ports from `base` on, as far as there are ports. -/
def ofRange (base limit : Nat) : PortPool :=
  { base, stop := min (base + limit) Number.limit16, cursor := base }

/-- A list of ports with one more. -/
def insert (port : Nat) : List Nat → List Nat
  | [] => [port]
  | p :: ps => if port < p then port :: p :: ps else if port = p then p :: ps else p :: insert port ps

/-- The ports that have not had their turn; one that is leased has none. -/
def untried (pool : PortPool) : List Nat :=
  (List.range' pool.cursor (pool.stop - pool.cursor)).filter fun port => !pool.leased.contains port

/-- The ports that the probe is asked for, in order, if it keeps saying no. -/
def candidates (pool : PortPool) : List Nat := pool.free ++ pool.untried

/-- The ports that the probe is asked for, in order: up to the first that it lets pass. -/
def asked (pool : PortPool) (probe : Nat → Bool) : List Nat :=
  pool.candidates.takeWhile (fun port => !probe port) ++ (pool.candidates.find? probe).toList

/-- Leases the first candidate that the probe lets pass. -/
def lease? (pool : PortPool) (probe : Nat → Bool) : Option Nat × PortPool :=
  match pool.free.find? probe with
  | some port =>
    (some port,
      { pool with free := pool.free.filter (· != port), leased := insert port pool.leased })
  | none =>
    match pool.untried.find? probe with
    | some port => (some port, { pool with cursor := port + 1, leased := insert port pool.leased })
    | none => (none, { pool with cursor := max pool.cursor pool.stop })

/-- Gives a port back; one that is not leased changes nothing. -/
def release (pool : PortPool) (port : Nat) : PortPool :=
  if pool.leased.contains port then
    { pool with leased := pool.leased.filter (· != port), free := insert port pool.free }
  else pool

theorem mem_insert {p port : Nat} {ports : List Nat} : p ∈ insert port ports ↔ p = port ∨ p ∈ ports := by
  induction ports with
  | nil => simp [insert]
  | cons q qs ih =>
    rw [insert]
    split
    · simp
    · split
      · next h => subst h; simp
      · simp [ih]; grind

theorem pairwise_insert {port : Nat} {ports : List Nat} (h : ports.Pairwise (· < ·)) :
    (insert port ports).Pairwise (· < ·) := by
  induction ports with
  | nil => simp [insert]
  | cons q qs ih =>
    obtain ⟨hq, hqs⟩ := List.pairwise_cons.1 h
    rw [insert]
    split
    · next hp => exact List.pairwise_cons.2 ⟨by grind, h⟩
    · split
      · exact h
      · exact List.pairwise_cons.2 ⟨by grind [mem_insert], ih hqs⟩

theorem mem_untried {pool : PortPool} {p : Nat} :
    p ∈ pool.untried ↔ pool.cursor ≤ p ∧ p < pool.stop ∧ p ∉ pool.leased := by
  simp only [untried, List.mem_filter, List.mem_range'_1, List.contains_eq_mem, Bool.not_eq_true',
    decide_eq_false_iff_not]
  exact ⟨fun ⟨h, hp⟩ => ⟨h.1, by omega, hp⟩, fun ⟨h, h', hp⟩ => ⟨by omega, hp⟩⟩

theorem mem_release {pool : PortPool} {p port : Nat} :
    p ∈ (pool.release port).leased ↔ p ∈ pool.leased ∧ p ≠ port := by
  rw [release]
  split
  · simp
  next h =>
    have hnot : port ∉ pool.leased := by simpa using h
    exact ⟨fun hp => ⟨hp, fun heq => hnot (heq ▸ hp)⟩, And.left⟩

end PortPool

end AppletHost.Hosting
