import AppletHost.Hosting.Ports
import Mathlib.Data.List.Induction

/-!
# Which ports a pool can still lease

A port below the cursor is free, leased, or lost. It is lost when it has its turn and the probe
refuses it: the cursor goes past it, and only ports that are given back come to the free ones. So a
pool can be exhausted though a port of its range is neither leased nor refused.

`PortPool.Kept` is what every use of a pool keeps: the free and the leased ports lie below the cursor,
and no port is both. From it follow

> `lost_run_iff`: the ports that are lost after a run are those that were passed over in it;

> `exhausted_iff`: no port can be leased iff every port of the range is leased, refused, or was
> passed over; and what was passed over is never leased again.
-/

namespace AppletHost.Hosting.PortPool

/-! ## What a lease does -/

/-- The outcome of a lease: a port that was given back, else one that has its turn, else none. -/
inductive Leases (pool : PortPool) (probe : Nat → Bool) : Option Nat × PortPool → Prop
  | again (port : Nat) (free : port ∈ pool.free) (passes : probe port = true) :
    Leases pool probe (some port,
      { pool with free := pool.free.filter (· != port), leased := insert port pool.leased })
  | first (port : Nat) (untried : port ∈ pool.untried) (passes : probe port = true)
      (free : ∀ p ∈ pool.free, probe p = false)
      (before : ∀ p ∈ pool.untried, p < port → probe p = false) :
    Leases pool probe
      (some port, { pool with cursor := port + 1, leased := insert port pool.leased })
  | none (free : ∀ p ∈ pool.free, probe p = false) (untried : ∀ p ∈ pool.untried, probe p = false) :
    Leases pool probe (none, { pool with cursor := max pool.cursor pool.stop })

theorem pairwise_untried (pool : PortPool) : pool.untried.Pairwise (· < ·) :=
  List.Pairwise.filter _ List.pairwise_lt_range'

theorem lease?_leases (pool : PortPool) (probe : Nat → Bool) :
    pool.Leases probe (pool.lease? probe) := by
  rw [lease?]
  split
  next port h => exact .again port (List.mem_of_find?_eq_some h) (List.find?_some h)
  next h =>
    have hfree : ∀ p ∈ pool.free, probe p = false := by simpa using h
    split
    next port h =>
      obtain ⟨hpasses, before, after, hsplit, hbefore⟩ := List.find?_eq_some_iff_append.1 h
      refine .first port (List.mem_of_find?_eq_some h) hpasses hfree fun p hp hlt => ?_
      -- the ports ascend, so the smaller one stands before the one that was found
      have hsorted := pairwise_untried pool
      rw [hsplit] at hp hsorted
      rcases List.mem_append.1 hp with hp | hp
      · simpa using hbefore p hp
      · rcases List.mem_cons.1 hp with rfl | hp
        · exact absurd hlt (Nat.lt_irrefl p)
        · have hgt := List.rel_of_pairwise_cons (List.pairwise_append.1 hsorted).2.1 hp
          exact absurd hlt (Nat.lt_asymm hgt)
    next h => exact .none hfree (by simpa using h)

/-! ## Runs -/

/-- One use of a pool; the probe of a lease is its own. -/
inductive Use where
  | lease (probe : Nat → Bool)
  | release (port : Nat)

/-- The pool after one use. -/
def use (pool : PortPool) : Use → PortPool
  | .lease probe => (pool.lease? probe).2
  | .release port => pool.release port

/-- Uses one after another. -/
def run (pool : PortPool) (uses : List Use) : PortPool := uses.foldl use pool

theorem run_snoc (pool : PortPool) (uses : List Use) (u : Use) :
    pool.run (uses ++ [u]) = (pool.run uses).use u := by
  simp [run]

/-- What every use of a pool over this range keeps. -/
structure Kept (base stop : Nat) (pool : PortPool) : Prop where
  base_eq : pool.base = base
  stop_eq : pool.stop = stop
  base_le : base ≤ pool.cursor
  free_range : ∀ p ∈ pool.free, base ≤ p ∧ p < pool.cursor ∧ p < stop
  leased_range : ∀ p ∈ pool.leased, base ≤ p ∧ p < pool.cursor ∧ p < stop
  apart : ∀ p ∈ pool.free, p ∉ pool.leased
  free_sorted : pool.free.Pairwise (· < ·)
  leased_sorted : pool.leased.Pairwise (· < ·)

section Kept

variable {base stop : Nat} {pool : PortPool}

theorem kept_ofRange (base limit : Nat) :
    Kept base (min (base + limit) Number.limit16) (ofRange base limit) where
  base_eq := rfl
  stop_eq := rfl
  base_le := Nat.le_refl base
  free_range := nofun
  leased_range := nofun
  apart := nofun
  free_sorted := .nil
  leased_sorted := .nil

/-- A lease takes a port that was not leased, and adds it to the leased ones. -/
theorem Kept.lease? (h : pool.Kept base stop) (probe : Nat → Bool) :
    (pool.lease? probe).2.Kept base stop ∧
      ∀ port, (pool.lease? probe).1 = some port → port ∉ pool.leased ∧ probe port = true ∧
        base ≤ port ∧ port < stop ∧ (pool.lease? probe).2.leased = insert port pool.leased := by
  have hleases := lease?_leases pool probe
  generalize pool.lease? probe = outcome at hleases ⊢
  cases hleases with
  | again port hfree hpasses =>
    -- a port that was given back comes out of the free ones
    obtain ⟨hbase, hcursor, hstop⟩ := h.free_range port hfree
    refine ⟨{ h with
      free_range := fun p hp => h.free_range p (List.mem_filter.1 hp).1
      leased_range := fun p hp => ?_
      apart := fun p hp hleased => ?_
      free_sorted := h.free_sorted.filter _
      leased_sorted := pairwise_insert h.leased_sorted }, ?_⟩
    · rcases mem_insert.1 hp with rfl | hp
      · exact ⟨hbase, hcursor, hstop⟩
      · exact h.leased_range p hp
    · obtain ⟨hp, hne⟩ := List.mem_filter.1 hp
      rcases mem_insert.1 hleased with rfl | hleased
      · simp at hne
      · exact h.apart p hp hleased
    · rintro _ ⟨⟩
      exact ⟨h.apart port hfree, hpasses, hbase, hstop, rfl⟩
  | first port huntried hpasses _ _ =>
    -- a port that was never tried moves the cursor behind it
    obtain ⟨hcursor, hstop, hnot⟩ := mem_untried.1 huntried
    rw [h.stop_eq] at hstop
    have hbase := h.base_le
    refine ⟨{ h with
      base_le := Nat.le_succ_of_le (Nat.le_trans hbase hcursor)
      free_range := fun p hp => ?_
      leased_range := fun p hp => ?_
      apart := fun p hp hleased => ?_
      leased_sorted := pairwise_insert h.leased_sorted }, ?_⟩
    · obtain ⟨hp, hlt, hp'⟩ := h.free_range p hp
      exact ⟨hp, Nat.lt_succ_of_le (Nat.le_trans (Nat.le_of_lt hlt) hcursor), hp'⟩
    · rcases mem_insert.1 hp with rfl | hp
      · exact ⟨Nat.le_trans hbase hcursor, Nat.lt_succ_self p, hstop⟩
      · obtain ⟨hp, hlt, hp'⟩ := h.leased_range p hp
        exact ⟨hp, Nat.lt_succ_of_le (Nat.le_trans (Nat.le_of_lt hlt) hcursor), hp'⟩
    · rcases mem_insert.1 hleased with rfl | hleased
      · exact absurd (h.free_range p hp).2.1 (Nat.not_lt.2 hcursor)
      · exact h.apart p hp hleased
    · rintro _ ⟨⟩
      exact ⟨hnot, hpasses, Nat.le_trans hbase hcursor, hstop, rfl⟩
  | none _ _ =>
    refine ⟨{ h with
      base_le := Nat.le_trans h.base_le (Nat.le_max_left _ _)
      free_range := fun p hp => ?_
      leased_range := fun p hp => ?_ }, nofun⟩
    · obtain ⟨hp, hlt, hp'⟩ := h.free_range p hp
      exact ⟨hp, Nat.lt_of_lt_of_le hlt (Nat.le_max_left _ _), hp'⟩
    · obtain ⟨hp, hlt, hp'⟩ := h.leased_range p hp
      exact ⟨hp, Nat.lt_of_lt_of_le hlt (Nat.le_max_left _ _), hp'⟩

theorem leased_of_exhausted {probe : Nat → Bool} (h : (pool.lease? probe).1 = none) :
    (pool.lease? probe).2.leased = pool.leased := by
  have hleases := lease?_leases pool probe
  generalize pool.lease? probe = outcome at hleases h ⊢
  cases hleases with
  | again | first => cases h
  | none => rfl

theorem Kept.release (h : pool.Kept base stop) (port : Nat) :
    (pool.release port).Kept base stop := by
  rw [PortPool.release]
  split
  next hleased =>
    have hrange := h.leased_range port (by simpa using hleased)
    refine { h with
      free_range := fun p hp => ?_
      leased_range := fun p hp => h.leased_range p (List.mem_filter.1 hp).1
      apart := fun p hp hin => ?_
      free_sorted := pairwise_insert h.free_sorted
      leased_sorted := h.leased_sorted.filter _ }
    · rcases mem_insert.1 hp with rfl | hp
      · exact hrange
      · exact h.free_range p hp
    · obtain ⟨hin, hne⟩ := List.mem_filter.1 hin
      rcases mem_insert.1 hp with rfl | hp
      · simp at hne
      · exact h.apart p hp hin
  next => exact h

theorem Kept.use (h : pool.Kept base stop) (u : Use) : (pool.use u).Kept base stop := by
  cases u with
  | lease probe => exact (h.lease? probe).1
  | release port => exact h.release port

theorem Kept.run (h : pool.Kept base stop) (uses : List Use) : (pool.run uses).Kept base stop := by
  induction uses generalizing pool with
  | nil => exact h
  | cons u uses ih => exact ih (h.use u)

/-- The probe of a lease is asked for no port twice. -/
theorem Kept.nodup_candidates (h : pool.Kept base stop) : pool.candidates.Nodup := by
  refine List.nodup_append.2 ⟨h.free_sorted.imp Nat.ne_of_lt,
    (pairwise_untried pool).imp Nat.ne_of_lt, fun p hp q hq heq => ?_⟩
  subst heq
  exact absurd (mem_untried.1 hq).1 (Nat.not_le.2 (h.free_range p hp).2.1)

end Kept

/-! ## Lost ports -/

/-- The port has had its turn, and is neither leased nor free. -/
def Lost (pool : PortPool) (p : Nat) : Prop :=
  pool.base ≤ p ∧ p < pool.stop ∧ p < pool.cursor ∧ p ∉ pool.free ∧ p ∉ pool.leased

/-- This use gives the port its turn, and its probe refuses it. -/
def PassesOver (pool : PortPool) (u : Use) (p : Nat) : Prop :=
  ∃ probe, u = .lease probe ∧ p ∈ pool.untried ∧ probe p = false ∧ p < (pool.use u).cursor

/-- In the course of these uses the port had its turn, and was refused. -/
def PassedOver (pool : PortPool) (uses : List Use) (p : Nat) : Prop :=
  ∃ before u after, uses = before ++ u :: after ∧ (pool.run before).PassesOver u p

theorem passedOver_snoc (pool : PortPool) (uses : List Use) (u : Use) (p : Nat) :
    pool.PassedOver (uses ++ [u]) p ↔ pool.PassedOver uses p ∨ (pool.run uses).PassesOver u p := by
  constructor
  · rintro ⟨before, v, after, heq, hpasses⟩
    rcases List.eq_nil_or_concat after with rfl | ⟨after, last, rfl⟩
    · obtain ⟨rfl, hlast⟩ := List.append_inj' heq rfl
      cases hlast
      exact Or.inr hpasses
    · have heq' : uses ++ [u] = (before ++ v :: after) ++ [last] := by simpa using heq
      obtain ⟨rfl, -⟩ := List.append_inj' heq' rfl
      exact Or.inl ⟨before, v, after, rfl, hpasses⟩
  · rintro (⟨before, v, after, rfl, hpasses⟩ | hpasses)
    · exact ⟨before, v, after ++ [u], by simp, hpasses⟩
    · exact ⟨uses, u, [], rfl, hpasses⟩

/-- A use loses the ports that it passes over, and finds none again. -/
theorem lost_use_iff {base stop : Nat} {pool : PortPool} (h : pool.Kept base stop) (u : Use)
    (p : Nat) : (pool.use u).Lost p ↔ pool.Lost p ∨ pool.PassesOver u p := by
  cases u with
  | lease probe =>
    have hpasses : pool.PassesOver (.lease probe) p ↔
        p ∈ pool.untried ∧ probe p = false ∧ p < (pool.lease? probe).2.cursor := by
      constructor
      · rintro ⟨_, ⟨⟩, hp⟩
        exact hp
      · exact fun hp => ⟨probe, rfl, hp⟩
    rw [hpasses, mem_untried]
    show (pool.lease? probe).2.Lost p ↔ _
    have hbase := h.base_le
    rw [← h.base_eq] at hbase
    have hleases := lease?_leases pool probe
    generalize pool.lease? probe = outcome at hleases ⊢
    cases hleases with
    | again port hfree _ =>
      -- the cursor stays, and the port goes from the free ones to the leased ones
      simp only [Lost, List.mem_filter, mem_insert, bne_iff_ne, ne_eq]
      grind
    | first port huntried hp _ hbefore =>
      simp only [mem_untried] at huntried hbefore
      have hlt := h.free_range p
      simp only [Lost, mem_insert]
      grind
    | none _ huntried =>
      simp only [mem_untried] at huntried
      have hlt := h.free_range p
      simp only [Lost]
      grind
  | release port =>
    have hnot : ¬ pool.PassesOver (.release port) p := by
      rintro ⟨_, ⟨⟩, _⟩
    rw [or_iff_left hnot]
    show (pool.release port).Lost p ↔ _
    rw [PortPool.release]
    split
    next hleased =>
      simp only [List.contains_eq_mem, decide_eq_true_eq] at hleased
      simp only [Lost, mem_insert, List.mem_filter, bne_iff_ne, ne_eq]
      grind
    next => rfl

/-- The ports that are lost are those that were passed over. -/
theorem lost_run_iff (base limit : Nat) (uses : List Use) (p : Nat) :
    ((ofRange base limit).run uses).Lost p ↔ (ofRange base limit).PassedOver uses p := by
  induction uses using List.reverseRecOn with
  | nil =>
    constructor
    · rintro ⟨hbase, -, hcursor, -⟩
      exact absurd hcursor (Nat.not_lt.2 hbase)
    · rintro ⟨before, u, after, heq, -⟩
      cases before <;> cases heq
  | append_singleton uses u ih =>
    rw [run_snoc, passedOver_snoc, ← ih]
    exact lost_use_iff ((kept_ofRange base limit).run uses) u p

/-- A lost port is asked for no more. -/
theorem not_mem_candidates_of_lost {pool : PortPool} {p : Nat} (h : pool.Lost p) :
    p ∉ pool.candidates ∧ p ∉ pool.leased := by
  obtain ⟨-, -, hcursor, hfree, hleased⟩ := h
  refine ⟨fun hp => ?_, hleased⟩
  rcases List.mem_append.1 hp with hp | hp
  · exact hfree hp
  · exact absurd (mem_untried.1 hp).1 (Nat.not_le.2 hcursor)

/-- No port can be leased iff the probe refuses all that it is asked for. -/
theorem lease?_eq_none_iff (pool : PortPool) (probe : Nat → Bool) :
    (pool.lease? probe).1 = none ↔ ∀ p ∈ pool.candidates, probe p = false := by
  simp only [candidates, List.forall_mem_append]
  have hleases := lease?_leases pool probe
  generalize pool.lease? probe = outcome at hleases ⊢
  cases hleases with
  | again port hfree hpasses =>
    refine iff_of_false nofun fun h => ?_
    rw [h.1 port hfree] at hpasses
    cases hpasses
  | first port huntried hpasses _ _ =>
    refine iff_of_false nofun fun h => ?_
    rw [h.2 port huntried] at hpasses
    cases hpasses
  | none hfree huntried => exact iff_of_true rfl ⟨hfree, huntried⟩

/-- Every port of the range is still a candidate, unless it is leased or lost. -/
theorem mem_candidates_iff {base stop : Nat} {pool : PortPool} (h : pool.Kept base stop) (p : Nat) :
    p ∈ pool.candidates ↔ base ≤ p ∧ p < stop ∧ p ∉ pool.leased ∧ ¬ pool.Lost p := by
  have hbase := h.base_le
  have hrange := h.free_range p
  have hapart := h.apart p
  simp only [candidates, List.mem_append, mem_untried, Lost, h.base_eq, h.stop_eq]
  grind

/--
In every run, no port can be leased iff every port of the range is leased, is refused by the probe,
or was passed over. A port that was passed over is never asked for nor leased again.
-/
theorem exhausted_iff (base limit : Nat) (uses : List Use) :
    (∀ probe, (((ofRange base limit).run uses).lease? probe).1 = none ↔
      ∀ p, base ≤ p → p < min (base + limit) Number.limit16 →
        p ∈ ((ofRange base limit).run uses).leased ∨ probe p = false ∨
          (ofRange base limit).PassedOver uses p) ∧
    ∀ p, (ofRange base limit).PassedOver uses p → ∀ later,
      p ∉ ((ofRange base limit).run (uses ++ later)).candidates ∧
        p ∉ ((ofRange base limit).run (uses ++ later)).leased := by
  have hkept := (kept_ofRange base limit).run uses
  constructor
  · intro probe
    rw [lease?_eq_none_iff]
    simp only [mem_candidates_iff hkept, lost_run_iff]
    grind
  · rintro p ⟨before, u, after, rfl, hpasses⟩ later
    have hlost : (ofRange base limit).PassedOver (before ++ u :: after ++ later) p :=
      ⟨before, u, after ++ later, by simp, hpasses⟩
    exact not_mem_candidates_of_lost ((lost_run_iff base limit _ p).2 hlost)

/-- A pool of one port, which was refused once: it is exhausted though the port is not leased and
would pass the probe. -/
theorem refused_once_exhausted :
    let pool := (ofRange 4100 1).run [.lease fun _ => false]
    (pool.lease? fun _ => true).1 = none ∧
      ∃ p, 4100 ≤ p ∧ p < min (4100 + 1) Number.limit16 ∧ p ∉ pool.leased := by
  exact ⟨by decide, 4100, by decide, by decide, by decide⟩

end AppletHost.Hosting.PortPool
