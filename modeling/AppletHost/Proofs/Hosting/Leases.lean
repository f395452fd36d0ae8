import AppletHost.Config.Validation
import AppletHost.Hosting.Host
import AppletHost.Proofs.Hosting.Ports

/-!
# The leases of a host

The settings of a host name its render ports twice: the check of the settings takes the first and the
last port of the range, in words of 16 bits, and the pool of the host the first one and the one after
the last, in words of 32 bits. For settings that pass the check the two are the same ports
(`range_of_renderPortEnd?`), and no sum on the way leaves its word (`words_of_range`,
`words_of_port`).

`Out` says of a port that it was handed out and not given back since. Each use hands out one port,
takes one back, or does neither (`mem_leased_use`), so after any uses the leased ports are those that
are out (`mem_leased_run`). A probe is a function here: one lease asks for no port twice
(`Kept.nodup_candidates`). Together:

> `leases_of_valid`: whatever is leased and given back, in any order and with any probes, a host with
> settings that pass the check hands out free ports of its range only, none of which is a port that it
> listens on itself, and the leased ports are those that are out.
-/

namespace AppletHost.Hosting

namespace PortPool

/-! ## Who has a port -/

/-- In the course of these uses the port was handed out, and not given back since. -/
def Out (pool : PortPool) (uses : List Use) (port : Nat) : Prop :=
  ∃ before probe after, uses = before ++ .lease probe :: after ∧
    ((pool.run before).lease? probe).1 = some port ∧ Use.release port ∉ after

/-- One use hands a port out, or takes it back, or leaves it with whom it was. -/
theorem mem_leased_use (pool : PortPool) (u : Use) (port : Nat) :
    port ∈ (pool.use u).leased ↔
      (∃ probe, u = .lease probe ∧ (pool.lease? probe).1 = some port) ∨
        (port ∈ pool.leased ∧ u ≠ .release port) := by
  cases u with
  | lease probe =>
    have hprobe : (∃ q, Use.lease probe = .lease q ∧ (pool.lease? q).1 = some port) ↔
        (pool.lease? probe).1 = some port := by
      constructor
      · intro ⟨q, hq, hport⟩
        cases hq
        exact hport
      · intro hport
        exact ⟨probe, rfl, hport⟩
    rw [hprobe, and_iff_left (show Use.lease probe ≠ .release port by nofun)]
    show port ∈ (pool.lease? probe).2.leased ↔ _
    have hleases := lease?_leases pool probe
    generalize pool.lease? probe = outcome at hleases ⊢
    cases hleases with
    | again p _ _ | first p _ _ _ _ => simp only [mem_insert, Option.some.injEq, eq_comm]
    | none _ _ => simp
  | release p =>
    have hnot : ¬ ∃ probe, Use.release p = .lease probe ∧ (pool.lease? probe).1 = some port := by
      intro ⟨_, h, _⟩
      cases h
    rw [or_iff_right hnot]
    show port ∈ (pool.release p).leased ↔ _
    rw [mem_release]
    simp only [ne_eq, Use.release.injEq, eq_comm]

theorem out_cons (pool : PortPool) (u : Use) (uses : List Use) (port : Nat) :
    pool.Out (u :: uses) port ↔
      (∃ probe, u = .lease probe ∧ (pool.lease? probe).1 = some port ∧ Use.release port ∉ uses) ∨
        (pool.use u).Out uses port := by
  constructor
  · intro ⟨before, probe, after, hsplit, hport, hafter⟩
    cases before with
    | nil =>
      obtain ⟨rfl, rfl⟩ := List.cons.inj hsplit
      exact Or.inl ⟨probe, rfl, hport, hafter⟩
    | cons v before =>
      obtain ⟨rfl, rfl⟩ := List.cons.inj hsplit
      exact Or.inr ⟨before, probe, after, rfl, hport, hafter⟩
  · intro h
    rcases h with ⟨probe, rfl, hport, hafter⟩ | ⟨before, probe, after, rfl, hport, hafter⟩
    · exact ⟨[], probe, uses, rfl, hport, hafter⟩
    · exact ⟨u :: before, probe, after, rfl, hport, hafter⟩

/-- The leased ports after a run are those that were leased all along, and those that are out. -/
theorem mem_leased_run (pool : PortPool) (uses : List Use) (port : Nat) :
    port ∈ (pool.run uses).leased ↔
      (port ∈ pool.leased ∧ Use.release port ∉ uses) ∨ pool.Out uses port := by
  induction uses generalizing pool with
  | nil =>
    have hnot : ¬ pool.Out [] port := by
      intro ⟨before, _, _, hsplit, _⟩
      cases before <;> cases hsplit
    show port ∈ pool.leased ↔ _
    simp [hnot]
  | cons u uses ih =>
    show port ∈ ((pool.use u).run uses).leased ↔ _
    rw [ih, mem_leased_use, out_cons]
    grind

/-! ## The range -/

/-- The cursor does not go past the end of the range. -/
theorem cursor_le_run {base stop : Nat} {pool : PortPool} (h : pool.Kept base stop)
    (hcursor : pool.cursor ≤ stop) (uses : List Use) : (pool.run uses).cursor ≤ stop := by
  induction uses generalizing pool with
  | nil => exact hcursor
  | cons u uses ih =>
    refine ih (h.use u) ?_
    cases u with
    | lease probe =>
      show (pool.lease? probe).2.cursor ≤ stop
      have hleases := lease?_leases pool probe
      generalize pool.lease? probe = outcome at hleases ⊢
      cases hleases with
      | again _ _ _ => exact hcursor
      | first port huntried _ _ _ =>
        have hport := (mem_untried.1 huntried).2.1
        rw [h.stop_eq] at hport
        exact hport
      | none _ _ => exact Nat.max_le.2 ⟨hcursor, Nat.le_of_eq h.stop_eq⟩
    | release port =>
      show (pool.release port).cursor ≤ stop
      unfold release
      split
      · exact hcursor
      · exact hcursor

/-- The first and the last port of the render range, and the first one after it. -/
theorem range_of_renderPortEnd? {s : Config.Server} {last : Nat}
    (hlast : s.renderPortEnd? = some last) :
    1 ≤ s.renderPortLimit ∧ s.renderPortBase + (s.renderPortLimit - 1) = last ∧
      last < Number.limit16 ∧ (ofRange s.renderPortBase s.renderPortLimit).stop = last + 1 := by
  obtain ⟨hlimit, hsum, hle⟩ := Config.Server.renderPortEnd?_eq_some_iff.1 hlast
  have hbound : last < Number.limit16 := Nat.lt_succ_of_le hle
  refine ⟨by omega, by omega, hbound, ?_⟩
  show min (s.renderPortBase + s.renderPortLimit) Number.limit16 = last + 1
  omega

/-- Reckoned in words, the last port of the range and the end of the pool are what they are as
numbers: `base + (limit - 1)` in words of 16 bits, `base + limit` in words of 32 bits. -/
theorem words_of_range {base limit : Nat} (hbase : base ≠ 0) (hlimit : 1 ≤ limit)
    (hlast : base + (limit - 1) < Number.limit16) :
    (limit.toUInt16 - 1).toNat = limit - 1 ∧
      (base.toUInt16 + (limit.toUInt16 - 1)).toNat = base + (limit - 1) ∧
      (base.toUInt32 + limit.toUInt32).toNat = base + limit := by
  unfold Number.limit16 at hlast
  have hbase16 : base.toUInt16.toNat = base :=
    UInt16.toNat_ofNat_of_lt (by show base < 65536; omega)
  have hlimit16 : limit.toUInt16.toNat = limit :=
    UInt16.toNat_ofNat_of_lt (by show limit < 65536; omega)
  have hbase32 : base.toUInt32.toNat = base :=
    UInt32.toNat_ofNat_of_lt (by show base < 4294967296; omega)
  have hlimit32 : limit.toUInt32.toNat = limit :=
    UInt32.toNat_ofNat_of_lt (by show limit < 4294967296; omega)
  have hspan : (limit.toUInt16 - 1).toNat = limit - 1 := by
    have hone : (1 : UInt16) ≤ limit.toUInt16 := by
      show (1 : UInt16).toNat ≤ limit.toUInt16.toNat
      rw [hlimit16]
      exact hlimit
    rw [UInt16.toNat_sub_of_le _ _ hone, hlimit16]
    rfl
  refine ⟨hspan, ?_, ?_⟩
  · rw [UInt16.toNat_add, hbase16, hspan]
    exact Nat.mod_eq_of_lt hlast
  · rw [UInt32.toNat_add, hbase32, hlimit32]
    omega

/-- A port of the range is a word of 16 bits, and the cursor goes past it within a word of 32 bits. -/
theorem words_of_port {port : Nat} (h : port < Number.limit16) :
    port.toUInt16.toNat = port ∧ (port.toUInt32 + 1).toNat = port + 1 := by
  unfold Number.limit16 at h
  have hport : port.toUInt32.toNat = port :=
    UInt32.toNat_ofNat_of_lt (by show port < 4294967296; omega)
  refine ⟨UInt16.toNat_ofNat_of_lt h, ?_⟩
  rw [UInt32.toNat_add, hport]
  show (port + 1) % 4294967296 = port + 1
  omega

/-! ## All uses of the pool of a host -/

/--
For settings that pass their check, with `last` the last port of their render range:

* the range reckoned in words of 16 bits, as the check does, and in words of 32 bits, as the pool
  does, is the range reckoned in numbers, and so is every step of the cursor through it;
* every port that is handed out lies in the range, passed its probe, was not leased, and is neither of
  the ports that the host listens on;
* the leased ports are those that were handed out and not given back since, each listed once;
* to give back a port that is not leased changes nothing.
-/
theorem leases_of_valid (settings : Config.Settings) (valid : settings.validate = .ok ()) :
    let s := settings.server
    let pool := (Host.ofSettings settings).ports
    ∃ last, s.renderPortEnd? = some last ∧
      ((s.renderPortLimit.toUInt16 - 1).toNat + 1 = s.renderPortLimit ∧
        (s.renderPortBase.toUInt16 + (s.renderPortLimit.toUInt16 - 1)).toNat = last ∧
        (s.renderPortBase.toUInt32 + s.renderPortLimit.toUInt32).toNat = last + 1 ∧
        pool.stop = last + 1 ∧
        ∀ port < pool.stop, port.toUInt16.toNat = port ∧ (port.toUInt32 + 1).toNat = port + 1) ∧
      ∀ uses, (pool.run uses).cursor ≤ pool.stop ∧
        (∀ probe port, ((pool.run uses).lease? probe).1 = some port →
          s.renderPortBase ≤ port ∧ port ≤ last ∧ probe port = true ∧ port ∉ (pool.run uses).leased ∧
            port ≠ s.controlPort ∧ port ≠ s.pushPort) ∧
        (pool.run uses).leased.Pairwise (· < ·) ∧
        (∀ port, port ∈ (pool.run uses).leased ↔ pool.Out uses port) ∧
        ∀ port, port ∉ (pool.run uses).leased → (pool.run uses).release port = pool.run uses := by
  intro s pool
  have hserver : s.validate = .ok () := (Config.bind_eq_ok_iff.1 valid).1
  obtain ⟨-, -, -, hbase, -, last, hlast, hcontrol, hpush⟩ :=
    (Config.Server.validate_eq_ok_iff s).1 hserver
  -- settings that are valid have a last render port, from which all bounds on words follow
  obtain ⟨hlimit, hsum, hbound, hstop⟩ := range_of_renderPortEnd? hlast
  obtain ⟨hspan, hwords, hwide⟩ := words_of_range hbase hlimit (hsum.symm ▸ hbound)
  have hend : pool.stop = last + 1 := hstop
  have hkept : pool.Kept s.renderPortBase (last + 1) := by
    rw [← hstop]
    exact kept_ofRange s.renderPortBase s.renderPortLimit
  refine ⟨last, hlast, ⟨by omega, hwords.trans hsum, by omega, hend, ?_⟩, ?_⟩
  · intro port hport
    exact words_of_port (by omega)
  · intro uses
    have hrun := hkept.run uses
    refine ⟨?_, ?_, hrun.leased_sorted, ?_, ?_⟩
    · have hcursor : pool.cursor ≤ last + 1 := by
        show s.renderPortBase ≤ last + 1
        omega
      rw [hend]
      exact cursor_le_run hkept hcursor uses
    · intro probe port hport
      obtain ⟨hnot, hpasses, hbase, hlt, -⟩ := (hrun.lease? probe).2 port hport
      exact ⟨hbase, by omega, hpasses, hnot, by omega, by omega⟩
    · intro port
      rw [mem_leased_run]
      exact or_iff_right fun h => nomatch h.1
    · intro port hport
      unfold release
      rw [if_neg (by simpa using hport)]

/-- The standard settings pass their check. Of two ports that are handed out in turn, where the second
probe refuses port 4101, the first is given back and the second is out. -/
theorem leases_of_standard :
    let pool := (Host.ofSettings Config.Settings.standard).ports
    let uses := [.lease fun _ => true, .lease fun port => port != 4101, .release 4100]
    Config.Settings.standard.validate = .ok () ∧ pool.Out uses 4102 ∧ ¬ pool.Out uses 4100 := by
  intro pool uses
  have hvalid : Config.Settings.standard.validate = .ok () := by decide
  obtain ⟨_, _, _, huses⟩ := leases_of_valid Config.Settings.standard hvalid
  have hout := (huses uses).2.2.2.1
  exact ⟨hvalid, (hout 4102).1 (by decide), fun h => absurd ((hout 4100).2 h) (by decide)⟩

end PortPool

end AppletHost.Hosting
