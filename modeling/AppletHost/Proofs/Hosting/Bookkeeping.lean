import AppletHost.Proofs.Hosting.Changes
import AppletHost.Proofs.Hosting.Ports

/-!
# What a host knows of its running apps

A host keeps the running apps by name, the name of the active one, a flag in every app, and the ports
that are leased. Two invariants keep these in step, whatever is launched and terminated:

* `Host.Orderly`: apps are found under their own names, the flag is set for the active one and for no
  other, and in the mode that replaces there is one app at most;
* `Host.Leases`: a port is leased iff a running app has it, and no two of them have the same.

> `running_apps_kept`: both hold after every run of a host whose range of ports does not start at 0,
> and a launch that the catalog refuses changes nothing.

A listener for port 0 gets some other port, which the host does not lease; so ports that are bound
have to be those that are reported (`HostStep.ReportsPort`).
-/

namespace AppletHost.Hosting

/-- A listener that is bound to a port, and does not leave the choice open, reports that port. -/
def HostStep.ReportsPort : HostStep → Prop
  | .launch env _ => ∀ port, port ≠ 0 → env.reportedPort port = port
  | _ => True

namespace Host

/-- Running apps, active app and flags agree. -/
structure Orderly (h : Host) : Prop where
  sorted : h.instances.Sorted
  named : ∀ name i, h.instance? name = some i → i.name = name
  active_runs : ∀ name, h.active = some name → h.instance? name ≠ none
  flagged : ∀ name i, h.instance? name = some i → (i.isActive = true ↔ h.active = some name)
  alone : h.mode = .replace → ∀ name i name' i',
    h.instance? name = some i → h.instance? name' = some i' → name = name'

/-- The ports that are leased are those of the running apps. -/
structure Leases (base stop : Nat) (h : Host) : Prop where
  kept : h.ports.Kept base stop
  leased_iff : ∀ p, p ∈ h.ports.leased ↔ ∃ name i, h.instance? name = some i ∧ i.port = p
  distinct : ∀ name i name' i', h.instance? name = some i → h.instance? name' = some i' →
    i.port = i'.port → name = name'

/-- In an orderly host each running app is found under its name. -/
theorem Orderly.found {h : Host} (ho : h.Orderly) {f : String × Instance} (hf : f ∈ h.instances) :
    h.instance? f.1 = some f.2 :=
  ho.sorted.mem_iff.1 hf

theorem Orderly.names_ne {h : Host} (ho : h.Orderly) :
    h.instances.Pairwise fun f g => f.1 ≠ g.1 :=
  List.pairwise_map.1 ho.sorted.nodup

/-! ## The same apps -/

/-- What the host goes by in a running app. -/
def identity (i : Instance) : String × Nat × Bool := (i.name, i.port, i.isActive)

/-- The same apps run, on the same ports and with the same flags. -/
def SameApps (h h' : Host) : Prop :=
  ∀ name, (h'.instance? name).map identity = (h.instance? name).map identity

section SameApps

variable {h h' : Host}

theorem SameApps.symm (hsame : SameApps h h') : SameApps h' h := fun name => (hsame name).symm

/-- Hosts with the same apps find an app together, with the same port and the same answer to whether
it is active. -/
theorem SameApps.found (hsame : SameApps h h') {name : String} {i' : Instance}
    (hfound : h'.instance? name = some i') :
    ∃ i, h.instance? name = some i ∧ i.name = i'.name ∧ i.port = i'.port ∧
      i.isActive = i'.isActive := by
  have hmap := hsame name
  rw [hfound] at hmap
  obtain ⟨i, hi, heq⟩ := Option.map_eq_some_iff.1 hmap.symm
  simp only [identity, Prod.mk.injEq] at heq
  exact ⟨i, hi, heq⟩

/-- A step that leaves the instances alone leaves the apps the same. -/
theorem sameApps_of_instances (hinstances : h'.instances = h.instances) : SameApps h h' := by
  intro name
  rw [instance?, instance?, hinstances]

/-- An app that does something stays the same app: name, port and flag are not what acting changes. -/
theorem sameApps_act {name : String} {i i' : Instance} {o' : Outlets}
    (hruns : h.instance? name = some i) (hacts : i.Acts h.outlets i' o') :
    SameApps h { h with outlets := o', instances := Fields.set h.instances name i' } := by
  intro other
  show (Fields.get? (Fields.set h.instances name i') other).map identity = _
  rw [Fields.get?_set]
  split
  next heq =>
    rw [← heq, hruns, Option.map_some, Option.map_some, identity, hacts.name, hacts.port,
      hacts.isActive]
    rfl
  next => rfl

/-- A host stays orderly under whatever keeps its apps, its active name and its mode, as long as the
instances are still sorted. -/
theorem Orderly.congr (ho : h.Orderly) (hsorted : h'.instances.Sorted) (hsame : SameApps h h')
    (hactive : h'.active = h.active) (hmode : h'.mode = h.mode) : h'.Orderly where
  sorted := hsorted
  named := by
    intro name i' hi'
    obtain ⟨i, hi, hname, -⟩ := hsame.found hi'
    exact hname.symm.trans (ho.named name i hi)
  active_runs := by
    intro name hname hnone
    rw [hactive] at hname
    obtain ⟨i, hi⟩ := Option.ne_none_iff_exists'.1 (ho.active_runs name hname)
    obtain ⟨i', hi', -⟩ := hsame.symm.found hi
    rw [hnone] at hi'
    cases hi'
  flagged := by
    intro name i' hi'
    obtain ⟨i, hi, -, -, hflag⟩ := hsame.found hi'
    rw [← hflag, hactive]
    exact ho.flagged name i hi
  alone := by
    intro hreplace name i' name' j' hi' hj'
    obtain ⟨i, hi, -⟩ := hsame.found hi'
    obtain ⟨j, hj, -⟩ := hsame.found hj'
    exact ho.alone (hmode ▸ hreplace) name i name' j hi hj

/-- So do the leases: they speak of the names and ports of the apps, and of the pool. -/
theorem Leases.congr {base stop : Nat} (hl : h.Leases base stop) (hsame : SameApps h h')
    (hkept : h'.ports.Kept base stop)
    (hleased : ∀ p, p ∈ h'.ports.leased ↔ p ∈ h.ports.leased) : h'.Leases base stop where
  kept := hkept
  leased_iff := by
    intro p
    rw [hleased, hl.leased_iff]
    constructor
    · rintro ⟨name, i, hi, hport⟩
      obtain ⟨i', hi', -, hport', -⟩ := hsame.symm.found hi
      exact ⟨name, i', hi', hport'.trans hport⟩
    · rintro ⟨name, i', hi', hport⟩
      obtain ⟨i, hi, -, hport', -⟩ := hsame.found hi'
      exact ⟨name, i, hi, hport'.trans hport⟩
  distinct := by
    intro name i' name' j' hi' hj' heq
    obtain ⟨i, hi, -, hiport, -⟩ := hsame.found hi'
    obtain ⟨j, hj, -, hjport, -⟩ := hsame.found hj'
    exact hl.distinct name i name' j hi hj (hiport.trans (heq.trans hjport.symm))

end SameApps

/-! ## What every change keeps -/

section Change

variable {h h' : Host} {step : HostStep}

/-- No app is active once the active one is removed; removing any other app leaves the active one. -/
theorem Orderly.active_remove (ho : h.Orderly) (name : String) :
    (h.remove name).active = if h.active = some name then none else h.active := by
  unfold Host.remove
  split
  next hnone => rw [if_neg fun hactive => ho.active_runs name hactive hnone]
  next => rfl

/-- Removing an app takes its name out, and the active name with it if it was that one. -/
theorem Orderly.remove (ho : h.Orderly) (name : String) : (h.remove name).Orderly where
  sorted := by
    unfold Host.remove
    split
    · exact ho.sorted
    · exact ho.sorted.erase name
  named := by
    intro n i hi
    rw [instance?_remove] at hi
    split at hi
    · cases hi
    · exact ho.named n i hi
  active_runs := by
    intro n hn
    rw [ho.active_remove] at hn
    split at hn
    next => cases hn
    next hne =>
      rw [instance?_remove, if_neg fun heq => hne (hn.trans (congrArg some heq.symm))]
      exact ho.active_runs n hn
  flagged := by
    intro n i hi
    rw [instance?_remove] at hi
    split at hi
    next => cases hi
    next hne =>
      rw [ho.active_remove, ho.flagged n i hi]
      split
      next heq => exact iff_of_false (fun h => hne (Option.some.inj (heq.symm.trans h))) nofun
      next => rfl
  alone := by
    intro hreplace n i n' i' hi hi'
    have hchange : Change .shutdown h (h.remove name) := .remove h name
    have hmode : (h.remove name).mode = h.mode := hchange.fixed.2
    rw [hmode] at hreplace
    rw [instance?_remove] at hi hi'
    split at hi
    · cases hi
    · split at hi'
      · cases hi'
      · exact ho.alone hreplace n i n' i' hi hi'

/-- An app that is started becomes the active one, and its flag is the only one that is set. Where an
app runs alone, the others have to be gone by then. -/
theorem Orderly.activate (ho : h.Orderly) (i : Instance) (alone : h.mode = .replace → h.instances = []) :
    (h.activate i).Orderly where
  sorted := by
    have hmap := ho.sorted.map fun j => j.setActive false
    exact hmap.set i.name (i.setActive true)
  named := by
    intro n j hj
    rw [instance?_activate] at hj
    split at hj
    next heq =>
      cases hj
      exact heq
    next =>
      obtain ⟨k, hk, rfl⟩ := Option.map_eq_some_iff.1 hj
      exact ho.named n k hk
  active_runs := by
    intro n hn
    have heq : i.name = n := Option.some.inj hn
    rw [instance?_activate, if_pos heq]
    exact nofun
  flagged := by
    intro n j hj
    rw [instance?_activate] at hj
    split at hj
    next heq =>
      cases hj
      exact iff_of_true rfl (congrArg some heq)
    next hne =>
      obtain ⟨k, -, rfl⟩ := Option.map_eq_some_iff.1 hj
      exact iff_of_false nofun fun h => hne (Option.some.inj h)
  alone := by
    intro hreplace n j n' j' hj hj'
    -- in this mode the host was emptied, so there is just the app that becomes active
    have hnone : ∀ name, h.instance? name = none := by
      intro name
      rw [instance?, alone hreplace, Fields.get?_nil]
    rw [instance?_activate, hnone] at hj hj'
    split at hj
    next heq =>
      split at hj'
      next heq' => exact heq.symm.trans heq'
      next => cases hj'
    next => cases hj

/-- The step lemma of the bookkeeping: each kind of change leaves an orderly host orderly. -/
theorem Orderly.change (ho : h.Orderly) (hchange : Change step h h') : h'.Orderly := by
  cases hchange with
  | act name i i' o' runs acts =>
    exact ho.congr (ho.sorted.set name i') (sameApps_act runs acts) rfl rfl
  | remove name => exact ho.remove name
  | start env name app port i o' _ _ _ alone _ _ =>
    have hroom : ({ h with ports := (h.ports.lease? env.isBindable).2, outlets := o' } : Host).Orderly :=
      ho.congr ho.sorted (sameApps_of_instances rfl) rfl rfl
    exact hroom.activate i alone
  | connect =>
    obtain ⟨o, heq⟩ := h.connectViewer_eq
    rw [heq]
    exact ho.congr ho.sorted (sameApps_of_instances rfl) rfl rfl
  | exhaust | giveBack | send | write | close | tick =>
    exact ho.congr ho.sorted (sameApps_of_instances rfl) rfl rfl

/-- Removing an app gives its port back to the pool, so that the leased ports are again those of the
apps. -/
theorem Leases.remove {base stop : Nat} (hl : h.Leases base stop) (name : String) :
    (h.remove name).Leases base stop := by
  cases hfound : h.instance? name with
  | none =>
    have hsame : h.remove name = h := by
      rw [Host.remove, hfound]
    rwa [hsame]
  | some i =>
    have hports : (h.remove name).ports = h.ports.release i.port := by
      rw [Host.remove, hfound]
    refine ⟨hports ▸ hl.kept.release i.port, fun p => ?_, fun n j n' j' hj hj' => ?_⟩
    · rw [hports, PortPool.mem_release, hl.leased_iff]
      constructor
      · rintro ⟨⟨n, j, hj, rfl⟩, hne⟩
        refine ⟨n, j, ?_, rfl⟩
        rw [instance?_remove, if_neg ?_, hj]
        rintro rfl
        rw [hfound] at hj
        cases hj
        exact hne rfl
      · rintro ⟨n, j, hj, rfl⟩
        rw [instance?_remove] at hj
        split at hj
        next => cases hj
        next hne => exact ⟨⟨n, j, hj, rfl⟩, fun heq => hne (hl.distinct name i n j hfound hj heq.symm)⟩
    · rw [instance?_remove] at hj hj'
      split at hj
      · cases hj
      · split at hj'
        · cases hj'
        · exact hl.distinct n j n' j' hj hj'

/-- An app is started on a port that no other app has, since the port comes fresh out of the pool. -/
theorem Leases.activate {base stop : Nat} (hl : h.Leases base stop) {i : Instance} {port : Nat}
    {ports : PortPool} {o' : Outlets} (hport : i.port = port) (hroom : h.instance? i.name = none)
    (hkept : ports.Kept base stop) (hfree : port ∉ h.ports.leased)
    (hleased : ports.leased = PortPool.insert port h.ports.leased) :
    (({ h with ports, outlets := o' } : Host).activate i).Leases base stop := by
  have hfound : ∀ name j, (({ h with ports, outlets := o' } : Host).activate i).instance? name = some j ↔
      (name = i.name ∧ j = i.setActive true) ∨
        ∃ k, h.instance? name = some k ∧ j = k.setActive false := by
    intro name j
    rw [instance?_activate]
    split
    next heq =>
      subst heq
      constructor
      · rintro ⟨⟩
        exact Or.inl ⟨rfl, rfl⟩
      · rintro (⟨-, rfl⟩ | ⟨k, hk, -⟩)
        · rfl
        · rw [hroom] at hk
          cases hk
    next hne =>
      constructor
      · intro hj
        obtain ⟨k, hk, rfl⟩ := Option.map_eq_some_iff.1 hj
        exact Or.inr ⟨k, hk, rfl⟩
      · rintro (⟨rfl, -⟩ | ⟨k, hk, rfl⟩)
        · exact absurd rfl hne
        · exact Option.map_eq_some_iff.2 ⟨k, hk, rfl⟩
  -- the ports of the other apps were leased before
  have hother : ∀ name k, h.instance? name = some k → k.port ≠ port := by
    rintro name k hk rfl
    exact hfree ((hl.leased_iff k.port).2 ⟨name, k, hk, rfl⟩)
  refine ⟨hkept, fun p => ?_, fun n j n' j' hj hj' heq => ?_⟩
  · show p ∈ ports.leased ↔ _
    rw [hleased, PortPool.mem_insert, hl.leased_iff]
    constructor
    · rintro (rfl | ⟨name, k, hk, rfl⟩)
      · exact ⟨i.name, _, (hfound _ _).2 (Or.inl ⟨rfl, rfl⟩), hport⟩
      · exact ⟨name, _, (hfound _ _).2 (Or.inr ⟨k, hk, rfl⟩), rfl⟩
    · rintro ⟨name, j, hj, rfl⟩
      rcases (hfound _ _).1 hj with ⟨-, rfl⟩ | ⟨k, hk, rfl⟩
      · exact Or.inl hport
      · exact Or.inr ⟨name, k, hk, rfl⟩
  · rcases (hfound _ _).1 hj with ⟨rfl, rfl⟩ | ⟨k, hk, rfl⟩ <;>
      rcases (hfound _ _).1 hj' with ⟨rfl, rfl⟩ | ⟨k', hk', rfl⟩
    · rfl
    · exact absurd (heq.symm.trans hport) (hother n' k' hk')
    · exact absurd (heq.trans hport) (hother n k hk)
    · exact hl.distinct n k n' k' hk hk' heq

/-- The step lemma of the leases: a change keeps the leased ports those of the running apps. The port
that a launch reports has to be the one that was leased for it. -/
theorem Leases.change {base stop : Nat} (hbase : base ≠ 0) (hreports : step.ReportsPort)
    (hl : h.Leases base stop) (hchange : Change step h h') : h'.Leases base stop := by
  cases hchange with
  | act name i i' o' runs acts => exact hl.congr (sameApps_act runs acts) hl.kept fun _ => Iff.rfl
  | remove name => exact hl.remove name
  | exhaust probe exhausted =>
    refine hl.congr (sameApps_of_instances rfl) (hl.kept.lease? probe).1 fun p => ?_
    rw [PortPool.leased_of_exhausted exhausted]
  | giveBack probe port leased =>
    obtain ⟨hkept, hsome⟩ := hl.kept.lease? probe
    obtain ⟨hnot, -, -, -, hleased⟩ := hsome port leased
    refine hl.congr (sameApps_of_instances rfl) (hkept.release port) fun p => ?_
    rw [PortPool.mem_release, hleased, PortPool.mem_insert]
    constructor
    · rintro ⟨rfl | hp, hne⟩
      · exact absurd rfl hne
      · exact hp
    · exact fun hp => ⟨Or.inr hp, fun heq => hnot (heq ▸ hp)⟩
  | start env name app port i o' launch loaded room _ leased starts =>
    subst launch
    obtain ⟨hkept, hsome⟩ := hl.kept.lease? env.isBindable
    obtain ⟨hnot, -, hle, -, hleased⟩ := hsome port leased
    have hport : i.port = port :=
      starts.port.trans (hreports port (Nat.ne_of_gt (Nat.lt_of_lt_of_le (Nat.pos_of_ne_zero hbase) hle)))
    have hname : i.name = name := starts.name.trans (Catalog.name_of_load loaded)
    exact hl.activate hport (hname ▸ room) hkept hnot hleased
  | connect =>
    obtain ⟨o, heq⟩ := h.connectViewer_eq
    rw [heq]
    exact hl.congr (sameApps_of_instances rfl) hl.kept fun _ => Iff.rfl
  | send | write | close | tick =>
    exact hl.congr (sameApps_of_instances rfl) hl.kept fun _ => Iff.rfl

/-- A step is made of such changes, so it keeps the host in order as well. -/
theorem Orderly.changes (ho : h.Orderly) (hchanges : Changes step h h') : h'.Orderly :=
  hchanges.keeps (fun _ _ hchange ho => ho.change hchange) ho

end Change

/-! ## Runs -/

/-- Nothing runs at first, so all that is said of running apps holds of a host that was just made. -/
theorem not_runs_ofSettings (s : Config.Settings) (name : String) (i : Instance) :
    (ofSettings s).instance? name ≠ some i := by
  have hnone : (ofSettings s).instance? name = none := rfl
  rw [hnone]
  exact nofun

/-- A host that was just made runs nothing, and is in order. -/
theorem orderly_ofSettings (s : Config.Settings) : (ofSettings s).Orderly where
  sorted := .nil
  named := fun name i hi => absurd hi (not_runs_ofSettings s name i)
  active_runs := fun name hactive => by
    have hnone : (ofSettings s).active = none := rfl
    rw [hnone] at hactive
    cases hactive
  flagged := fun name i hi => absurd hi (not_runs_ofSettings s name i)
  alone := fun _ name i _ _ hi => absurd hi (not_runs_ofSettings s name i)

/-- Its pool is the range of the settings, of which nothing is leased yet. -/
theorem leases_ofSettings (s : Config.Settings) :
    (ofSettings s).Leases s.server.renderPortBase
      (min (s.server.renderPortBase + s.server.renderPortLimit) Number.limit16) where
  kept := PortPool.kept_ofRange _ _
  leased_iff := fun _ =>
    iff_of_false List.not_mem_nil fun ⟨name, i, hi, _⟩ => not_runs_ofSettings s name i hi
  distinct := fun name i _ _ hi => absurd hi (not_runs_ofSettings s name i)

/-- The run lemma: a host is in order after any steps whatever. -/
theorem orderly_run (s : Config.Settings) (steps : List HostStep) :
    ((ofSettings s).run steps).Orderly :=
  run_keeps (fun _ _ _ _ hchange ho => ho.change hchange) (orderly_ofSettings s)

/-- And its leases are those of its apps, as long as every launch reports the port it was given. -/
theorem leases_run (s : Config.Settings) (hbase : s.server.renderPortBase ≠ 0)
    (steps : List HostStep) (hreports : ∀ step ∈ steps, step.ReportsPort) :
    ((ofSettings s).run steps).Leases s.server.renderPortBase
      (min (s.server.renderPortBase + s.server.renderPortLimit) Number.limit16) :=
  run_keeps (fun step hstep _ _ hchange hl => hl.change hbase (hreports step hstep) hchange)
    (leases_ofSettings s)

/-- The ports of the running apps. -/
def runningPorts (h : Host) : List Nat := h.instances.map fun (_, i) => i.port

/-- The ports that are leased are those of the running apps, each of which has its own. -/
theorem Leases.perm {base stop : Nat} {h : Host} (hl : h.Leases base stop) (ho : h.Orderly) :
    h.ports.leased.Perm h.runningPorts ∧ h.runningPorts.Nodup := by
  have hnodup : h.runningPorts.Nodup := by
    -- two places in the list have two names, so the ports at them differ
    refine List.pairwise_map.2 (ho.names_ne.imp_of_mem fun {f g} hf hg hne heq => hne ?_)
    exact hl.distinct f.1 f.2 g.1 g.2 (ho.found hf) (ho.found hg) heq
  have hleased : h.ports.leased.Nodup := hl.kept.leased_sorted.imp Nat.ne_of_lt
  refine ⟨(List.perm_ext_iff_of_nodup hleased hnodup).2 fun p => ?_, hnodup⟩
  rw [hl.leased_iff, runningPorts, List.mem_map]
  constructor
  · rintro ⟨name, i, hi, hport⟩
    exact ⟨(name, i), ho.sorted.mem_iff.2 hi, hport⟩
  · rintro ⟨⟨name, i⟩, hmem, hport⟩
    exact ⟨name, i, ho.sorted.mem_iff.1 hmem, hport⟩

/-- Where an app runs alone, one app runs at most: any two of them would have one name. -/
theorem Orderly.length_le {h : Host} (ho : h.Orderly) (hreplace : h.mode = .replace) :
    h.instances.length ≤ 1 := by
  match hinstances : h.instances with
  | [] => exact Nat.zero_le 1
  | [_] => exact Nat.le_refl 1
  | f :: g :: rest =>
    have hnames := ho.names_ne
    rw [hinstances] at hnames
    have hne : f.1 ≠ g.1 := List.rel_of_pairwise_cons hnames List.mem_cons_self
    have hf : f ∈ h.instances := by
      rw [hinstances]
      exact List.mem_cons_self
    have hg : g ∈ h.instances := by
      rw [hinstances]
      exact List.mem_cons_of_mem f List.mem_cons_self
    exact absurd (ho.alone hreplace f.1 f.2 g.1 g.2 (ho.found hf) (ho.found hg)) hne

/--
After every run of a host with a range of ports that does not start at 0: the ports that are leased
are those of the running apps, no two of which have the same; the active app is a running one; the
flag is set for it and for no other; in the mode that replaces at most one app runs. And a launch that
fails in the catalog leaves the host as it is.
-/
theorem running_apps_kept (s : Config.Settings) (hbase : s.server.renderPortBase ≠ 0)
    (steps : List HostStep) (hreports : ∀ step ∈ steps, step.ReportsPort) :
    let h := (ofSettings s).run steps
    (h.ports.leased.Perm h.runningPorts ∧ h.runningPorts.Nodup) ∧
      (∀ name, h.active = some name → ∃ i, h.instance? name = some i) ∧
      (∀ name i, h.instance? name = some i → (i.isActive = true ↔ h.active = some name)) ∧
      (s.apps.launchMode = .replace → h.instances.length ≤ 1) ∧
      ∀ env name e, h.catalog.load env.files name = .error e → h.launch env name = (.error e, h) := by
  intro h
  have ho : h.Orderly := orderly_run s steps
  have hmode : h.mode = s.apps.launchMode := (run_fixed _ steps).2
  refine ⟨(leases_run s hbase steps hreports).perm ho, fun name hactive => ?_, ho.flagged,
    fun hreplace => ho.length_le (hmode.trans hreplace), fun env name e hfails => ?_⟩
  · exact Option.ne_none_iff_exists'.1 (ho.active_runs name hactive)
  · rw [launch, hfails]

/-- Settings with short names for the files of an app. -/
def briefSettings : Config.Settings :=
  { Config.Settings.standard with apps := ⟨"apps", .replace, "html", "js", "css"⟩ }

/-- An app whose logic registers nothing. -/
def briefApp : FileNode :=
  .directory [("apps", .directory [("a", .directory [("js", .file .empty)])])]

theorem load_briefApp :
    (ofSettings briefSettings).catalog.load briefApp "a" = .ok ⟨"a", "", none, none⟩ := by
  have hdir : FilePath.ofText "apps" = ["apps"] := by cbv
  have htemplate : FilePath.ofText "html" = ["html"] := by cbv
  have hscript : FilePath.ofText "js" = ["js"] := by cbv
  have hstyle : FilePath.ofText "css" = ["css"] := by cbv
  have hname : isDirectoryName "a" = true := by cbv
  have hcatalog : (ofSettings briefSettings).catalog = ⟨["apps"], ["js"], ["html"], ["css"]⟩ := by
    simp only [ofSettings, Catalog.ofSection, briefSettings, hdir, htemplate, hscript, hstyle]
  rw [hcatalog, Catalog.load, if_pos hname]
  rfl

theorem runningPorts_briefApp :
    ((ofSettings briefSettings).run [.launch { files := briefApp } "a"]).runningPorts = [4100] := by
  rw [run, List.foldl_cons, List.foldl_nil, step, launch, load_briefApp]
  decide +kernel

/-- The first app gets the first port. -/
theorem briefApp_kept :
    briefSettings.server.renderPortBase ≠ 0 ∧
      (∀ step ∈ [HostStep.launch { files := briefApp } "a"], step.ReportsPort) ∧
      ((ofSettings briefSettings).run [.launch { files := briefApp } "a"]).ports.leased.Perm [4100] := by
  have hbase : briefSettings.server.renderPortBase ≠ 0 := by decide
  have hreports : ∀ step ∈ [HostStep.launch { files := briefApp } "a"], step.ReportsPort := by
    intro step hstep
    cases List.mem_singleton.1 hstep
    exact fun _ _ => rfl
  have hkept := running_apps_kept briefSettings hbase _ hreports
  rw [← runningPorts_briefApp]
  exact ⟨hbase, hreports, hkept.1.1⟩

end Host

end AppletHost.Hosting
