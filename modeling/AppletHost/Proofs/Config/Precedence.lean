import AppletHost.Config.Load
import AppletHost.Proofs.Config.Merging
import Mathlib.Data.List.Induction

/-!
# Which layer a setting comes from

A configuration is loaded from the built-in defaults, the file of the user, a file that was asked for
and the environment, each over those before it. Which of them a setting comes from is told path by
path, by the law for two layers (`node?_deepMerge`).

The environment is a layer like the others. Its variables spell a tree (`spelled`), and because no
variable sets a path that runs through the path of another, to apply them one after another is to
merge that tree (`applyEnvironment_eq`). The merge is not associative where a leaf meets a table, so
this is not a matter of course: it is proved by what stands where (`node?_applied`).

> `highest_layer_decides`: whatever the files hold, and for all settings in the environment, the tree
> that is decoded has at each path what the highest layer has there that decides the path.
-/

namespace AppletHost.Config

/-! ## Settings that are spelled out one by one -/

/-- A path and the leaf to set there. -/
abbrev Setting := List String × Value

/-- Every setting is merged over the tree, one after another. -/
def applied (tree : Value) (settings : List Setting) : Value :=
  settings.foldl (fun tree s => deepMerge tree (branch s.1 s.2)) tree

/-- The tree of these settings alone. -/
def spelled (settings : List Setting) : Value := applied (.obj []) settings

/-- Every setting sets a leaf, and no path runs through the path of another setting. -/
structure Apart (settings : List Setting) : Prop where
  leaves : ∀ s ∈ settings, s.2.obj? = none ∧ s.2.Canonical
  paths : settings.Pairwise fun s t => ¬ s.1 <+: t.1 ∧ ¬ t.1 <+: s.1

/-- Settings are applied one after another, the last of them laid over what the others have made. -/
theorem applied_snoc (tree : Value) (settings : List Setting) (s : Setting) :
    applied tree (settings ++ [s]) = deepMerge (applied tree settings) (branch s.1 s.2) := by
  simp [applied]

/-- A layer of settings is spelled out the same way, over nothing. -/
theorem spelled_snoc (settings : List Setting) (s : Setting) :
    spelled (settings ++ [s]) = deepMerge (spelled settings) (branch s.1 s.2) :=
  applied_snoc _ _ _

/-- Settings that keep apart keep apart without the last, whose path lies beside all of theirs. -/
theorem Apart.of_snoc {settings : List Setting} {s : Setting} (h : Apart (settings ++ [s])) :
    Apart settings ∧ s.2.obj? = none ∧ s.2.Canonical ∧
      ∀ t ∈ settings, ¬ t.1 <+: s.1 ∧ ¬ s.1 <+: t.1 := by
  obtain ⟨hpaths, -, hcross⟩ := List.pairwise_append.1 h.paths
  obtain ⟨hleaf, hcanonical⟩ := h.leaves s (by simp)
  refine ⟨⟨fun t ht => h.leaves t (List.mem_append_left _ ht), hpaths⟩, hleaf, hcanonical, ?_⟩
  intro t ht
  exact hcross t ht s (List.mem_singleton_self s)

/-- Settings apart from each other keep a canonical tree canonical. -/
theorem canonical_applied {settings : List Setting} (h : Apart settings) {tree : Value}
    (htree : tree.Canonical) : (applied tree settings).Canonical := by
  induction settings using List.reverseRecOn with
  | nil => exact htree
  | append_singleton settings s ih =>
    obtain ⟨hsettings, -, hcanonical, -⟩ := h.of_snoc
    rw [applied_snoc]
    exact canonical_deepMerge (canonical_branch s.1 hcanonical) (ih hsettings)

/-- The leaves of the tree that settings spell are the settings. -/
theorem node?_spelled_eq_leaf_iff {settings : List Setting} (h : Apart settings)
    (path : List String) (v : Value) :
    node? (spelled settings) path = some (.leaf v) ↔ (path, v) ∈ settings := by
  induction settings using List.reverseRecOn with
  | nil =>
    refine iff_of_false ?_ List.not_mem_nil
    cases path with
    | nil => nofun
    | cons name rest => nofun
  | append_singleton settings s ih =>
    obtain ⟨hsettings, hleaf, hcanonical, hcross⟩ := h.of_snoc
    obtain ⟨hdecided, hother⟩ :=
      node?_deepMerge (canonical_branch s.1 hcanonical) (spelled settings) path
    rw [decides_branch s.1 hleaf] at hdecided hother
    rw [spelled_snoc, List.mem_append, List.mem_singleton, ← ih hsettings]
    by_cases hpath : path <+: s.1 ∨ s.1 <+: path
    · -- only the new setting has its leaf at such a path
      have hnot : ¬ node? (spelled settings) path = some (.leaf v) := by
        intro hv
        have hfar := hcross _ ((ih hsettings).1 hv)
        exact hpath.elim hfar.1 hfar.2
      rw [hdecided hpath, node?_branch s.1 hleaf, or_iff_right hnot]
      constructor
      · intro hv
        by_cases heq : path = s.1
        · rw [if_pos heq] at hv
          cases hv
          exact Prod.ext heq rfl
        · rw [if_neg heq] at hv
          split at hv
          · cases hv
          · cases hv
      · intro heq
        rw [if_pos (congrArg Prod.fst heq), ← congrArg Prod.snd heq]
    · have hne : ¬ (path, v) = s := fun heq => hpath (Or.inl (heq ▸ List.prefix_rfl))
      rw [hother hpath, or_iff_left hne]

/-- To apply settings one after another is to put the tree that they spell over the other tree, as far
as one looks at paths. -/
theorem node?_applied {settings : List Setting} (h : Apart settings) (hsome : settings ≠ [])
    (tree : Value) (path : List String) :
    (Decides (spelled settings) path →
        node? (applied tree settings) path = node? (spelled settings) path) ∧
      (¬ Decides (spelled settings) path → node? (applied tree settings) path = node? tree path) := by
  induction settings using List.reverseRecOn with
  | nil => exact absurd rfl hsome
  | append_singleton settings s ih =>
    obtain ⟨hsettings, hleaf, hcanonical, hcross⟩ := h.of_snoc
    have hbranch := canonical_branch s.1 hcanonical
    have hclear : ∀ p v, node? (spelled settings) p = some (.leaf v) →
        node? (branch s.1 s.2) p ≠ some .table := by
      intro p v hv htable
      have hfar := hcross _ ((node?_spelled_eq_leaf_iff hsettings p v).1 hv)
      rw [node?_branch s.1 hleaf, if_neg fun heq : p = s.1 => hfar.1 (heq ▸ List.prefix_rfl),
        if_neg hfar.1] at htable
      cases htable
    obtain ⟨hover, hunder⟩ := node?_deepMerge hbranch (applied tree settings) path
    obtain ⟨hover', hunder'⟩ := node?_deepMerge hbranch (spelled settings) path
    rw [spelled_snoc, applied_snoc, decides_deepMerge hbranch hclear]
    by_cases hdec : Decides (branch s.1 s.2) path
    · rw [hover hdec, hover' hdec]
      exact ⟨fun _ => rfl, fun hnot => absurd (Or.inl hdec) hnot⟩
    · rw [hunder hdec, hunder' hdec, or_iff_right hdec]
      by_cases hnil : settings = []
      · -- the empty table decides the empty path only, which every branch decides
        subst hnil
        refine ⟨fun hempty => ?_, fun _ => rfl⟩
        cases path with
        | nil => exact absurd (decides_nil _) hdec
        | cons name rest =>
          obtain ⟨w, hw, -⟩ := (decides_obj_cons [] name rest).1 hempty
          cases hw
      · exact ih hsettings hnil

/-- The layer that settings make up, if there are any. -/
def layer? (settings : List Setting) : Option Value :=
  if settings = [] then none else some (spelled settings)

theorem applied_eq_withLayer {settings : List Setting} (h : Apart settings) {tree : Value}
    (htree : tree.Canonical) : applied tree settings = withLayer tree (layer? settings) := by
  unfold layer?
  by_cases hnil : settings = []
  · rw [if_pos hnil, hnil]
    rfl
  · rw [if_neg hnil]
    have hspelled : (spelled settings).Canonical := canonical_applied h Value.canonical_empty
    show applied tree settings = deepMerge tree (spelled settings)
    refine eq_of_node? (canonical_applied h htree) (canonical_deepMerge hspelled htree) ?_
    intro path
    obtain ⟨hover, hunder⟩ := node?_applied h hnil tree path
    obtain ⟨hover', hunder'⟩ := node?_deepMerge hspelled tree path
    by_cases hdec : Decides (spelled settings) path
    · rw [hover hdec, hover' hdec]
    · rw [hunder hdec, hunder' hdec]

/-! ## The environment -/

/-- What a variable sets, if it is set to something of its kind. -/
def Variable.setting? (env : Environment) (x : Variable) : Option Setting :=
  (env.lookup x.name).bind fun raw => (x.value? raw).map fun v => (x.path, v)

/-- The settings that the environment asks for. -/
def overrides (env : Environment) : List Setting := knownVariables.filterMap (Variable.setting? env)

/-- Every known variable that is set holds a setting of its kind: a port is a port. -/
def Readable (env : Environment) : Prop :=
  ∀ x ∈ knownVariables, ∀ raw ∈ env.lookup x.name, (x.value? raw).isSome = true

instance (env : Environment) : Decidable (Readable env) :=
  inferInstanceAs (Decidable
    (∀ x ∈ knownVariables, ∀ raw ∈ env.lookup x.name, (x.value? raw).isSome = true))

/-- The value of a variable is a leaf, so no variable can open a section. -/
theorem Variable.leaf_of_value? {x : Variable} {raw : String} {v : Value}
    (h : x.value? raw = some v) : v.obj? = none ∧ v.Canonical := by
  unfold Variable.value? at h
  split at h
  · obtain ⟨n, -, rfl⟩ := Option.map_eq_some_iff.1 h
    exact ⟨rfl, .int n⟩
  · cases h
    exact ⟨rfl, .str raw⟩

/-- The paths of the variables are pairwise apart, as one sees by going through the table of them. -/
theorem apart_overrides (env : Environment) : Apart (overrides env) where
  leaves s hs := by
    obtain ⟨x, -, hx⟩ := List.mem_filterMap.1 hs
    obtain ⟨raw, -, hx⟩ := Option.bind_eq_some_iff.1 hx
    obtain ⟨v, hv, rfl⟩ := Option.map_eq_some_iff.1 hx
    exact x.leaf_of_value? hv
  paths := by
    have hknown : knownVariables.Pairwise fun x y => ¬ x.path <+: y.path ∧ ¬ y.path <+: x.path := by
      decide
    have hpath : ∀ {x : Variable} {s : Setting}, x.setting? env = some s → s.1 = x.path := by
      intro x s hs
      obtain ⟨raw, -, hs⟩ := Option.bind_eq_some_iff.1 hs
      obtain ⟨v, -, rfl⟩ := Option.map_eq_some_iff.1 hs
      rfl
    refine List.pairwise_filterMap.2 (hknown.imp ?_)
    intro x y hxy s hs t ht
    rw [hpath hs, hpath ht]
    exact hxy

/-- Variables of which every value can be read are applied one after another, and each of them is
counted. -/
theorem applyVariables_eq {env : Environment} {known : List Variable}
    (h : ∀ x ∈ known, ∀ raw ∈ env.lookup x.name, (x.value? raw).isSome = true)
    (n : Nat) (tree : Value) :
    applyVariables env known n tree =
      (applied tree (known.filterMap (Variable.setting? env)),
        .ok (n + (known.filterMap (Variable.setting? env)).length)) := by
  induction known generalizing n tree with
  | nil => rw [applyVariables]; rfl
  | cons x rest ih =>
    have hrest := fun n tree => ih (fun y hy => h y (List.mem_cons_of_mem _ hy)) n tree
    rw [applyVariables, List.filterMap_cons]
    cases hraw : env.lookup x.name with
    | none =>
      have hnone : x.setting? env = none := by rw [Variable.setting?, hraw]; rfl
      simp only [hnone]
      exact hrest n tree
    | some raw =>
      obtain ⟨v, hv⟩ := Option.isSome_iff_exists.1 (h x List.mem_cons_self raw hraw)
      have hsome : x.setting? env = some (x.path, v) := by
        rw [Variable.setting?, hraw, Option.bind_some, hv]
        rfl
      simp only [hsome, hv]
      rw [hrest, setPath_eq_deepMerge x.path (x.leaf_of_value? hv).1, List.length_cons,
        Nat.add_right_comm, Nat.add_assoc]
      rfl

/-- To apply the environment to a tree is to put the tree that its variables spell over it. -/
theorem applyEnvironment_eq {env : Environment} (h : Readable env) {tree : Value}
    (htree : tree.Canonical) :
    applyEnvironment tree env =
      (withLayer tree (layer? (overrides env)), .ok (overrides env).length) := by
  rw [← applied_eq_withLayer (apart_overrides env) htree]
  unfold applyEnvironment
  rw [applyVariables_eq h, Nat.zero_add]
  rfl

/-! ## The layers of a configuration -/

theorem canonical_defaultTree : defaultTree.Canonical := by decide

/-- Layers over the lowest one, one after another. -/
def merged (lowest : Value) (layers : List Value) : Value := layers.foldl deepMerge lowest

/-- One more layer, if it is there, is laid over those that were merged. -/
theorem merged_withLayer (lowest : Value) (layers : List Value) (layer : Option Value) :
    withLayer (merged lowest layers) layer = merged lowest (layers ++ layer.toList) := by
  cases layer with
  | none => simp [withLayer]
  | some tree => simp [withLayer, merged]

theorem canonical_merged {layers : List Value} (h : ∀ l ∈ layers, l.Canonical) {lowest : Value}
    (hlowest : lowest.Canonical) : (merged lowest layers).Canonical := by
  induction layers generalizing lowest with
  | nil => exact hlowest
  | cons layer rest ih =>
    rw [List.forall_mem_cons] at h
    exact ih h.2 (canonical_deepMerge h.1 hlowest)

/-- Layers that do not decide a path change nothing there. -/
theorem node?_merged_append {higher : List Value} (h : ∀ l ∈ higher, l.Canonical) (lowest : Value)
    (lower : List Value) {path : List String} (hnot : ∀ l ∈ higher, ¬ Decides l path) :
    node? (merged lowest (lower ++ higher)) path = node? (merged lowest lower) path := by
  induction higher using List.reverseRecOn with
  | nil => rw [List.append_nil]
  | append_singleton higher layer ih =>
    rw [List.forall_mem_append, List.forall_mem_singleton] at h hnot
    rw [← ih h.1 hnot.1, ← List.append_assoc]
    show node? ((lower ++ higher ++ [layer]).foldl deepMerge lowest) path = _
    rw [List.foldl_append]
    exact (node?_deepMerge h.2 _ path).2 hnot.2

/-- The highest layer that decides a path has there what the merged tree has. -/
theorem node?_merged_of_decides {lowest : Value} {layers lower higher : List Value} {layer : Value}
    {path : List String} (h : ∀ l ∈ layers, l.Canonical)
    (hsplit : lowest :: layers = lower ++ layer :: higher) (hdec : Decides layer path)
    (hnot : ∀ l ∈ higher, ¬ Decides l path) :
    node? (merged lowest layers) path = node? layer path := by
  cases lower with
  | nil =>
    obtain ⟨rfl, rfl⟩ := List.cons.inj hsplit
    exact node?_merged_append h lowest [] hnot
  | cons first lower =>
    have hlayers : layers = lower ++ layer :: higher := (List.cons.inj hsplit).2
    subst hlayers
    rw [List.forall_mem_append, List.forall_mem_cons] at h
    rw [List.append_cons, node?_merged_append h.2.2 lowest _ hnot]
    show node? ((lower ++ [layer]).foldl deepMerge lowest) path = _
    rw [List.foldl_append]
    exact (node?_deepMerge h.2.1 _ path).1 hdec

/-- A layer that does not decide a path decides nothing beyond it. -/
theorem not_decides_append {layer : Value} {path : List String} (h : ¬ Decides layer path)
    (below : List String) : ¬ Decides layer (path ++ below) := by
  induction path generalizing layer with
  | nil => exact absurd (decides_nil layer) h
  | cons name rest ih =>
    rw [decides_cons] at h
    rw [List.cons_append, decides_cons]
    intro hor
    rcases hor with hleaf | ⟨w, hw, hdec⟩
    · exact h (Or.inl hleaf)
    · exact ih (fun hw' => h (Or.inr ⟨w, hw, hw'⟩)) hdec

/-- The layers over the defaults, the lowest first. -/
def layersOf (user explicit : Option Value) (env : Environment) : List Value :=
  user.toList ++ explicit.toList ++ (layer? (overrides env)).toList

/-- Every layer of a load is canonical: files were read so, and variables are spelled out so. -/
theorem canonical_layersOf {user explicit : Option Value} (huser : ∀ t ∈ user, t.Canonical)
    (hexplicit : ∀ t ∈ explicit, t.Canonical) (env : Environment) :
    ∀ l ∈ layersOf user explicit env, l.Canonical := by
  have hlayer : ∀ t ∈ layer? (overrides env), t.Canonical := by
    intro t ht
    unfold layer? at ht
    split at ht
    · cases ht
    · cases ht
      exact canonical_applied (apart_overrides env) Value.canonical_empty
  intro l hl
  simp only [layersOf, List.mem_append, Option.mem_toList] at hl
  rcases hl with (hl | hl) | hl
  · exact huser l hl
  · exact hexplicit l hl
  · exact hlayer l hl

/-- The settings of a merged tree. -/
def settingsOf (tree : Value) : Except ConfigError Settings :=
  match Settings.decode? Toml.constant? tree with
  | none => .error (.malformed .merged)
  | some settings => settings.validate.map fun _ => settings

/-- A load whose variables can all be read is the reading of settings from the merged tree. -/
theorem load_eq {user explicit : Option Value} {env : Environment} {tree : Value} {n : Nat}
    (h : applyEnvironment (withLayer (withLayer defaultTree user) explicit) env = (tree, .ok n)) :
    load user explicit env =
      settingsOf (applyEnvironment (withLayer (withLayer defaultTree user) explicit) env).1 := by
  unfold load settingsOf
  rw [h]
  dsimp only [bind, Except.bind]
  cases Settings.decode? Toml.constant? tree with
  | none => rfl
  | some settings => rfl

/--
Whatever the two files hold, of any shape and depth, and whatever known variables the environment
sets, with ports that are ports, let `tree` be the tree that is decoded and checked in the end.

* At each path `tree` has what the highest layer has there that decides the path, with the defaults
  the lowest layer, then the file of the user, the file that was asked for, and the environment. So
  the path is a leaf of `tree` iff that layer has a leaf exactly there, and it is the same leaf. At a
  path that no layer decides there is nothing.
* The environment is the layer whose leaves are its settings, and to apply it to any tree is to merge
  this layer.
* At a path that the higher layers do not decide, and everywhere below it, `tree` is as the lower
  layers are.
-/
theorem highest_layer_decides (user explicit : Option Value) (env : Environment)
    (huser : ∀ t ∈ user, t.Canonical) (hexplicit : ∀ t ∈ explicit, t.Canonical)
    (henv : Readable env) :
    let layers := layersOf user explicit env
    let tree := (applyEnvironment (withLayer (withLayer defaultTree user) explicit) env).1
    load user explicit env = settingsOf tree ∧
      (∀ path lower layer higher, defaultTree :: layers = lower ++ layer :: higher →
        Decides layer path → (∀ l ∈ higher, ¬ Decides l path) → node? tree path = node? layer path) ∧
      (∀ path, (∀ l ∈ defaultTree :: layers, ¬ Decides l path) → node? tree path = none) ∧
      (∀ path v, node? (spelled (overrides env)) path = some (.leaf v) ↔ (path, v) ∈ overrides env) ∧
      (∀ base : Value, base.Canonical → applyEnvironment base env =
        (withLayer base (layer? (overrides env)), .ok (overrides env).length)) ∧
      ∀ path lower higher, layers = lower ++ higher → (∀ l ∈ higher, ¬ Decides l path) →
        ∀ below, node? tree (path ++ below) = node? (merged defaultTree lower) (path ++ below) := by
  intro layers tree
  have hall := canonical_layersOf huser hexplicit env
  -- the tree is the merge of all layers, the environment being one of them
  have hfiles : withLayer (withLayer defaultTree user) explicit =
      merged defaultTree (user.toList ++ explicit.toList) := by
    rw [show defaultTree = merged defaultTree [] from rfl, merged_withLayer, merged_withLayer]
    rfl
  have hcanonical : (withLayer (withLayer defaultTree user) explicit).Canonical := by
    rw [hfiles]
    refine canonical_merged ?_ canonical_defaultTree
    intro l hl
    exact hall l (List.mem_append_left _ hl)
  have happly := applyEnvironment_eq henv hcanonical
  have htree : tree = merged defaultTree layers := by
    show (applyEnvironment _ env).1 = _
    rw [happly, hfiles]
    exact merged_withLayer defaultTree _ _
  refine ⟨?_, ?_, ?_, ?_, ?_, ?_⟩
  · exact load_eq happly
  · intro path lower layer higher hsplit hdec hnot
    rw [htree]
    exact node?_merged_of_decides hall hsplit hdec hnot
  · intro path hnot
    rw [List.forall_mem_cons] at hnot
    rw [htree, ← List.nil_append layers, node?_merged_append hall defaultTree [] hnot.2]
    exact node?_of_not_decides hnot.1
  · exact node?_spelled_eq_leaf_iff (apart_overrides env)
  · intro base hbase
    exact applyEnvironment_eq henv hbase
  · intro path lower higher hsplit hnot below
    rw [htree, hsplit]
    refine node?_merged_append ?_ defaultTree lower fun l hl => not_decides_append (hnot l hl) below
    intro l hl
    refine hall l ?_
    show l ∈ layers
    rw [hsplit]
    exact List.mem_append_right lower hl

/-- The apps section is a table by default, a text for the user, and a table again in the file that was
asked for, which so far as it goes decides; what the user hides does not come back. -/
theorem hidden_by_user :
    let user : Value := .obj [("apps", .str "here"), ("server", .obj [("control_port", .int 5000)])]
    let explicit : Value := .obj [("apps", .obj [("dir", .str "there")])]
    let env : Environment := [("MINIAPP_PUSH_PORT", " +6003 ")]
    let tree := (applyEnvironment (withLayer (withLayer defaultTree (some user)) (some explicit)) env).1
    user.Canonical ∧ explicit.Canonical ∧ Readable env ∧
      node? tree ["apps", "dir"] = some (.leaf (.str "there")) ∧
      node? tree ["apps", "launch_mode"] = none ∧
      node? tree ["server", "push_port"] = some (.leaf (.int 6003)) ∧
      node? tree ["server", "render_port_base"] = some (.leaf (.int 4100)) := by
  intro user explicit env tree
  have huser : user.Canonical := by decide
  have hexplicit : explicit.Canonical := by decide
  have henv : Readable env := by decide
  obtain ⟨-, htree, -⟩ := highest_layer_decides (some user) (some explicit) env
    (fun t ht => Option.some.inj ht ▸ huser) (fun t ht => Option.some.inj ht ▸ hexplicit) henv
  let spelledOut := spelled (overrides env)
  refine ⟨huser, hexplicit, henv, ?_, ?_, ?_, ?_⟩
  · exact htree ["apps", "dir"] [defaultTree, user] explicit [spelledOut] rfl (by decide) (by decide)
  · exact htree ["apps", "launch_mode"] [defaultTree] user [explicit, spelledOut] rfl (by decide)
      (by decide)
  · exact htree ["server", "push_port"] [defaultTree, user, explicit] spelledOut [] rfl (by decide)
      (by decide)
  · exact htree ["server", "render_port_base"] [] defaultTree [user, explicit, spelledOut] rfl
      (by decide) (by decide)

end AppletHost.Config
