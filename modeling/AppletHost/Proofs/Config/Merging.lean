import AppletHost.Config.Layer
import AppletHost.Proofs.Value.Canonical

/-!
# What stands where in merged trees

A tree is told by what stands at its paths: a leaf, a table, or nothing (`node?`, `eq_of_node?`). A
layer decides a path if it has a table there, or a leaf there or on the way there. The way in which
one layer is put over another is one law about paths:

> `node?_deepMerge`: at a path that the upper layer decides the merged tree is as the upper layer is,
> and at every other path as the lower one is.

The law is proved by induction on the path. What a merge does to the fields under one name
(`get?_deepMerge`) is all that its step needs, so no proof after it looks into the two recursions of
`deepMerge`. The environment, which sets one path after another, obeys the same law, because to set a
path is to merge the tree that has this one leaf (`setPath_eq_deepMerge`).
-/

namespace AppletHost.Config

/-! ## Paths -/

/-- What stands at a path of a tree. -/
inductive Node where
  | table
  | leaf (v : Value)

/-- What stands at a path, if anything does; whatever is no table is a leaf. -/
def node? (v : Value) : (path : List String) → Option Node
  | [] => some (match v with
    | .obj _ => .table
    | v => .leaf v)
  | name :: rest =>
    match v.get? name with
    | none => none
    | some w => node? w rest

/-- The layer has a table at the path, or a leaf at the path or on the way to it. -/
def Decides (layer : Value) (path : List String) : Prop :=
  node? layer path = some .table ∨
    ∃ before after v, path = before ++ after ∧ node? layer before = some (.leaf v)

theorem node?_nil_of_leaf {v : Value} (h : v.obj? = none) : node? v [] = some (.leaf v) := by
  cases v with
  | obj fields => cases h
  | _ => rfl

theorem get?_of_leaf {v : Value} (h : v.obj? = none) (name : String) : v.get? name = none := by
  cases v with
  | obj fields => cases h
  | _ => rfl

theorem eq_obj_of_obj? {v : Value} {fields : Fields} (h : v.obj? = some fields) :
    v = .obj fields := by
  cases v with
  | obj g => cases h; rfl
  | _ => cases h

/-- A path is followed by its first name, and from there by the rest. -/
theorem node?_cons (v : Value) (name : String) (rest : List String) :
    node? v (name :: rest) = (v.get? name).bind fun w => node? w rest := by
  rw [node?]
  cases v.get? name with
  | none => rfl
  | some w => rfl

/-- Every layer decides what stands at the root. -/
theorem decides_nil (v : Value) : Decides v [] := by
  cases hv : v.obj? with
  | some fields =>
    rw [eq_obj_of_obj? hv]
    exact Or.inl rfl
  | none => exact Or.inr ⟨[], [], v, rfl, node?_nil_of_leaf hv⟩

/-- A leaf decides whatever lies beyond it; a table leaves it to what it has under the name. -/
theorem decides_cons (v : Value) (name : String) (rest : List String) :
    Decides v (name :: rest) ↔ v.obj? = none ∨ ∃ w, v.get? name = some w ∧ Decides w rest := by
  constructor
  · intro h
    rcases h with htable | ⟨before, after, w, hsplit, hleaf⟩
    · rw [node?_cons] at htable
      obtain ⟨w, hw, htable⟩ := Option.bind_eq_some_iff.1 htable
      exact Or.inr ⟨w, hw, Or.inl htable⟩
    · cases before with
      | nil =>
        refine Or.inl ?_
        cases v with
        | obj fields => cases hleaf
        | _ => rfl
      | cons first before =>
        obtain ⟨rfl, rfl⟩ := List.cons.inj hsplit
        rw [node?_cons] at hleaf
        obtain ⟨u, hu, hleaf⟩ := Option.bind_eq_some_iff.1 hleaf
        exact Or.inr ⟨u, hu, Or.inr ⟨before, after, w, rfl, hleaf⟩⟩
  · intro h
    rcases h with hv | ⟨w, hw, htable | ⟨before, after, u, rfl, hleaf⟩⟩
    · exact Or.inr ⟨[], name :: rest, v, rfl, node?_nil_of_leaf hv⟩
    · refine Or.inl ?_
      rw [node?_cons, hw]
      exact htable
    · refine Or.inr ⟨name :: before, after, u, rfl, ?_⟩
      rw [node?_cons, hw]
      exact hleaf

theorem node?_obj_cons (fields : Fields) (name : String) (rest : List String) :
    node? (.obj fields) (name :: rest) = (Fields.get? fields name).bind fun w => node? w rest :=
  node?_cons _ _ _

/-- An object decides a path if it has the first name and what stands there decides the rest. -/
theorem decides_obj_cons (fields : Fields) (name : String) (rest : List String) :
    Decides (.obj fields) (name :: rest) ↔
      ∃ v, Fields.get? fields name = some v ∧ Decides v rest := by
  rw [decides_cons]
  exact or_iff_right fun h => nomatch h

instance decidableDecides : (v : Value) → (path : List String) → Decidable (Decides v path)
  | v, [] => .isTrue (decides_nil v)
  | .obj fields, name :: rest =>
    match hw : Fields.get? fields name with
    | none => .isFalse (by simp [decides_obj_cons, hw])
    | some w =>
      have := decidableDecides w rest
      decidable_of_iff (Decides w rest) (by simp [decides_obj_cons, hw])
  | .null, name :: rest | .bool _, name :: rest | .int _, name :: rest | .float _, name :: rest
  | .str _, name :: rest | .arr _, name :: rest => .isTrue ((decides_cons _ _ _).2 (Or.inl rfl))

/-- A layer that has a node at a path decides the path. -/
theorem decides_of_node? {layer : Value} {path : List String} {n : Node}
    (h : node? layer path = some n) : Decides layer path := by
  cases n with
  | table => exact Or.inl h
  | leaf v => exact Or.inr ⟨path, [], v, (List.append_nil path).symm, h⟩

/-- A layer that does not decide a path has nothing there. -/
theorem node?_of_not_decides {layer : Value} {path : List String} (h : ¬ Decides layer path) :
    node? layer path = none := by
  cases hn : node? layer path with
  | none => rfl
  | some n => exact absurd (decides_of_node? hn) h

/-- A leaf is told by what stands at the empty path. -/
theorem eq_of_leaf {a b : Value} (ha : a.obj? = none) (h : node? a [] = node? b []) : a = b := by
  rw [node?_nil_of_leaf ha] at h
  cases hb : b.obj? with
  | some fields =>
    rw [eq_obj_of_obj? hb] at h
    cases h
  | none =>
    rw [node?_nil_of_leaf hb] at h
    cases h
    rfl

/-- Canonical trees with the same leaves and tables at the same paths are equal. -/
theorem eq_of_node? {a b : Value} (ha : a.Canonical) (hb : b.Canonical)
    (h : ∀ path, node? a path = node? b path) : a = b := by
  induction ha generalizing b with
  | null | bool | int | float | str => exact eq_of_leaf rfl (h [])
  | arr each ih => exact eq_of_leaf rfl (h [])
  | @obj fields sorted each ih =>
    cases hb' : b.obj? with
    | none => exact (eq_of_leaf hb' (h []).symm).symm
    | some g =>
      obtain rfl := eq_obj_of_obj? hb'
      have hbelow : ∀ name rest, ((fields.get? name).bind fun w => node? w rest) =
          (g.get? name).bind fun w => node? w rest := by
        intro name rest
        rw [← node?_obj_cons, ← node?_obj_cons]
        exact h (name :: rest)
      congr 1
      refine Fields.ext_get? sorted hb.sorted ?_
      intro name
      -- something stands at the path of this one name in both trees, or in neither
      have hroot := hbelow name []
      cases hf : fields.get? name with
      | none =>
        cases hg : g.get? name with
        | none => rfl
        | some w =>
          rw [hf, hg] at hroot
          cases hroot
      | some v =>
        cases hg : g.get? name with
        | none =>
          rw [hf, hg] at hroot
          cases hroot
        | some w =>
          congr 1
          refine ih name v (sorted.mem_iff.2 hf) (hb.of_get? hg) ?_
          intro rest
          have hrest := hbelow name rest
          rwa [hf, hg] at hrest

/-! ## One layer over another -/

/-- A value over what the lower layer has in its place, if it has anything. -/
def laidOver (lower : Option Value) (upper : Value) : Value :=
  match lower with
  | some w => deepMerge w upper
  | none => upper

theorem deepMerge_of_leaf (base : Value) {overlay : Value} (h : overlay.obj? = none) :
    deepMerge base overlay = overlay := by
  cases overlay with
  | obj fields => cases h
  | _ => simp only [deepMerge]

/-- An object that is laid over a leaf hides it, as any leaf hides what it is laid over. -/
theorem deepMerge_of_leaf_base {base : Value} (h : base.obj? = none) (upper : Fields) :
    deepMerge base (.obj upper) = .obj upper := by
  cases base with
  | obj fields => cases h
  | _ => simp only [deepMerge]

/-- Fields are laid over one at a time, each over what stands under its name so far. -/
theorem mergeFields_cons (base : Fields) (name : String) (v : Value) (rest : Fields) :
    mergeFields base ((name, v) :: rest) =
      mergeFields (base.set name (laidOver (base.get? name) v)) rest := by
  rw [mergeFields]
  rfl

/-- Under a name stands what the upper field makes of the lower one, or the lower field where the
upper layer has none. -/
theorem get?_mergeFields {upper : Fields} (h : (Fields.names upper).Nodup) (base : Fields)
    (name : String) :
    Fields.get? (mergeFields base upper) name =
      ((upper.get? name).map (laidOver (base.get? name))).or (base.get? name) := by
  induction upper generalizing base with
  | nil =>
    rw [mergeFields]
    rfl
  | cons f rest ih =>
    obtain ⟨k, v⟩ := f
    obtain ⟨hk, hrest⟩ := List.nodup_cons.1 h
    rw [mergeFields_cons, ih hrest, Fields.get?_set, Fields.get?]
    by_cases heq : k = name
    · subst heq
      have hnone : Fields.get? rest k = none := Fields.get?_eq_none_of_not_mem hk
      simp [hnone]
    · simp [heq]

/-- What a table over a layer comes to have under each name. -/
theorem get?_deepMerge (base : Value) {upper : Fields} (h : upper.Sorted) :
    ∃ fields, deepMerge base (.obj upper) = .obj fields ∧ ∀ name, Fields.get? fields name =
      ((upper.get? name).map (laidOver (base.get? name))).or (base.get? name) := by
  cases hbase : base.obj? with
  | some lower =>
    obtain rfl := eq_obj_of_obj? hbase
    exact ⟨mergeFields lower upper, by rw [deepMerge], get?_mergeFields h.nodup lower⟩
  | none =>
    refine ⟨upper, deepMerge_of_leaf_base hbase upper, ?_⟩
    intro name
    rw [get?_of_leaf hbase]
    cases Fields.get? upper name with
    | none => rfl
    | some v => rfl

/--
A layer over another has, at a path that the upper layer decides, what the upper layer has there, and
at every other path what the lower layer has there.
-/
theorem node?_deepMerge {overlay : Value} (h : overlay.Canonical) (base : Value)
    (path : List String) :
    (Decides overlay path → node? (deepMerge base overlay) path = node? overlay path) ∧
      (¬ Decides overlay path → node? (deepMerge base overlay) path = node? base path) := by
  induction path generalizing base overlay with
  | nil =>
    refine ⟨fun _ => ?_, fun hnot => absurd (decides_nil overlay) hnot⟩
    cases hoverlay : overlay.obj? with
    | none => rw [deepMerge_of_leaf base hoverlay]
    | some upper =>
      obtain rfl := eq_obj_of_obj? hoverlay
      obtain ⟨fields, hmerge, -⟩ := get?_deepMerge base h.sorted
      rw [hmerge]
      rfl
  | cons name rest ih =>
    cases hoverlay : overlay.obj? with
    | none =>
      rw [deepMerge_of_leaf base hoverlay]
      exact ⟨fun _ => rfl, fun hnot => absurd ((decides_cons _ _ _).2 (Or.inl hoverlay)) hnot⟩
    | some upper =>
      obtain rfl := eq_obj_of_obj? hoverlay
      obtain ⟨fields, hmerge, hfields⟩ := get?_deepMerge base h.sorted
      rw [hmerge, node?_obj_cons, node?_obj_cons, node?_cons base, hfields, decides_obj_cons]
      -- the upper table leaves the path to the value under the name, if it has one
      cases hv : Fields.get? upper name with
      | none =>
        refine ⟨fun hdec => ?_, fun _ => rfl⟩
        obtain ⟨w, hw, -⟩ := hdec
        cases hw
      | some v =>
        have hdec : (∃ w, some v = some w ∧ Decides w rest) ↔ Decides v rest := by simp
        rw [hdec]
        cases base.get? name with
        | none => exact ⟨fun _ => rfl, node?_of_not_decides⟩
        | some w => exact ih (h.of_get? hv) w

/-- Where no table of the upper layer stands in the place of a leaf of the lower one, the merged tree
decides what the two layers decide. -/
theorem decides_deepMerge {overlay : Value} (h : overlay.Canonical) {base : Value}
    (hclear : ∀ path v, node? base path = some (.leaf v) → node? overlay path ≠ some .table)
    (path : List String) :
    Decides (deepMerge base overlay) path ↔ Decides overlay path ∨ Decides base path := by
  constructor
  · intro hdec
    by_cases ho : Decides overlay path
    · exact Or.inl ho
    · refine Or.inr ?_
      rcases hdec with htable | ⟨before, after, v, rfl, hleaf⟩
      · rw [(node?_deepMerge h base path).2 ho] at htable
        exact Or.inl htable
      · by_cases hb : Decides overlay before
        · -- a leaf of the upper layer on the way would decide the path
          rw [(node?_deepMerge h base before).1 hb] at hleaf
          exact absurd (Or.inr ⟨before, after, v, rfl, hleaf⟩) ho
        · rw [(node?_deepMerge h base before).2 hb] at hleaf
          exact Or.inr ⟨before, after, v, rfl, hleaf⟩
  · intro hor
    by_cases ho : Decides overlay path
    · rcases ho with htable | ⟨before, after, v, rfl, hleaf⟩
      · refine Or.inl ?_
        rw [(node?_deepMerge h base path).1 (Or.inl htable)]
        exact htable
      · refine Or.inr ⟨before, after, v, rfl, ?_⟩
        rw [(node?_deepMerge h base before).1 (decides_of_node? hleaf)]
        exact hleaf
    · rcases hor.resolve_left ho with htable | ⟨before, after, v, rfl, hleaf⟩
      · refine Or.inl ?_
        rw [(node?_deepMerge h base path).2 ho]
        exact htable
      · have hb : ¬ Decides overlay before := by
          intro hb
          rcases hb with htable | ⟨first, rest, w, rfl, hw⟩
          · exact hclear before v hleaf htable
          · exact ho (Or.inr ⟨first, rest ++ after, w, by simp, hw⟩)
        refine Or.inr ⟨before, after, v, rfl, ?_⟩
        rw [(node?_deepMerge h base before).2 hb]
        exact hleaf

/-- Laying fields over fields leaves them sorted and without doubles, if the values keep to it. -/
theorem canonical_mergeFields {base upper : Fields} (hbase : (Value.obj base).Canonical)
    (hupper : ∀ name v, (name, v) ∈ upper → v.Canonical ∧
      ∀ w : Value, w.Canonical → (deepMerge w v).Canonical) :
    (Value.obj (mergeFields base upper)).Canonical := by
  induction upper generalizing base with
  | nil =>
    rw [mergeFields]
    exact hbase
  | cons f rest ih =>
    obtain ⟨name, v⟩ := f
    obtain ⟨hv, hmerge⟩ := hupper name v List.mem_cons_self
    rw [mergeFields_cons]
    refine ih (hbase.set ?_ name) fun k w hw => hupper k w (List.mem_cons_of_mem _ hw)
    cases hget : Fields.get? base name with
    | none => exact hv
    | some w => exact hmerge w (hbase.of_get? hget)

/-- So a merge of canonical values is canonical; the induction is on the upper one, along with its
fields. -/
theorem canonical_deepMerge {overlay : Value} (h : overlay.Canonical) {base : Value}
    (hbase : base.Canonical) : (deepMerge base overlay).Canonical := by
  induction h generalizing base with
  | null | bool | int | float | str =>
    rw [deepMerge_of_leaf base rfl]
    constructor
  | arr each ih =>
    rw [deepMerge_of_leaf base rfl]
    exact .arr each
  | @obj upper sorted each ih =>
    cases hb : base.obj? with
    | some lower =>
      obtain rfl := eq_obj_of_obj? hb
      rw [deepMerge]
      refine canonical_mergeFields hbase fun name v hv => ?_
      exact ⟨each name v hv, fun w hw => ih name v hv hw⟩
    | none =>
      rw [deepMerge_of_leaf_base hb]
      exact .obj sorted each

/-! ## Layers with one leaf -/

/-- The tree with one leaf, at the path. -/
def branch (path : List String) (leaf : Value) : Value :=
  path.foldr (fun name v => .obj [(name, v)]) leaf

theorem branch_cons (name : String) (rest : List String) (leaf : Value) :
    branch (name :: rest) leaf = .obj [(name, branch rest leaf)] := rfl

/-- A single branch is canonical from its leaf up, having one field at each level. -/
theorem canonical_branch (path : List String) {leaf : Value} (h : leaf.Canonical) :
    (branch path leaf).Canonical := by
  induction path with
  | nil => exact h
  | cons name rest ih =>
    refine .obj (List.pairwise_singleton _ _) ?_
    intro k v hmem
    cases List.mem_singleton.1 hmem
    exact ih

/-- A branch has its leaf at its path, and tables on the way there. -/
theorem node?_branch (path : List String) {leaf : Value} (h : leaf.obj? = none) (p : List String) :
    node? (branch path leaf) p =
      if p = path then some (.leaf leaf) else if p <+: path then some .table else none := by
  induction path generalizing p with
  | nil =>
    cases p with
    | nil => exact node?_nil_of_leaf h
    | cons name rest =>
      rw [show branch [] leaf = leaf from rfl, node?_cons, get?_of_leaf h]
      simp
  | cons k path ih =>
    rw [branch_cons]
    cases p with
    | nil => simp [node?]
    | cons name rest =>
      rw [node?_obj_cons, Fields.get?]
      by_cases hk : k = name
      · subst hk
        simp [ih, List.cons_prefix_cons]
      · simp [hk, Ne.symm hk, List.cons_prefix_cons]

/-- A branch decides what lies along it: the paths that it goes through, and all that lies beyond its
leaf. -/
theorem decides_branch (path : List String) {leaf : Value} (h : leaf.obj? = none)
    (p : List String) : Decides (branch path leaf) p ↔ p <+: path ∨ path <+: p := by
  unfold Decides
  simp only [node?_branch path h]
  constructor
  · intro hdec
    rcases hdec with htable | ⟨before, after, v, rfl, hleaf⟩
    · by_cases hp : p = path
      · exact Or.inl (hp ▸ List.prefix_rfl)
      · rw [if_neg hp] at htable
        by_cases hpre : p <+: path
        · exact Or.inl hpre
        · rw [if_neg hpre] at htable
          cases htable
    · by_cases hb : before = path
      · exact Or.inr (hb ▸ List.prefix_append before after)
      · rw [if_neg hb] at hleaf
        split at hleaf
        · cases hleaf
        · cases hleaf
  · intro hdec
    by_cases hp : p = path
    · exact Or.inr ⟨path, [], leaf, by simp [hp], by simp⟩
    · rcases hdec with hpre | ⟨after, hafter⟩
      · exact Or.inl (by rw [if_neg hp, if_pos hpre])
      · exact Or.inr ⟨path, after, leaf, hafter.symm, by simp⟩

/-- To set a path is to merge the tree that has this one leaf. -/
theorem setPath_eq_deepMerge (path : List String) {leaf : Value} (h : leaf.obj? = none)
    (tree : Value) : setPath tree path leaf = deepMerge tree (branch path leaf) := by
  induction path generalizing tree with
  | nil =>
    rw [setPath]
    exact (deepMerge_of_leaf tree h).symm
  | cons name rest ih =>
    have hempty : deepMerge (.obj []) (branch rest leaf) = branch rest leaf := by
      cases rest with
      | nil => exact deepMerge_of_leaf _ h
      | cons k rest =>
        rw [branch_cons, deepMerge, mergeFields_cons, mergeFields]
        rfl
    rw [setPath, branch_cons]
    cases htree : tree.obj? with
    | none =>
      rw [deepMerge_of_leaf_base htree]
      show Value.obj [(name, setPath (.obj []) rest leaf)] = _
      rw [ih, hempty]
    | some fields =>
      obtain rfl := eq_obj_of_obj? htree
      rw [deepMerge, mergeFields_cons, mergeFields]
      show Value.obj (Fields.set fields name
        (setPath ((Fields.get? fields name).getD (.obj [])) rest leaf)) = _
      rw [ih]
      cases Fields.get? fields name with
      | none => rw [Option.getD_none, hempty]; rfl
      | some w => rfl

end AppletHost.Config
