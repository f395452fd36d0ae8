/-!
# Values

The data of an app, the payload of an envelope and the tree of a configuration file are values:
JSON with integers and doubles kept apart. The fields of an object are kept sorted by name, each
name once, so equal objects have equal field lists.
-/

namespace AppletHost

/-- A JSON value in which `2` and `2.0` differ. -/
inductive Value where
  | null
  | bool (b : Bool)
  | int (n : Int)
  | float (x : Float)
  | str (s : String)
  | arr (items : List Value)
  | obj (fields : List (String × Value))
deriving Inhabited, Repr

/-- Fields by name: those of an object hold values, those of a table whatever it is a table of. -/
abbrev Fields (α : Type := Value) := List (String × α)

namespace Fields

variable {α : Type}

/-- The value under a name. -/
def get? : Fields α → String → Option α
  | [], _ => none
  | (k, v) :: rest, name => if k = name then some v else get? rest name

/-- Puts a value under a name, in place of the one that is there. -/
def set : Fields α → String → α → Fields α
  | [], name, v => [(name, v)]
  | (k, w) :: rest, name, v =>
    if name < k then (name, v) :: (k, w) :: rest
    else if name = k then (name, v) :: rest
    else (k, w) :: set rest name v

/-- The fields without the one of that name. -/
def erase (fields : Fields α) (name : String) : Fields α := fields.filter fun f => f.1 != name

/-- Every field of `patch` put over `base`, in order. -/
def merge (base patch : Fields α) : Fields α := patch.foldl (fun acc f => set acc f.1 f.2) base

/-- The names, in order. -/
def names (fields : Fields α) : List String := fields.map Prod.fst

/-- Fields from pairs in any order; of two with one name the later stays. -/
def ofList (pairs : List (String × α)) : Fields α := merge [] pairs

@[simp]
theorem get?_nil (name : String) : get? ([] : Fields α) name = none := rfl

theorem get?_set_self (fields : Fields α) (name : String) (v : α) :
    (fields.set name v).get? name = some v := by
  induction fields with
  | nil => simp [set, get?]
  | cons f rest ih =>
    obtain ⟨k, w⟩ := f
    rw [set]
    split
    · simp [get?]
    · split
      · simp [get?]
      · next h => simp [get?, Ne.symm h, ih]

theorem get?_set_of_ne (fields : Fields α) {name other : String} (v : α) (h : other ≠ name) :
    (fields.set name v).get? other = fields.get? other := by
  induction fields with
  | nil => simp [set, get?, Ne.symm h]
  | cons f rest ih =>
    obtain ⟨k, w⟩ := f
    rw [set]
    split
    · simp [get?, Ne.symm h]
    · split
      · next hk => subst hk; simp [get?, Ne.symm h]
      · simp [get?, ih]

theorem get?_set (fields : Fields α) (name other : String) (v : α) :
    (fields.set name v).get? other = if name = other then some v else fields.get? other := by
  split
  · next h => rw [← h, get?_set_self]
  · next h => rw [get?_set_of_ne fields v (Ne.symm h)]

/-- A merge holds what the patch says, and else what was there. -/
theorem get?_merge (base patch : Fields α) (name : String) :
    (merge base patch).get? name = ((ofList patch).get? name).or (base.get? name) := by
  induction patch generalizing base with
  | nil => rfl
  | cons f rest ih =>
    have hbase : (merge base (f :: rest)).get? name
        = ((ofList rest).get? name).or ((base.set f.1 f.2).get? name) := ih _
    have hpatch : (ofList (f :: rest)).get? name
        = ((ofList rest).get? name).or ((set [] f.1 f.2).get? name) := ih _
    rw [hbase, hpatch, get?_set, get?_set, get?_nil]
    by_cases hf : f.1 = name
    · simp [hf]
    · simp [hf]

theorem get?_eq_none_of_not_mem {fields : Fields α} {name : String} (h : name ∉ names fields) :
    fields.get? name = none := by
  induction fields with
  | nil => rfl
  | cons f rest ih =>
    obtain ⟨k, v⟩ := f
    simp only [names, List.map_cons, List.mem_cons, not_or] at h
    rw [get?, if_neg (Ne.symm h.1)]
    exact ih h.2

/-- Fields in which no name stands twice. -/
theorem get?_ofList_of_nodup {fields : Fields α} (h : (names fields).Nodup) (name : String) :
    (ofList fields).get? name = fields.get? name := by
  induction fields with
  | nil => rfl
  | cons f rest ih =>
    obtain ⟨k, v⟩ := f
    simp only [names, List.map_cons, List.nodup_cons] at h
    have hmerge : (ofList ((k, v) :: rest)).get? name
        = ((ofList rest).get? name).or ((set [] k v).get? name) := get?_merge _ rest name
    rw [hmerge, ih h.2, get?_set, get?_nil, get?]
    by_cases hk : k = name
    · subst hk
      simp [get?_eq_none_of_not_mem (show k ∉ names rest from h.1)]
    · simp [hk]

/-- The names stand in order, each one once. -/
def Sorted (fields : Fields α) : Prop := (names fields).Pairwise (· < ·)

theorem mem_names_set {fields : Fields α} {name k : String} {v : α}
    (h : k ∈ names (fields.set name v)) : k = name ∨ k ∈ names fields := by
  induction fields with
  | nil => exact Or.inl (List.mem_singleton.mp h)
  | cons f rest ih =>
    obtain ⟨l, w⟩ := f
    rw [set] at h
    split at h
    · exact List.mem_cons.mp h
    · split at h
      · exact (List.mem_cons.mp h).imp_right (List.mem_cons_of_mem l)
      · rcases List.mem_cons.mp h with rfl | hrest
        · exact Or.inr List.mem_cons_self
        · exact (ih hrest).imp_right (List.mem_cons_of_mem l)

theorem Sorted.set {fields : Fields α} (h : fields.Sorted) (name : String) (v : α) :
    (fields.set name v).Sorted := by
  induction fields with
  | nil => exact List.pairwise_singleton _ _
  | cons f rest ih =>
    obtain ⟨k, w⟩ := f
    obtain ⟨hk, hrest⟩ := List.pairwise_cons.mp h
    rw [Fields.set]
    split
    next hlt =>
      refine List.pairwise_cons.mpr ⟨fun l hl => ?_, h⟩
      rcases List.mem_cons.mp hl with rfl | hl
      · exact hlt
      · exact Std.lt_trans hlt (hk l hl)
    next hnot =>
      split
      next heq =>
        subst heq
        exact List.pairwise_cons.mpr ⟨hk, hrest⟩
      next hne =>
        refine List.pairwise_cons.mpr ⟨fun l hl => ?_, ih hrest⟩
        rcases mem_names_set hl with rfl | hl
        · exact Std.lt_of_le_of_ne (Std.not_lt.mp hnot) (Ne.symm hne)
        · exact hk l hl

theorem Sorted.merge {base : Fields α} (h : base.Sorted) (patch : Fields α) :
    (base.merge patch).Sorted := by
  induction patch generalizing base with
  | nil => exact h
  | cons f rest ih => exact ih (h.set f.1 f.2)

theorem sorted_ofList (pairs : List (String × α)) : (ofList pairs).Sorted := by
  have hnil : Sorted ([] : Fields α) := List.Pairwise.nil
  exact hnil.merge pairs

theorem Sorted.nodup {fields : Fields α} (h : fields.Sorted) : (names fields).Nodup :=
  h.imp Std.ne_of_lt

theorem get?_erase (fields : Fields α) (name other : String) :
    (fields.erase name).get? other = if name = other then none else fields.get? other := by
  induction fields with
  | nil => simp [erase]
  | cons f rest ih =>
    obtain ⟨k, v⟩ := f
    by_cases hk : k = name
    · have hcons : erase ((k, v) :: rest) name = erase rest name := by simp [erase, hk]
      rw [hcons, ih, get?, hk]
      split
      · rfl
      · rfl
    · have hcons : erase ((k, v) :: rest) name = (k, v) :: erase rest name := by simp [erase, hk]
      rw [hcons, get?, get?, ih]
      by_cases ho : k = other
      · rw [if_pos ho, if_pos ho, if_neg (ho ▸ Ne.symm hk)]
      · rw [if_neg ho, if_neg ho]

theorem get?_map {β : Type} (fields : Fields α) (f : α → β) (name : String) :
    Fields.get? (fields.map fun (k, v) => (k, f v)) name = (fields.get? name).map f := by
  induction fields with
  | nil => rfl
  | cons g rest ih =>
    obtain ⟨k, v⟩ := g
    rw [List.map_cons, get?, get?, ih]
    split
    · rfl
    · rfl

theorem Sorted.erase {fields : Fields α} (h : fields.Sorted) (name : String) :
    (fields.erase name).Sorted := by
  have hnames : (names (fields.erase name)).Sublist (names fields) := List.filter_sublist.map _
  exact List.Pairwise.sublist hnames h

theorem Sorted.map {β : Type} {fields : Fields α} (h : fields.Sorted) (f : α → β) :
    Sorted (fields.map fun (k, v) => (k, f v)) := by
  have hnames : names (fields.map fun (k, v) => (k, f v)) = names fields := by
    simp [names, Function.comp_def]
  rw [Sorted, hnames]
  exact h

/-- The fields of a name are what is found under it. -/
theorem Sorted.mem_iff {fields : Fields α} (h : fields.Sorted) {name : String} {v : α} :
    (name, v) ∈ fields ↔ fields.get? name = some v := by
  induction fields with
  | nil => simp
  | cons f rest ih =>
    obtain ⟨k, w⟩ := f
    obtain ⟨hk, hrest⟩ := List.pairwise_cons.mp h
    rw [List.mem_cons, ih hrest, get?]
    split
    next heq =>
      subst heq
      have hnone : get? rest k = none :=
        get?_eq_none_of_not_mem fun hmem => Std.lt_irrefl (hk k hmem)
      simp [hnone, eq_comm]
    next hne => simp [Ne.symm hne]

end Fields

namespace Value

/-- The object of some pairs. -/
def object (pairs : List (String × Value)) : Value := .obj (Fields.ofList pairs)

/-- The value under a name, if this is an object that has one. -/
def get? : Value → String → Option Value
  | .obj fields, name => Fields.get? fields name
  | _, _ => none

/-- The text, if this is one. -/
def str? : Value → Option String
  | .str s => some s
  | _ => none

/-- The fields, if this is an object. -/
def obj? : Value → Option Fields
  | .obj fields => some fields
  | _ => none

/-- The items, if this is an array. -/
def arr? : Value → Option (List Value)
  | .arr items => some items
  | _ => none

/-- The integer, if this is one. -/
def int? : Value → Option Int
  | .int n => some n
  | _ => none

/-- The truth value, if this is one. -/
def bool? : Value → Option Bool
  | .bool b => some b
  | _ => none

mutual

/-- Structural equality: an integer never equals a double, and doubles compare as numbers. -/
def same : Value → Value → Bool
  | .null, .null => true
  | .bool a, .bool b => a == b
  | .int a, .int b => a == b
  | .float a, .float b => a == b
  | .str a, .str b => a == b
  | .arr a, .arr b => sameItems a b
  | .obj a, .obj b => sameFields a b
  | _, _ => false

/-- `same` item by item. -/
def sameItems : List Value → List Value → Bool
  | [], [] => true
  | a :: as, b :: bs => same a b && sameItems as bs
  | _, _ => false

/-- `same` field by field. -/
def sameFields : List (String × Value) → List (String × Value) → Bool
  | [], [] => true
  | (k, a) :: as, (l, b) :: bs => k == l && same a b && sameFields as bs
  | _, _ => false

end

end Value

end AppletHost
