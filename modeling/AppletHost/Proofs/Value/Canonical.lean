import AppletHost.Value.Basic
import Mathlib.Data.List.Sort

/-!
# Canonical values

The fields of an object are listed by name, each name once. `Value.Canonical` says so of every object
in a value, also of those in its arrays and in other objects. Among canonical values equal objects
have equal field lists (`Fields.ext_get?`), so a law about the fields that are found under each name
is a law about the value.
-/

namespace AppletHost

namespace Fields

variable {α : Type}

/-- Fields in order are known by what is found under each name. -/
theorem ext_get? {a b : Fields α} (ha : a.Sorted) (hb : b.Sorted)
    (h : ∀ name, a.get? name = b.get? name) : a = b := by
  have hirrefl : Std.Irrefl fun f g : String × α => f.1 < g.1 := ⟨fun f => String.lt_irrefl f.1⟩
  have hantisymm : Std.Antisymm fun f g : String × α => f.1 < g.1 :=
    ⟨fun f g hfg hgf => absurd hgf (String.lt_asymm hfg)⟩
  have hpairs : ∀ {fields : Fields α}, fields.Sorted →
      fields.Pairwise fun f g : String × α => f.1 < g.1 := List.pairwise_map.1
  refine (hpairs ha).eq_of_mem_iff (hpairs hb) ?_
  intro (name, v)
  rw [ha.mem_iff, hb.mem_iff, h name]

/-- Fields in order are what they are put together to. -/
theorem Sorted.ofList_eq {fields : Fields α} (h : fields.Sorted) : ofList fields = fields :=
  ext_get? (sorted_ofList fields) h (get?_ofList_of_nodup h.nodup)

instance (fields : Fields α) : Decidable fields.Sorted :=
  inferInstanceAs (Decidable ((names fields).Pairwise (· < ·)))

end Fields

namespace Value

/-- Every object in the value lists its fields by name, each name once. -/
inductive Canonical : Value → Prop
  | null : Canonical .null
  | bool (b : Bool) : Canonical (.bool b)
  | int (n : Int) : Canonical (.int n)
  | float (x : Float) : Canonical (.float x)
  | str (s : String) : Canonical (.str s)
  | arr {items : List Value} (each : ∀ v ∈ items, Canonical v) : Canonical (.arr items)
  | obj {fields : Fields} (sorted : fields.Sorted) (each : ∀ name v, (name, v) ∈ fields → Canonical v) :
    Canonical (.obj fields)

theorem Canonical.sorted {fields : Fields} (h : Canonical (.obj fields)) : fields.Sorted := by
  cases h with
  | obj sorted each => exact sorted

/-- What an object holds under a name is canonical too. -/
theorem Canonical.of_get? {fields : Fields} (h : Canonical (.obj fields)) {name : String} {v : Value}
    (hget : fields.get? name = some v) : v.Canonical := by
  cases h with
  | obj sorted each => exact each name v (sorted.mem_iff.2 hget)

/-- A canonical object stays one when a canonical value is put into it. -/
theorem Canonical.set {fields : Fields} (h : Canonical (.obj fields)) {v : Value} (hv : v.Canonical)
    (name : String) : Canonical (.obj (fields.set name v)) := by
  have hsorted := h.sorted.set name v
  refine .obj hsorted ?_
  intro other w hw
  rw [hsorted.mem_iff, Fields.get?_set] at hw
  split at hw
  · cases hw
    exact hv
  · exact h.of_get? hw

theorem canonical_empty : Canonical (.obj []) :=
  .obj List.Pairwise.nil fun _ _ h => nomatch h

/-! ## Checking a value -/

mutual

/-- The check of one value. -/
def isCanonical : Value → Bool
  | .arr items => areCanonical items
  | .obj fields => decide (Fields.Sorted fields) && holdCanonical fields
  | _ => true

/-- The check of the items of an array. -/
def areCanonical : List Value → Bool
  | [] => true
  | v :: rest => isCanonical v && areCanonical rest

/-- The check of what the fields of an object hold. -/
def holdCanonical : List (String × Value) → Bool
  | [] => true
  | (_, v) :: rest => isCanonical v && holdCanonical rest

end

mutual

theorem isCanonical_iff : ∀ v : Value, v.isCanonical = true ↔ v.Canonical
  | .null => iff_of_true rfl .null
  | .bool b => iff_of_true rfl (.bool b)
  | .int n => iff_of_true rfl (.int n)
  | .float x => iff_of_true rfl (.float x)
  | .str s => iff_of_true rfl (.str s)
  | .arr items => by
    rw [isCanonical, areCanonical_iff items]
    constructor
    · exact .arr
    · intro h
      cases h with
      | arr each => exact each
  | .obj fields => by
    rw [isCanonical, Bool.and_eq_true, decide_eq_true_iff, holdCanonical_iff fields]
    constructor
    · intro ⟨sorted, each⟩
      exact .obj sorted each
    · intro h
      cases h with
      | obj sorted each => exact ⟨sorted, each⟩

theorem areCanonical_iff : ∀ items : List Value,
    areCanonical items = true ↔ ∀ v ∈ items, v.Canonical
  | [] => iff_of_true rfl nofun
  | v :: rest => by
    rw [areCanonical, Bool.and_eq_true, isCanonical_iff v, areCanonical_iff rest,
      List.forall_mem_cons]

theorem holdCanonical_iff : ∀ fields : List (String × Value),
    holdCanonical fields = true ↔ ∀ name v, (name, v) ∈ fields → v.Canonical
  | [] => iff_of_true rfl fun _ _ h => nomatch h
  | (k, w) :: rest => by
    rw [holdCanonical, Bool.and_eq_true, isCanonical_iff w, holdCanonical_iff rest]
    constructor
    · intro ⟨hw, hrest⟩ name v hv
      rcases List.mem_cons.1 hv with heq | hv
      · cases heq
        exact hw
      · exact hrest name v hv
    · intro h
      exact ⟨h k w List.mem_cons_self, fun name v hv => h name v (List.mem_cons_of_mem _ hv)⟩

end

instance (v : Value) : Decidable v.Canonical := decidable_of_iff _ (isCanonical_iff v)

end Value

end AppletHost
