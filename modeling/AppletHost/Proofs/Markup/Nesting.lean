import AppletHost.Proofs.Markup.Source

/-!
# Elements in elements

The tags of a forest are well nested, and still a close tag need not find its element open: a start
tag inside `maxDepth` open elements is dropped, and its close tag closes another element if one of
that name is open. `InStep` says of the tags, by their names and their depth alone, that this does no
harm: whenever content comes, all that is kept around it is open.

A forest in which no dropped element has the name of a kept one around it is in step, and in a forest
that is not too deep no element is dropped:

> `inStep_of_apart`: where the names are apart, the tags are in step;
> `apart_of_height_le`, `capped_of_height_le`: where nothing is too deep, they are apart, and nothing
> is left out.
-/

namespace AppletHost.Markup

/-! ## Open elements -/

/-- What a close tag leaves open: it closes the innermost element of its name and all inside. -/
def closed (name : String) (names : List String) : List String :=
  match names.findIdx? (· == name) with
  | none => names
  | some depth => names.drop (depth + 1)

/-- What is open after a piece. -/
def stepNames (names : List String) : Piece → List String
  | .start name _ => if maxDepth ≤ names.length then names else name :: names
  | .close name => closed name names
  | _ => names

section StepNames

variable {name : String} {attributes : List Attribute} {names : List String}

/-- At the limit a start tag opens nothing. -/
theorem stepNames_start_of_le (h : maxDepth ≤ names.length) :
    stepNames names (.start name attributes) = names := if_pos h

/-- Below it a start tag opens its element, as the innermost one. -/
theorem stepNames_start_of_lt (h : names.length < maxDepth) :
    stepNames names (.start name attributes) = name :: names := if_neg (Nat.not_le_of_lt h)

/-- A close tag without an open element of its name is ignored. -/
theorem closed_of_notMem (h : name ∉ names) : closed name names = names := by
  have hnone : names.findIdx? (· == name) = none := by
    rw [List.findIdx?_eq_none_iff]
    intro other hother
    rw [beq_eq_false_iff_ne]
    exact fun heq => h (heq ▸ hother)
  rw [closed, hnone]

theorem closed_cons : closed name (name :: names) = names := by
  rw [closed, List.findIdx?_cons, beq_self_eq_true]
  rfl

end StepNames

/-! ## Depth -/

/-- How deep in the forest its tags are, not counting what no elements are nested in. -/
def stepDepth (depth : Nat) : Piece → Nat
  | .start _ _ => depth + 1
  | .close _ => depth - 1
  | _ => depth

/-- Whenever something comes that is no close tag, as many elements are open as there are around it,
up to the deepest that is kept. -/
def InStep (names : List String) (depth : Nat) : List Piece → Prop
  | [] => True
  | .close name :: ps => InStep (closed name names) (depth - 1) ps
  | p :: ps => names.length = min depth maxDepth ∧ InStep (stepNames names p) (stepDepth depth p) ps

theorem inStep_start {names : List String} {depth : Nat} {name : String}
    {attributes : List Attribute} {ps : List Piece} :
    InStep names depth (.start name attributes :: ps) ↔ names.length = min depth maxDepth ∧
      InStep (stepNames names (.start name attributes)) (depth + 1) ps := Iff.rfl

/-- Being in step goes on through two rows of pieces as through one. -/
theorem inStep_append {names : List String} {depth : Nat} {ps qs : List Piece} :
    InStep names depth (ps ++ qs) ↔ InStep names depth ps ∧
      InStep (ps.foldl stepNames names) (ps.foldl stepDepth depth) qs := by
  induction ps generalizing names depth with
  | nil => simp [InStep]
  | cons p ps ih =>
    cases p with
    | close name => exact ih
    | _ => simp [InStep, ih, and_assoc]

/-! ## Forests -/

/-- What is true of no nodes, and goes through a text and an element in front, is true of all. -/
@[elab_as_elim]
theorem forest_induction {motive : List Node → Prop} (nil : motive [])
    (text : ∀ s ns, motive ns → motive (.text s :: ns))
    (element : ∀ name attributes children ns, motive children → motive ns →
      motive (.element name attributes children :: ns)) : ∀ ns, motive ns
  | [] => nil
  | .text s :: ns => text s ns (forest_induction nil text element ns)
  | .element name attributes children :: ns =>
    element name attributes children ns (forest_induction nil text element children)
      (forest_induction nil text element ns)

mutual

/-- How many elements are nested in each other in a node; those that hold no others do not count. -/
def Node.height : Node → Nat
  | .text _ => 0
  | .element name _ children => if IsLeaf name then 0 else height children + 1

/-- How many elements are nested in each other in a forest. -/
def height : List Node → Nat
  | [] => 0
  | n :: ns => max n.height (height ns)

end

mutual

/-- A node with the elements beyond the given depth replaced by their content. -/
def Node.capped : Node → Nat → List Node
  | .text s, _ => [.text s]
  | .element name attributes children, room =>
    if IsLeaf name then [.element name attributes children]
    else match room with
      | 0 => capped children 0
      | room + 1 => [.element name attributes (capped children room)]

/-- A forest with the elements beyond the given depth replaced by their content. -/
def capped : List Node → Nat → List Node
  | [], _ => []
  | n :: ns, room => n.capped room ++ capped ns room

end

mutual

/-- No element beyond the deepest that is kept has the name of an element around it that is kept;
`kept` are those, from the inside out. -/
def Node.Apart (kept : List String) : Node → Prop
  | .text _ => True
  | .element name _ children => IsLeaf name ∨
    if maxDepth ≤ kept.length then name ∉ kept ∧ Apart kept children
    else Apart (name :: kept) children

/-- No element of a forest beyond the deepest that is kept has the name of one around it that is
kept. -/
def Apart (kept : List String) : List Node → Prop
  | [] => True
  | n :: ns => n.Apart kept ∧ Apart kept ns

end

/-! ## The tags of a forest -/

theorem foldl_stepDepth_asText (cs : List Char) (depth : Nat) :
    (asText cs).foldl stepDepth depth = depth := by
  induction cs with
  | nil => rfl
  | cons c cs ih => exact ih

/-- The tags of a forest lead back to where it stands. -/
theorem foldl_stepDepth_tags (ns : List Node) (depth : Nat) :
    (tags ns).foldl stepDepth depth = depth := by
  induction ns using forest_induction generalizing depth with
  | nil => rfl
  | text s ns ih => rw [tags, List.foldl_append, ih, Node.tags, foldl_stepDepth_asText]
  | element name attributes children ns ihchildren ih =>
    rw [tags, List.foldl_append, ih, Node.tags]
    by_cases hleaf : IsLeaf name
    · rw [if_pos hleaf]
      rfl
    · rw [if_neg hleaf, List.foldl_cons, List.foldl_append, ihchildren]
      rfl

/-- A node that is written out closes what it opens. -/
theorem foldl_stepDepth_node (n : Node) (depth : Nat) : n.tags.foldl stepDepth depth = depth := by
  simpa [tags] using foldl_stepDepth_tags [n] depth

/-- Text keeps the open names in step with the depth, since it changes neither of them. -/
theorem inStep_asText {names : List String} {depth : Nat} (h : names.length = min depth maxDepth)
    (cs : List Char) :
    InStep names depth (asText cs) ∧ (asText cs).foldl stepNames names = names := by
  induction cs with
  | nil => exact ⟨trivial, rfl⟩
  | cons c cs ih => exact ⟨⟨h, ih.1⟩, ih.2⟩

/-- Where names are apart, every close tag closes the element that it belongs to, if that is open. -/
theorem inStep_of_apart {kept : List String} {ns : List Node} (h : Apart kept ns) {depth : Nat}
    (hlength : kept.length = min depth maxDepth) :
    InStep kept depth (tags ns) ∧ (tags ns).foldl stepNames kept = kept := by
  induction ns using forest_induction generalizing kept depth with
  | nil => exact ⟨trivial, rfl⟩
  | text s ns ih =>
    obtain ⟨htext, hnames⟩ := inStep_asText hlength s.toList
    rw [tags, Node.tags, inStep_append, List.foldl_append, hnames, foldl_stepDepth_asText]
    exact ⟨⟨htext, (ih h.2 hlength).1⟩, (ih h.2 hlength).2⟩
  | element name attributes children ns ihchildren ih =>
    obtain ⟨hstep, hnames⟩ : InStep kept depth (Node.element name attributes children).tags ∧
        (Node.element name attributes children).tags.foldl stepNames kept = kept := by
      rw [Node.tags]
      split
      next => exact ⟨⟨hlength, trivial⟩, rfl⟩
      next hnot =>
        have hapart := h.1.resolve_left hnot
        rw [List.foldl_cons, List.foldl_append]
        by_cases hfull : maxDepth ≤ kept.length
        · -- dropped: nothing around has the name, so the close tag finds nothing to close
          rw [if_pos hfull] at hapart
          have hdeeper : kept.length = min (depth + 1) maxDepth := by omega
          obtain ⟨hinner, hkept⟩ := ihchildren hapart.2 hdeeper
          rw [inStep_start, stepNames_start_of_le hfull, hkept]
          exact ⟨⟨hlength, inStep_append.mpr ⟨hinner, trivial⟩⟩, closed_of_notMem hapart.1⟩
        · rw [if_neg hfull] at hapart
          have hdeeper : (name :: kept).length = min (depth + 1) maxDepth := by
            rw [List.length_cons]
            omega
          obtain ⟨hinner, hkept⟩ := ihchildren hapart hdeeper
          rw [inStep_start, stepNames_start_of_lt (Nat.lt_of_not_le hfull), hkept]
          exact ⟨⟨hlength, inStep_append.mpr ⟨hinner, trivial⟩⟩, closed_cons⟩
    rw [tags, inStep_append, List.foldl_append, hnames, foldl_stepDepth_node]
    exact ⟨⟨hstep, (ih h.2 hlength).1⟩, (ih h.2 hlength).2⟩

/-! ## Forests that are not too deep -/

/-- Trees that fit below the limit are apart from anything: no tag of theirs is dropped. -/
theorem apart_of_height_le {kept : List String} {ns : List Node}
    (h : kept.length + height ns ≤ maxDepth) : Apart kept ns := by
  induction ns using forest_induction generalizing kept with
  | nil => trivial
  | text s ns ih =>
    rw [height, Node.height, Nat.zero_max] at h
    exact ⟨trivial, ih h⟩
  | element name attributes children ns ihchildren ih =>
    rw [height, Node.height] at h
    refine ⟨?_, ih (by omega)⟩
    by_cases hleaf : IsLeaf name
    · exact Or.inl hleaf
    · rw [if_neg hleaf] at h
      refine Or.inr ?_
      rw [if_neg (by omega)]
      refine ihchildren ?_
      rw [List.length_cons]
      omega

theorem capped_of_height_le {ns : List Node} {room : Nat} (h : height ns ≤ room) :
    capped ns room = ns := by
  induction ns using forest_induction generalizing room with
  | nil => rfl
  | text s ns ih =>
    rw [height, Node.height, Nat.zero_max] at h
    rw [capped, Node.capped, ih h]
    rfl
  | element name attributes children ns ihchildren ih =>
    rw [height, Node.height] at h
    have hlow : height ns ≤ room := by omega
    have hrest := ih hlow
    by_cases hleaf : IsLeaf name
    · unfold capped Node.capped
      rw [if_pos hleaf, hrest]
      rfl
    · rw [if_neg hleaf] at h
      obtain ⟨r, rfl⟩ : ∃ r, room = r + 1 := ⟨room - 1, by omega⟩
      rw [capped, Node.capped, if_neg hleaf, ihchildren (by omega), hrest]
      rfl

end AppletHost.Markup
