import AppletHost.Proofs.Markup.LeadingText
import AppletHost.Proofs.Template.StartTags

/-!
# Trees as markup

A tree in normal form is written as markup and scanned. `Normal` says of a forest what a scanner
needs to get hold of its parts again: element names in lower case, attributes that are read as they
stand, texts that hold no markup and do not touch, and of the elements that no other elements are
nested in, the void ones without content and the raw ones with a text that does not end them.

The scanner then finds the tags of the tree, whatever comes behind it, and the induction is on the
normal form, one case a kind of node:

> `pieces_sources`: the pieces of a tree as markup are its tags.

How deep the tree is plays no part here: the scanner does not count what is open.
-/

namespace AppletHost.Markup

open Template (IsPlainName IsPlainAttribute attributeSource isPlainChar tagSigns)

/-! ## Normal form -/

/-- The characters of element names. -/
def isElementNameChar (c : Char) : Bool := c.isLower || c.isDigit || c == '-'

/-- A name of an element: small letters, digits and hyphens, and a letter first. -/
def IsElementName (name : String) : Prop :=
  name.toList.head?.any Char.isLower ∧ name.toList.all isElementNameChar

instance (name : String) : Decidable (IsElementName name) := inferInstanceAs (Decidable (_ ∧ _))

/-- The text does not hold what closes a raw text element of that name, in letters of either case. -/
def StaysInside (name : String) (content : List Char) : Prop :=
  ¬ '<' :: '/' :: name.toList <:+: Text.lowercase content

/-- No other elements are nested in elements of that name. -/
def IsLeaf (name : String) : Prop := name ∈ voidNames ∨ name ∈ rawTextNames

instance (name : String) : Decidable (IsLeaf name) := inferInstanceAs (Decidable (_ ∨ _))

/-- A forest that markup can say. -/
inductive Normal : List Node → Prop
  | nil : Normal []
  /-- A text is not empty, holds no `<`, and is no part of a longer one. -/
  | text {s : String} {ns : List Node} : s ≠ "" → '<' ∉ s.toList →
      (∀ t, ns.head? ≠ some (.text t)) → Normal ns → Normal (.text s :: ns)
  /-- A void element has no children. -/
  | void {name : String} {attributes : List Attribute} {ns : List Node} : name ∈ voidNames →
      (∀ a ∈ attributes, IsPlainAttribute a) → Normal ns →
      Normal (.element name attributes [] :: ns)
  /-- A raw text element has one text in it, or none. -/
  | raw {name : String} {attributes : List Attribute} {content : List Char} {ns : List Node} :
      name ∈ rawTextNames → (∀ a ∈ attributes, IsPlainAttribute a) → StaysInside name content →
      Normal ns → Normal (.element name attributes (textNodes content) :: ns)
  | element {name : String} {attributes : List Attribute} {children ns : List Node} :
      IsElementName name → ¬ IsLeaf name → (∀ a ∈ attributes, IsPlainAttribute a) →
      Normal children → Normal ns → Normal (.element name attributes children :: ns)

/-! ## Writing and reading -/

/-- The close tag of an element. -/
def endTag (name : String) : List Char := '<' :: '/' :: (name.toList ++ ['>'])

mutual

/-- A node as markup; all elements but the void ones get a close tag. -/
def Node.source : Node → List Char
  | .text s => s.toList
  | .element name attributes children =>
    '<' :: (name.toList ++ attributes.flatMap attributeSource ++ '>' :: (sources children ++
      if name ∈ voidNames then [] else endTag name))

/-- A forest as markup. -/
def sources : List Node → List Char
  | [] => []
  | n :: ns => n.source ++ sources ns

end

mutual

/-- The pieces that a node is read as. -/
def Node.tags : Node → List Piece
  | .text s => asText s.toList
  | .element name attributes children =>
    if IsLeaf name then [.whole (.element name attributes children)]
    else .start name attributes :: (tags children ++ [.close name])

/-- The pieces that a forest is read as. -/
def tags : List Node → List Piece
  | [] => []
  | n :: ns => n.tags ++ tags ns

end

/-! ## Names -/

/-- Names of elements are written in small letters, digits and hyphens. -/
theorem isElementNameChar_cases {c : Char} (h : isElementNameChar c) :
    c.isLower ∨ c.isDigit ∨ c = '-' := by
  simpa [isElementNameChar, or_assoc] using h

/-- Small letters are the characters from 97 to 122, digits those from 48 to 57. -/
theorem toNat_of_isElementNameChar {c : Char} (h : isElementNameChar c) :
    (97 ≤ c.toNat ∧ c.toNat ≤ 122) ∨ (48 ≤ c.toNat ∧ c.toNat ≤ 57) ∨ c.toNat = 45 := by
  rcases isElementNameChar_cases h with hlower | hdigit | rfl
  · exact Or.inl (by simpa [Char.isLower, UInt32.le_iff_toNat_le] using hlower)
  · exact Or.inr (Or.inl (by simpa [Char.isDigit, UInt32.le_iff_toNat_le] using hdigit))
  · exact Or.inr (Or.inr rfl)

theorem isPlainChar_of_isElementNameChar {c : Char} (h : isElementNameChar c) : isPlainChar c := by
  have hrange := toNat_of_isElementNameChar h
  have hblank : Text.isBlank c = false := by
    simp only [Text.isBlank, Bool.or_eq_false_iff, Bool.and_eq_false_iff, decide_eq_false_iff_not,
      beq_eq_false_iff_ne]
    omega
  have hsign : c ∉ tagSigns := by
    intro hmem
    have hvalue : c.toNat ∈ tagSigns.map Char.toNat := List.mem_map_of_mem hmem
    have hlist : tagSigns.map Char.toNat = [34, 39, 61, 47, 60, 62] := by decide
    rw [hlist] at hvalue
    simp only [List.mem_cons, List.not_mem_nil, or_false] at hvalue
    omega
  simp [isPlainChar, hblank, hsign]

theorem toLower_of_isElementNameChar {c : Char} (h : isElementNameChar c) : c.toLower = c := by
  have hrange := toNat_of_isElementNameChar h
  have hupper : ¬ (c.val ≥ 'A'.val ∧ c.val ≤ 'Z'.val) := by
    rw [ge_iff_le, UInt32.le_iff_toNat_le, UInt32.le_iff_toNat_le]
    change ¬ (65 ≤ c.toNat ∧ c.toNat ≤ 90)
    omega
  rw [Char.toLower, dif_neg hupper]

section IsElementName

variable {name : String} (h : IsElementName name)

include h

theorem IsElementName.isElementNameChar {c : Char} (hc : c ∈ name.toList) : isElementNameChar c :=
  List.all_eq_true.1 h.2 c hc

theorem IsElementName.exists_cons : ∃ c cs, name.toList = c :: cs ∧ c.isLower := by
  obtain ⟨hfirst, -⟩ := h
  cases hname : name.toList with
  | nil => simp [hname] at hfirst
  | cons c cs => exact ⟨c, cs, rfl, by simpa [hname] using hfirst⟩

theorem IsElementName.isPlainName : IsPlainName name := by
  obtain ⟨c, cs, hcs, -⟩ := h.exists_cons
  refine ⟨?_, fun d hd => isPlainChar_of_isElementNameChar (h.isElementNameChar hd)⟩
  intro hempty
  rw [hempty] at hcs
  cases hcs

/-- A name of an element is read as it is written, though tags are read without regard to case. -/
theorem IsElementName.lowercase : Text.lowercase name.toList = name.toList :=
  (List.map_congr_left fun _ hc => toLower_of_isElementNameChar (h.isElementNameChar hc)).trans
    (List.map_id _)

/-- The name of a close tag is the name between `/` and `>`. -/
theorem IsElementName.trim : Text.trim name.toList = name.toList := by
  have hplain : ∀ a ∈ ([] : List Attribute), IsPlainAttribute a := by simp
  simpa using Template.trim_sources h.isPlainName hplain

theorem IsElementName.lt_notMem : '<' ∉ name.toList := fun hmem =>
  absurd (h.isElementNameChar hmem) (by decide)

end IsElementName

/-- The names of elements without content are names of elements. -/
theorem isElementName_of_isLeaf {name : String} (h : IsLeaf name) : IsElementName name := by
  have hall : ∀ n ∈ voidNames ++ rawTextNames, IsElementName n := by decide
  exact hall name (List.mem_append.mpr h)

theorem notMem_voidNames : ∀ name ∈ rawTextNames, name ∉ voidNames := by decide

/-! ## Raw text -/

/-- Text nodes are written as the text that they hold. -/
theorem sources_textNodes (content : List Char) : sources (textNodes content) = content := by
  unfold textNodes
  split
  next hnil => exact hnil.symm
  next => simp [sources, Node.source]

/-- A search that finds its end at the tail, and nowhere before, breaks the text there. -/
theorem breakAt?_append_of_none {matches? : List Char → Option (List Char)}
    {content tail rest : List Char} (htail : matches? tail = some rest)
    (hnone : ∀ front back, content = front ++ back → back ≠ [] → matches? (back ++ tail) = none) :
    Text.breakAt? matches? (content ++ tail) = some (content, rest) := by
  induction content with
  | nil =>
    cases tail with
    | nil => simp [Text.breakAt?, htail]
    | cons c tail => simp [Text.breakAt?, htail]
  | cons c content ih =>
    have hhere : matches? (c :: (content ++ tail)) = none := hnone [] (c :: content) rfl (by simp)
    have hlater := ih fun front back heq =>
      hnone (c :: front) back (by rw [heq, List.cons_append])
    rw [List.cons_append, Text.breakAt?, hhere, hlater]
    rfl

/-- A word that is found at the front, in any case, stands there, and the rest is what follows it. -/
theorem startsWithFolded?_eq_some {word cs rest : List Char}
    (h : Text.startsWithFolded? word cs = some rest) :
    ∃ here, cs = here ++ rest ∧ Text.lowercase here = word := by
  induction word generalizing cs with
  | nil => exact ⟨[], Option.some.inj h, rfl⟩
  | cons w word ih =>
    cases cs with
    | nil => cases h
    | cons c cs =>
      rw [Text.startsWithFolded?] at h
      split at h
      next hw =>
        obtain ⟨here, rfl, hhere⟩ := ih h
        exact ⟨c :: here, rfl, by rw [hw, ← hhere]; rfl⟩
      next => cases h

/-- A word that is its own folding is found before any text. -/
theorem startsWithFolded?_append {word : List Char} (h : Text.lowercase word = word)
    (rest : List Char) : Text.startsWithFolded? word (word ++ rest) = some rest := by
  induction word with
  | nil => rfl
  | cons w word ih =>
    obtain ⟨hw, hword⟩ := List.cons.inj h
    rw [List.cons_append, Text.startsWithFolded?, if_pos hw.symm, ih hword]

/-- A text that does not end a raw text element is the content of it. -/
theorem rawContent_append {name : String} (h : IsElementName name) {content : List Char}
    (hstays : StaysInside name content) (rest : List Char) :
    rawContent name.toList (content ++ (endTag name ++ rest)) = (content, rest) := by
  have hend : endTag name ++ rest = ('<' :: '/' :: name.toList) ++ '>' :: rest := by
    simp [endTag]
  have hword : Text.lowercase ('<' :: '/' :: name.toList) = '<' :: '/' :: name.toList := by
    rw [Text.lowercase, List.map_cons, List.map_cons]
    exact congrArg (fun cs => '<' :: '/' :: cs) h.lowercase
  have hbreak : Text.breakAt? (Text.startsWithFolded? ('<' :: '/' :: name.toList))
      (content ++ (endTag name ++ rest)) = some (content, '>' :: rest) := by
    rw [hend]
    refine breakAt?_append_of_none (startsWithFolded?_append hword _) fun front back heq hne => ?_
    by_contra hsome
    obtain ⟨after, hafter⟩ := Option.ne_none_iff_exists'.mp hsome
    obtain ⟨here, hhere, hfolded⟩ := startsWithFolded?_eq_some hafter
    have hinside : ∀ mid, back ≠ here ++ mid := by
      intro mid hback
      refine hstays ⟨Text.lowercase front, Text.lowercase mid, ?_⟩
      rw [heq, hback, ← hfolded]
      simp [Text.lowercase]
    rcases List.append_eq_append_iff.mp hhere with ⟨mid, hmid, hrest⟩ | ⟨mid, hback, -⟩
    · cases mid with
      | nil => exact hinside [] (by simpa using hmid.symm)
      | cons d mid =>
        -- it would run into the close tag, whose `<` is not the first one in it
        obtain ⟨rfl, -⟩ := List.cons.inj hrest
        obtain ⟨c, cs, rfl⟩ := List.exists_cons_of_ne_nil hne
        rw [hmid, Text.lowercase, List.cons_append, List.map_cons] at hfolded
        obtain ⟨-, htail⟩ := List.cons.inj hfolded
        have hmem : '<' ∈ '/' :: name.toList := by
          rw [← htail, List.map_append]
          exact List.mem_append_right _ List.mem_cons_self
        rcases List.mem_cons.mp hmem with heq | hname
        · exact absurd heq (by decide)
        · exact h.lt_notMem hname
    · exact hinside mid hback
  rw [rawContent, hbreak]
  rfl

/-! ## Tags -/

section StartTag

variable {name : String} (hname : IsElementName name) {attributes : List Attribute}
  (hattributes : ∀ a ∈ attributes, IsPlainAttribute a)

include hname hattributes

/-- The name tells what becomes of a start tag. -/
theorem startPiece_source (after : List Char) :
    startPiece (name.toList ++ attributes.flatMap attributeSource) after =
      if name ∈ voidNames then (.whole (.element name attributes []), after)
      else if name ∈ rawTextNames then
        (.whole (.element name attributes (textNodes (rawContent name.toList after).1)),
          (rawContent name.toList after).2)
      else (.start name attributes, after) := by
  have hread := (Template.attributes_sources hattributes).1
  unfold startPiece
  simp only [Template.splitStartTag_sources hname.isPlainName hattributes, hname.lowercase, hread,
    String.ofList_toList, Bool.false_eq_true, false_or]

/-- A start tag in source is scanned as one piece, and the scan goes on behind it. -/
theorem pieces_startTag_source (rest : List Char) :
    let piece := startPiece (name.toList ++ attributes.flatMap attributeSource) rest
    pieces ('<' :: (name.toList ++ attributes.flatMap attributeSource ++ '>' :: rest)) =
      piece.1 :: pieces piece.2 := by
  intro piece
  have hend := Template.tagEnd?_sources hname.isPlainName hattributes rest
  obtain ⟨c, cs, hcs, hlower⟩ := hname.exists_cons
  have hother : ∀ d : Char, d.isLower = false → c ≠ d := by
    intro d hd heq
    rw [heq, hd] at hlower
    cases hlower
  have halpha : c.isAlpha := by simp [Char.isAlpha, hlower]
  have htaken : (pieceAt (name.toList ++ attributes.flatMap attributeSource ++ '>' :: rest)).value =
        [piece.1] ∧
      (pieceAt (name.toList ++ attributes.flatMap attributeSource ++ '>' :: rest)).rest = piece.2 := by
    rw [hcs, List.cons_append, List.cons_append] at hend ⊢
    rw [Markup.pieceAt.eq_5 c _ (fun _ hbang _ => hother _ (by decide) hbang)
      (hother _ (by decide)) (hother _ (by decide)) (hother _ (by decide)), if_pos halpha]
    split
    next hnone => cases hend.symm.trans hnone
    next inside after hsome =>
      obtain ⟨rfl, rfl⟩ := Prod.mk.inj (Option.some.inj (hsome.symm.trans hend))
      simp only [piece, hcs]
      exact ⟨rfl, rfl⟩
  rw [Markup.pieces.eq_2, htaken.1, htaken.2]
  rfl

end StartTag

theorem pieces_endTag {name : String} (h : IsElementName name) (rest : List Char) :
    pieces (endTag name ++ rest) = .close name :: pieces rest := by
  have hbreak : Text.breakOn? ['>'] (name.toList ++ '>' :: rest) = some (name.toList, rest) := by
    refine breakAt?_append_of_none rfl fun front back heq hne => ?_
    obtain ⟨c, cs, rfl⟩ := List.exists_cons_of_ne_nil hne
    have hc : isElementNameChar c := h.isElementNameChar (by rw [heq]; simp)
    have hgt : '>' ≠ c := fun hgt => absurd (hgt ▸ hc) (by decide)
    simp [Text.startsWith?, hgt]
  have htaken : (pieceAt ('/' :: (name.toList ++ '>' :: rest))).value = [.close name] ∧
      (pieceAt ('/' :: (name.toList ++ '>' :: rest))).rest = rest := by
    rw [pieceAt]
    split
    next hnone => cases hnone.symm.trans hbreak
    next before after hsome =>
      obtain ⟨rfl, rfl⟩ := Prod.mk.inj (Option.some.inj (hsome.symm.trans hbreak))
      rw [h.trim, h.lowercase, String.ofList_toList]
      exact ⟨rfl, rfl⟩
  have hend : endTag name ++ rest = '<' :: '/' :: (name.toList ++ '>' :: rest) := by
    simp [endTag]
  rw [hend, Markup.pieces.eq_2, htaken.1, htaken.2]
  rfl

/-! ## Forests -/

/-- The markup of a forest is read as its tags, whatever comes behind it. -/
theorem pieces_sources {ns : List Node} (h : Normal ns) (rest : List Char) :
    pieces (sources ns ++ rest) = tags ns ++ pieces rest := by
  induction h generalizing rest with
  | nil => rfl
  | @text s ns hne hlt hapart h ih =>
    rw [sources, tags, Node.source, Node.tags, List.append_assoc, pieces_append_of_no_lt hlt, ih,
      List.append_assoc]
  | @void name attributes ns hname hattributes h ih =>
    have hleaf : IsLeaf name := Or.inl hname
    have hstart := pieces_startTag_source (isElementName_of_isLeaf hleaf) hattributes
      (sources ns ++ rest)
    rw [startPiece_source (isElementName_of_isLeaf hleaf) hattributes, if_pos hname] at hstart
    rw [sources, tags, Node.source, Node.tags, if_pos hname, if_pos hleaf]
    simpa [sources, ih] using hstart
  | @raw name attributes content ns hname hattributes hstays h ih =>
    have hleaf : IsLeaf name := Or.inr hname
    have hvoid : name ∉ voidNames := notMem_voidNames name hname
    have hstart := pieces_startTag_source (isElementName_of_isLeaf hleaf) hattributes
      (content ++ (endTag name ++ (sources ns ++ rest)))
    rw [startPiece_source (isElementName_of_isLeaf hleaf) hattributes, if_neg hvoid, if_pos hname,
      rawContent_append (isElementName_of_isLeaf hleaf) hstays] at hstart
    rw [sources, tags, Node.source, Node.tags, if_neg hvoid, if_pos hleaf, sources_textNodes]
    simpa [ih] using hstart
  | @element name attributes children ns hname hnot hattributes hchildren h ihchildren ih =>
    obtain ⟨hvoid, hraw⟩ := not_or.mp hnot
    have hstart := pieces_startTag_source hname hattributes
      (sources children ++ (endTag name ++ (sources ns ++ rest)))
    rw [startPiece_source hname hattributes, if_neg hvoid, if_neg hraw] at hstart
    rw [sources, tags, Node.source, Node.tags, if_neg hvoid, if_neg hnot]
    simpa [ihchildren, pieces_endTag hname, ih] using hstart

end AppletHost.Markup
