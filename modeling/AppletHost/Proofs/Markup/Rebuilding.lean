import AppletHost.Proofs.Markup.Nesting

/-!
# Trees rebuilt from their tags

The tags of a forest are taken in one by one. What the builder should have made of them is its
target: the forest without the elements that are too deep (`capped`), put where the text stands. The
builder `Follows` the target if it is what the target becomes when some elements are closed, for the
close tag of a dropped element may have closed some. As long as the tags are in step it has closed
none whenever something is put into the tree, so that this is put in the right place.

One kind of node after the other keeps the two together (`Aligned.text_node`, `Aligned.leaf`,
`Aligned.element`), and by induction on the normal form so does a forest (`rebuilt`). At the end of
a document no element is open in the target:

> `ofPieces_tags`: the tags of a document in step give the document without what is too deep;
> `parse_sources`: a document that is not too deep is read back as it is.
-/

namespace AppletHost.Markup

/-! ## The tree under construction -/

/-- The names of the open elements, from the inside out. -/
def Builder.names (b : Builder) : List String := b.stack.map OpenElement.name

namespace Builder

theorem names_add (b : Builder) (n : Node) : (b.add n).names = b.names := by
  unfold add names
  split
  next hnil => rw [hnil]
  next top outer hcons =>
    rw [hcons]
    rfl

/-- Text on its way into the tree leaves the open elements as they are. -/
theorem names_flushText (b : Builder) : b.flushText.names = b.names := by
  unfold flushText
  split
  next => rfl
  next => exact names_add _ _

theorem length_names (b : Builder) : b.names.length = b.stack.length := List.length_map _

theorem text_add (b : Builder) (n : Node) : (b.add n).text = b.text := by
  unfold add
  split <;> rfl

theorem text_flushText (b : Builder) : b.flushText.text = [] := by
  unfold flushText
  split
  next hnil => exact hnil
  next => exact text_add _ _

theorem flushText_of_nil {b : Builder} (h : b.text = []) : b.flushText = b := if_pos h

/-- Closing the innermost element takes its name off the row of open ones. -/
theorem names_closeTop (b : Builder) : b.closeTop.names = b.names.drop 1 := by
  unfold closeTop
  split
  next hnil => simp [names, hnil]
  next top outer hcons =>
    rw [names_add]
    simp [names, hcons]

/-- Closing so many takes so many names off, and none beyond the last. -/
theorem names_closeMany (b : Builder) (n : Nat) : (b.closeMany n).names = b.names.drop n := by
  induction n generalizing b with
  | zero => rfl
  | succ n ih => rw [closeMany, ih, names_closeTop, List.drop_drop, Nat.add_comm]

/-- A close tag closes some elements, and is known by what it leaves open. -/
theorem close_eq_closeMany (b : Builder) (name : String) :
    ∃ k, b.close name = b.closeMany k ∧ closed name b.names = b.names.drop k ∧
      (b.names.head? = some name → 0 < k) := by
  have hfind : b.names.findIdx? (· == name) = b.stack.findIdx? fun e => e.name == name := by
    rw [names, List.findIdx?_map]
    rfl
  unfold close closed
  rw [hfind]
  cases hdepth : b.stack.findIdx? fun e => e.name == name with
  | some depth => exact ⟨depth + 1, rfl, rfl, fun _ => Nat.succ_pos depth⟩
  | none =>
    -- with no element of that name open, the innermost one has another
    refine ⟨0, rfl, rfl, fun hhead => ?_⟩
    rw [← hfind, List.findIdx?_eq_none_iff] at hdepth
    have hname := hdepth name (List.mem_of_mem_head? hhead)
    rw [beq_self_eq_true] at hname
    cases hname

/-- A close tag closes all up to the innermost element of its name, and is ignored where no open
element has it. -/
theorem names_close (b : Builder) (name : String) : (b.close name).names = closed name b.names := by
  obtain ⟨k, hclose, hclosed, -⟩ := b.close_eq_closeMany name
  rw [hclose, names_closeMany, hclosed]

/-- What a piece does to the open elements depends on their names alone, not on what is in them. -/
theorem names_step (b : Builder) (p : Piece) : (b.step p).names = stepNames b.names p := by
  cases p with
  | char c => rfl
  | whole n => exact (names_add _ n).trans b.names_flushText
  | close name =>
    rw [step, names_close, names_flushText]
    rfl
  | start name attributes =>
    rw [step, stepNames, ← length_names, names_flushText]
    by_cases hfull : maxDepth ≤ b.names.length
    · rw [if_pos hfull, if_pos hfull]
      exact b.names_flushText
    · rw [if_neg hfull, if_neg hfull]
      exact congrArg (name :: ·) b.names_flushText

/-- So the names of the open elements can be followed through all pieces without building a tree. -/
theorem names_foldl (b : Builder) (ps : List Piece) :
    (ps.foldl step b).names = ps.foldl stepNames b.names := by
  induction ps generalizing b with
  | nil => rfl
  | cons p ps ih => rw [List.foldl_cons, ih, names_step, List.foldl_cons]

/-- Puts several nodes where the text stands, in order. -/
def addAll (b : Builder) (ns : List Node) : Builder := ns.foldl add b

/-- Nodes that are added in two goes are added one after another. -/
theorem addAll_append (b : Builder) (ns ms : List Node) :
    b.addAll (ns ++ ms) = (b.addAll ns).addAll ms := List.foldl_append

/-- Nodes that are added whole leave the text that waits as it is. -/
theorem text_addAll (b : Builder) (ns : List Node) : (b.addAll ns).text = b.text := by
  induction ns generalizing b with
  | nil => rfl
  | cons n ns ih => exact (ih _).trans (text_add b n)

theorem names_addAll (b : Builder) (ns : List Node) : (b.addAll ns).names = b.names := by
  induction ns generalizing b with
  | nil => rfl
  | cons n ns ih => exact (ih _).trans (names_add b n)

/-- Opens an element. -/
def push (b : Builder) (name : String) (attributes : List Attribute) : Builder :=
  { b with stack := ⟨name, attributes, []⟩ :: b.stack }

/-- An element that is opened, filled and closed is a node like any other. -/
theorem closeTop_addAll_push (b : Builder) (name : String) (attributes : List Attribute)
    (ns : List Node) :
    ((b.push name attributes).addAll ns).closeTop = b.add (.element name attributes ns) := by
  suffices hfill : ∀ (children : List Node),
      ({ b with stack := ⟨name, attributes, children⟩ :: b.stack } : Builder).addAll ns =
        { b with stack := ⟨name, attributes, ns.reverse ++ children⟩ :: b.stack } by
    rw [push, hfill, List.append_nil]
    simp [closeTop, OpenElement.toNode]
  induction ns with
  | nil => exact fun children => rfl
  | cons n ns ih =>
    intro children
    have hadd := ih (n :: children)
    simpa [addAll, add] using hadd

/-- Elements are closed without touching the text that waits. -/
theorem text_closeTop (b : Builder) : b.closeTop.text = b.text := by
  unfold closeTop
  split
  next => rfl
  next => exact text_add _ _

theorem text_closeMany (b : Builder) (n : Nat) : (b.closeMany n).text = b.text := by
  induction n generalizing b with
  | zero => rfl
  | succ n ih => rw [closeMany, ih, text_closeTop]

/-- No text is left behind a tag. -/
theorem text_step_close (b : Builder) (name : String) : (b.step (.close name)).text = [] := by
  obtain ⟨k, hclose, -⟩ := b.flushText.close_eq_closeMany name
  rw [step, hclose, text_closeMany, text_flushText]

/-- Closing so many and then so many more is closing all of them. -/
theorem closeMany_add (b : Builder) (m n : Nat) :
    b.closeMany (m + n) = (b.closeMany m).closeMany n := by
  induction m generalizing b with
  | zero => rw [Nat.zero_add, closeMany]
  | succ m ih => rw [Nat.add_right_comm, closeMany, ih, closeMany]

/-- There is nothing to close where nothing is open. -/
theorem closeMany_of_names_nil {b : Builder} (h : b.names = []) (n : Nat) : b.closeMany n = b := by
  have hstack : b.stack = [] := List.map_eq_nil_iff.mp h
  have htop : b.closeTop = b := by simp [closeTop, hstack]
  induction n with
  | zero => rfl
  | succ n ih => rw [closeMany, htop, ih]

end Builder

/-! ## Tags taken in -/

/-- The builder is what `target` becomes when some of its elements are closed. -/
def Follows (b target : Builder) : Prop := ∃ k, b.flushText = target.closeMany k

theorem Follows.refl {b : Builder} (h : b.text = []) : Follows b b :=
  ⟨0, Builder.flushText_of_nil h⟩

/-- The builder follows a target that has everything open that is kept at that depth. -/
structure Aligned (b target : Builder) (depth : Nat) : Prop where
  follows : Follows b target
  text : target.text = []
  length : target.names.length = min depth maxDepth

section Aligned

variable {b b' target : Builder} {depth : Nat}

/-- Nodes that arrive whole keep the builder in line with the tree that it rebuilds. -/
theorem Aligned.addAll (h : Aligned b target depth) {ns : List Node}
    (hfollows : Follows b' (target.addAll ns)) : Aligned b' (target.addAll ns) depth where
  follows := hfollows
  text := (Builder.text_addAll _ _).trans h.text
  length := (congrArg List.length (Builder.names_addAll _ _)).trans h.length

/-- Where it has as much open as its target, a builder is the target. -/
theorem Aligned.flushText_eq (h : Aligned b target depth)
    (hlength : b.names.length = min depth maxDepth) : b.flushText = target := by
  obtain ⟨k, hk⟩ := h.follows
  have hnames : b.names = target.names.drop k := by
    rw [← b.names_flushText, hk, Builder.names_closeMany]
  rw [hnames, List.length_drop, ← h.length] at hlength
  -- as many are open as in the target, so that none was closed, unless there is none to close
  by_cases hnil : target.names = []
  · rw [hk, Builder.closeMany_of_names_nil hnil]
  · have hpos := List.length_pos_iff.mpr hnil
    obtain rfl : k = 0 := by omega
    exact hk

/-- The characters of a text node gather to that node again, as long as no other text waits before
them. -/
theorem Aligned.text_node (h : Aligned b target depth) (htext : b.text = []) {s : String}
    (hne : s ≠ "") (hstep : InStep b.names depth (asText s.toList)) :
    Follows ((asText s.toList).foldl Builder.step b) (target.add (.text s)) := by
  obtain ⟨c, cs, hcs⟩ : ∃ c cs, s.toList = c :: cs :=
    List.exists_cons_of_ne_nil fun hnil => hne (String.toList_eq_nil_iff.mp hnil)
  have heq : b = target := by
    rw [hcs] at hstep
    rw [← h.flushText_eq hstep.1, Builder.flushText_of_nil htext]
  subst heq
  have hread : (s.toList.reverse ++ b.text) ≠ [] := by simp [hcs]
  have hempty : ({ b with text := [] } : Builder) = b := by rw [← htext]
  refine ⟨0, ?_⟩
  rw [asText, foldl_step_char, Builder.flushText, if_neg hread]
  simp only [hempty, htext, List.append_nil, List.reverse_reverse, String.ofList_toList]
  rfl

/-- An element without children comes as one piece and goes into the tree as it is. -/
theorem Aligned.leaf (h : Aligned b target depth) {n : Node}
    (hstep : InStep b.names depth [.whole n]) :
    Follows (b.step (.whole n)) (target.add n) := by
  rw [Builder.step, h.flushText_eq hstep.1]
  exact .refl ((Builder.text_add target n).trans h.text)

/-- A close tag closes something of the target, or what it is to close is closed already. -/
theorem Follows.close (h : Follows b target) (name : String) :
    ∃ k, (b.step (.close name)).flushText = target.closeMany k ∧
      (target.names.head? = some name → 0 < k) := by
  obtain ⟨k, hk⟩ := h
  obtain ⟨m, hclose, -, hpos⟩ := b.flushText.close_eq_closeMany name
  refine ⟨k + m, ?_, fun hname => ?_⟩
  · rw [Builder.flushText_of_nil (b.text_step_close name), Builder.step, hclose, hk,
      Builder.closeMany_add]
  · by_cases hzero : k = 0
    · -- nothing was closed early, and the element is the innermost one
      subst hzero
      rw [hk] at hpos
      have := hpos hname
      omega
    · omega

/-- A close tag closes at least the element that it belongs to. -/
theorem Follows.closeTop (h : Follows b target) {name : String}
    (hname : target.names.head? = some name) : Follows (b.step (.close name)) target.closeTop := by
  obtain ⟨k, hk, hpos⟩ := h.close name
  obtain ⟨n, rfl⟩ := Nat.exists_eq_succ_of_ne_zero (Nat.ne_of_gt (hpos hname))
  exact ⟨n, hk⟩

/-- As long as the builder is in step, the tags of a forest lead to the forest without the elements
that are too deep, but for what is closed early. -/
def Rebuilt (ns : List Node) : Prop :=
  ∀ {b target : Builder} {depth : Nat}, Aligned b target depth →
    ((∃ s, ns.head? = some (.text s)) → b.text = []) → InStep b.names depth (tags ns) →
    Aligned ((tags ns).foldl Builder.step b) (target.addAll (capped ns (maxDepth - depth))) depth

/-- An element is kept with its content, or its content stands in its place. -/
theorem Aligned.element (h : Aligned b target depth) {name : String} (hnot : ¬ IsLeaf name)
    {attributes : List Attribute} {children : List Node} (hchildren : Rebuilt children)
    (hstep : InStep b.names depth (Node.element name attributes children).tags) :
    Follows ((Node.element name attributes children).tags.foldl Builder.step b)
      (target.addAll ((Node.element name attributes children).capped (maxDepth - depth))) := by
  rw [Node.tags, if_neg hnot] at hstep ⊢
  rw [List.foldl_cons, List.foldl_append, List.foldl_cons, List.foldl_nil]
  have hflush := h.flushText_eq hstep.1
  have hinner := (inStep_append.mp hstep.2).1
  rw [← Builder.names_step] at hinner
  have hlength : target.stack.length = min depth maxDepth := target.length_names ▸ h.length
  by_cases hkept : depth < maxDepth
  · -- the content goes into the element, and the close tag closes that at least
    have hpush : b.step (.start name attributes) = target.push name attributes := by
      rw [Builder.step, hflush, if_neg (by omega)]
      rfl
    rw [hpush] at hinner ⊢
    have hopen : Aligned (target.push name attributes) (target.push name attributes)
        (depth + 1) := by
      refine ⟨.refl h.text, h.text, ?_⟩
      change target.names.length + 1 = _
      rw [h.length]
      omega
    have hfilled := (hchildren hopen (fun _ => h.text) hinner).follows
    have hroom : maxDepth - depth = maxDepth - (depth + 1) + 1 := by omega
    rw [hroom, Node.capped, if_neg hnot]
    change Follows _ (target.add _)
    rw [← Builder.closeTop_addAll_push]
    exact hfilled.closeTop (by rw [Builder.names_addAll]; rfl)
  · -- the content goes where the element stands, and the close tag closes what it finds
    have hdrop : b.step (.start name attributes) = target := by
      rw [Builder.step, hflush, if_pos (by omega)]
    rw [hdrop] at hinner ⊢
    have hopen : Aligned target target (depth + 1) := by
      refine ⟨.refl h.text, h.text, ?_⟩
      rw [h.length]
      omega
    have hfilled := (hchildren hopen (fun _ => h.text) hinner).follows
    have hroom : maxDepth - depth = 0 ∧ maxDepth - (depth + 1) = 0 := by omega
    rw [hroom.1, Node.capped, if_neg hnot]
    rw [hroom.2] at hfilled
    obtain ⟨k, hk, -⟩ := hfilled.close name
    exact ⟨k, hk⟩

/-- Nodes are taken in one after the other. -/
theorem Rebuilt.cons {n : Node} {ns : List Node} (h : Rebuilt ns) (haligned : Aligned b target depth)
    (hnode : InStep b.names depth n.tags →
      Follows (n.tags.foldl Builder.step b) (target.addAll (n.capped (maxDepth - depth))))
    (htext : (∃ s, ns.head? = some (.text s)) → (n.tags.foldl Builder.step b).text = [])
    (hstep : InStep b.names depth (tags (n :: ns))) :
    Aligned ((tags (n :: ns)).foldl Builder.step b)
      (target.addAll (capped (n :: ns) (maxDepth - depth))) depth := by
  obtain ⟨hfirst, hrest⟩ := inStep_append.mp hstep
  rw [← Builder.names_foldl, foldl_stepDepth_node] at hrest
  rw [tags, List.foldl_append, capped, Builder.addAll_append]
  exact h (haligned.addAll (hnode hfirst)) htext hrest

/-- After the tags of an element no text waits: its close tag has brought all of it into the tree. -/
theorem text_foldl_element (b : Builder) (name : String) (attributes : List Attribute)
    (children : List Node) :
    ((Node.element name attributes children).tags.foldl Builder.step b).text = [] := by
  rw [Node.tags]
  split
  next => exact (Builder.text_add _ _).trans b.text_flushText
  next =>
    rw [List.foldl_cons, List.foldl_append, List.foldl_cons, List.foldl_nil]
    exact Builder.text_step_close _ name

/-- A void or raw element is rebuilt from its one piece, whatever follows it. -/
theorem Rebuilt.leaf {name : String} (hleaf : IsLeaf name) {attributes : List Attribute}
    {children ns : List Node} (h : Rebuilt ns) :
    Rebuilt (.element name attributes children :: ns) := by
  intro b target depth haligned _ hstep
  refine h.cons haligned (fun hfirst => ?_) (fun _ => text_foldl_element ..) hstep
  have hkept : (Node.element name attributes children).capped (maxDepth - depth) =
      [.element name attributes children] := by
    unfold Node.capped
    rw [if_pos hleaf]
  rw [Node.tags, if_pos hleaf] at hfirst ⊢
  rw [hkept]
  exact haligned.leaf hfirst

/-- Every normal row of nodes is rebuilt from its tags, by recursion over the nodes and what is in
them. -/
theorem rebuilt {ns : List Node} (h : Normal ns) : Rebuilt ns := by
  induction h with
  | nil => exact fun h _ _ => h
  | @text s ns hne _ hapart _ ih =>
    intro b target depth h htext hstep
    refine ih.cons h (fun hfirst => ?_) (fun hnext => ?_) hstep
    · rw [Node.capped]
      exact h.text_node (htext ⟨s, rfl⟩) hne hfirst
    · obtain ⟨t, ht⟩ := hnext
      exact absurd ht (hapart t)
  | void hname _ _ ih => exact ih.leaf (Or.inl hname)
  | raw hname _ _ _ ih => exact ih.leaf (Or.inr hname)
  | element _ hnot _ _ _ ihchildren ih =>
    intro b target depth h _ hstep
    exact ih.cons h (h.element hnot ihchildren) (fun _ => text_foldl_element ..) hstep

end Aligned

/-! ## Documents -/

/-- With nothing open, nodes that are added become roots, the last one first. -/
theorem Builder.roots_addAll {b : Builder} (h : b.stack = []) (ns : List Node) :
    (b.addAll ns).roots = ns.reverse ++ b.roots := by
  induction ns generalizing b with
  | nil => rfl
  | cons n ns ih =>
    have hadd : b.add n = { b with roots := n :: b.roots } := by rw [add, h]
    rw [addAll, List.foldl_cons, hadd]
    refine (ih (b := { b with roots := n :: b.roots }) h).trans ?_
    rw [List.reverse_cons, List.append_assoc]
    rfl

/-- In step with its tags, a document is read as it is, but for the elements that are too deep. -/
theorem ofPieces_tags {doc : List Node} (h : Normal doc) (hstep : InStep [] 0 (tags doc)) :
    ofPieces (tags doc) = capped doc maxDepth := by
  have hopen : Aligned {} {} 0 := ⟨.refl rfl, rfl, rfl⟩
  obtain ⟨k, hk⟩ := (rebuilt h hopen (fun _ => rfl) hstep).follows
  have hnil : ((({} : Builder).addAll (capped doc maxDepth))).names = [] :=
    Builder.names_addAll {} _
  have hdone : ((tags doc).foldl Builder.step {}).flushText =
      ({} : Builder).addAll (capped doc maxDepth) :=
    hk.trans (Builder.closeMany_of_names_nil hnil k)
  rw [ofPieces, Builder.finish, hdone]
  simp only [Builder.closeMany_of_names_nil hnil]
  rw [Builder.roots_addAll rfl, List.append_nil, List.reverse_reverse]

/-- Parsing the source of a document is building a tree from its tags: the scanner gives back the
pieces that the source was made of. -/
theorem parse_sources_eq (doc : List Node) (h : Normal doc) :
    parse (String.ofList (sources doc)) = ofPieces (tags doc) := by
  have hpieces := pieces_sources h []
  rw [pieces, List.append_nil, List.append_nil] at hpieces
  rw [parse, String.toList_ofList, hpieces]

/-- A document in normal form that is not too deep is read back as it is. -/
theorem parse_sources {doc : List Node} (h : Normal doc) (hdeep : height doc ≤ maxDepth) :
    parse (String.ofList (sources doc)) = doc := by
  have hapart : Apart [] doc := apart_of_height_le (by simpa using hdeep)
  rw [parse_sources_eq doc h, ofPieces_tags h (inStep_of_apart hapart rfl).1,
    capped_of_height_le hdeep]

/-- A quoted `>` ends no tag, and what looks like a close tag inside a script closes nothing. -/
theorem parse_sources_quoted :
    let script : List Char := "if (a<b) s = '</b>'".toList
    let doc : List Node := [.text "1 > 0",
      .element "view" [⟨"title", some "it's > '/"⟩, ⟨"wx:else", none⟩]
        [.element "img" [⟨"src", some "/"⟩] [], .element "script" [] (textNodes script), .text "ok"]]
    Normal doc ∧ height doc ≤ maxDepth ∧
      String.ofList (sources doc) = "1 > 0<view title=\"it's > '/\" wx:else><img src=\"/\">" ++
        "<script>if (a<b) s = '</b>'</script>ok</view>" ∧
      parse (String.ofList (sources doc)) = doc := by
  intro script doc
  have hstays : StaysInside "script" script := by
    rw [StaysInside]
    decide
  have hinside : Normal [.element "img" [⟨"src", some "/"⟩] [],
      .element "script" [] (textNodes script), .text "ok"] :=
    .void (by decide) (by decide) <| .raw (by decide) (by decide) hstays <|
      .text (by decide) (by decide) (by simp) .nil
  have hnormal : Normal doc :=
    .text (by decide) (by decide) (by simp) <|
      .element (by decide) (by decide) (by decide) hinside .nil
  have hheight : height doc ≤ maxDepth := by decide
  exact ⟨hnormal, hheight, by decide, parse_sources hnormal hheight⟩

end AppletHost.Markup
