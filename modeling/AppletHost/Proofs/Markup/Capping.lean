import AppletHost.Proofs.Markup.Rebuilding

/-!
# Elements that are too deep

The tree of a document whose elements are nested too deep should be the document without these, with
their content in their place (`capped`), up to texts that then touch (`merged`). Whether it is depends
on what is open whenever content comes, and an outline tells just that: what stands in a tree, in
reading order, each with its depth. A piece adds to the outline of the tree under construction, at the
depth of what is open (`Builder.outline_step`), and a close tag adds nothing:

> `outline_ofPieces`: the outline of what is read follows from the names of what is open;
> `plan_tags`: the outline that it should have follows from the depth.

What is open is some of what is around (`behind_tags`). So nothing stands too deep and no start tag
is missing, and the outlines are the same only if nothing stands too high either:

> `merged_parse_sources_iff`: a document is read as it should be if and only if its tags are in step,
> as they are where no dropped element has the name of a kept one around it.
-/

namespace AppletHost.Markup

/-! ## Outlines -/

/-- The characters of a text at a depth. -/
def spread (cs : List Char) (depth : Nat) : List (Piece × Nat) := cs.map fun c => (.char c, depth)

mutual

/-- What stands in a node, in reading order, each with the depth at which it stands. -/
def Node.outline : Node → Nat → List (Piece × Nat)
  | .text s, depth => spread s.toList depth
  | .element name attributes children, depth =>
    (.start name attributes, depth) :: outline children (depth + 1)

/-- What stands in a forest, in reading order, each with the depth at which it stands. -/
def outline : List Node → Nat → List (Piece × Nat)
  | [], _ => []
  | n :: ns, depth => n.outline depth ++ outline ns depth

end

/-- An outline goes along the nodes from left to right, so that of two rows is one behind the
other. -/
theorem outline_append (ns ms : List Node) (depth : Nat) :
    outline (ns ++ ms) depth = outline ns depth ++ outline ms depth := by
  induction ns with
  | nil => rfl
  | cons n ns ih => rw [List.cons_append, outline, ih, outline, List.append_assoc]

theorem outline_singleton (n : Node) (depth : Nat) : outline [n] depth = n.outline depth :=
  List.append_nil _

/-! ## Texts that touch -/

/-- A node in front of others; a text takes in the text it comes to stand before. -/
def joined : Node → List Node → List Node
  | .text s, .text t :: ns => .text (s ++ t) :: ns
  | n, ns => n :: ns

mutual

/-- A node whose texts that touch are one. -/
def Node.merged : Node → Node
  | .text s => .text s
  | .element name attributes children => .element name attributes (merged children)

/-- A forest whose texts that touch are one. -/
def merged : List Node → List Node
  | [] => []
  | n :: ns => joined n.merged (merged ns)

end

/-- Joining adjacent texts moves no character: the outline counts them one by one, whatever text node
they stand in. -/
theorem outline_joined (n : Node) (ns : List Node) (depth : Nat) :
    outline (joined n ns) depth = n.outline depth ++ outline ns depth := by
  unfold joined
  split
  next s t ns =>
    rw [outline, outline, Node.outline, Node.outline, Node.outline, spread, spread, spread,
      String.toList_append, List.map_append, List.append_assoc]
  next => rw [outline]

/-- The outline does not tell texts that touch from one text. -/
theorem outline_merged (ns : List Node) (depth : Nat) :
    outline (merged ns) depth = outline ns depth := by
  induction ns using forest_induction generalizing depth with
  | nil => rfl
  | text s ns ih => rw [merged, outline_joined, ih, outline, Node.merged]
  | element name attributes children ns ihchildren ih =>
    rw [merged, outline_joined, ih, outline, Node.merged, Node.outline, Node.outline, ihchildren]

/-! ## The outline of what is read -/

/-- What a piece adds to the outline where so many elements are open. -/
def Piece.entries (depth : Nat) : Piece → List (Piece × Nat)
  | .char c => [(.char c, depth)]
  | .whole n => n.outline depth
  | .start name attributes => if maxDepth ≤ depth then [] else [(.start name attributes, depth)]
  | .close _ => []

/-- The outline of the open elements. -/
def stackOutline : List OpenElement → List (Piece × Nat)
  | [] => []
  | e :: outer => stackOutline outer ++
    (.start e.name e.attributes, outer.length) :: outline e.children.reverse (outer.length + 1)

namespace Builder

/-- The outline of the tree under construction. -/
def outline (b : Builder) : List (Piece × Nat) :=
  Markup.outline b.roots.reverse 0 ++ stackOutline b.stack ++ spread b.text.reverse b.stack.length

/-- A node that joins the deepest open element stands at the end of the outline, at the depth of the
open ones. -/
theorem outline_add {b : Builder} (h : b.text = []) (n : Node) :
    (b.add n).outline = b.outline ++ n.outline b.stack.length := by
  unfold add outline
  split
  next hnil => simp [hnil, h, outline_append, outline_singleton, stackOutline, spread]
  next top outer hcons =>
    simp [hcons, h, outline_append, outline_singleton, stackOutline, spread]

/-- Text that waits to be added counts for the outline already, so adding it changes nothing. -/
theorem outline_flushText (b : Builder) : b.flushText.outline = b.outline := by
  unfold flushText
  split
  next => rfl
  next =>
    rw [outline_add rfl]
    simp [outline, Node.outline, spread]

/-- Closing an element moves none of its content to another depth, provided that no text waits. -/
theorem outline_closeTop {b : Builder} (h : b.text = []) : b.closeTop.outline = b.outline := by
  unfold closeTop
  split
  next => rfl
  next top outer hcons =>
    refine (outline_add (b := { b with stack := outer }) h top.toNode).trans ?_
    simp [outline, hcons, h, OpenElement.toNode, Node.outline, stackOutline, spread]

theorem outline_closeMany {b : Builder} (h : b.text = []) (n : Nat) :
    (b.closeMany n).outline = b.outline := by
  induction n generalizing b with
  | zero => rfl
  | succ n ih => rw [closeMany, ih (b.text_closeTop.trans h), outline_closeTop h]

/-- Each piece adds its own entries at the end of the outline, at the depth of the elements that are
open when it comes. -/
theorem outline_step (b : Builder) (p : Piece) :
    (b.step p).outline = b.outline ++ p.entries b.names.length := by
  have hlength : b.flushText.stack.length = b.names.length := by
    rw [← length_names, names_flushText]
  cases p with
  | char c => simp [step, outline, Piece.entries, spread, length_names]
  | whole n => rw [step, outline_add b.text_flushText, outline_flushText, hlength, Piece.entries]
  | close name =>
    obtain ⟨k, hclose, -⟩ := b.flushText.close_eq_closeMany name
    rw [step, hclose, outline_closeMany b.text_flushText, outline_flushText]
    exact (List.append_nil _).symm
  | start name attributes =>
    rw [step, Piece.entries, hlength]
    split
    next => rw [outline_flushText, List.append_nil]
    next =>
      rw [← b.outline_flushText]
      simp [outline, stackOutline, Markup.outline, b.text_flushText, spread, hlength]

/-- The tree that is handed out has the outline of the builder: all that is still open is closed where
it stands. -/
theorem outline_finish (b : Builder) : Markup.outline b.finish 0 = b.outline := by
  have hnil : (b.flushText.closeMany b.flushText.stack.length).names = [] := by
    rw [names_closeMany, List.drop_eq_nil_iff, length_names]
  have hstack := List.map_eq_nil_iff.mp hnil
  have htext : (b.flushText.closeMany b.flushText.stack.length).text = [] :=
    (text_closeMany _ _).trans b.text_flushText
  rw [finish, ← b.outline_flushText, ← outline_closeMany b.text_flushText b.flushText.stack.length]
  simp only [outline, hstack, htext]
  simp [stackOutline, spread]

end Builder

/-- What pieces add to the outline where elements of these names are open. -/
def trace (names : List String) : List Piece → List (Piece × Nat)
  | [] => []
  | p :: ps => p.entries names.length ++ trace (stepNames names p) ps

/-- A whole run adds the trace of its pieces, which hangs on the names of the open elements alone. -/
theorem outline_foldl (b : Builder) (ps : List Piece) :
    (ps.foldl Builder.step b).outline = b.outline ++ trace b.names ps := by
  induction ps generalizing b with
  | nil => exact (List.append_nil _).symm
  | cons p ps ih =>
    rw [List.foldl_cons, ih, Builder.outline_step, Builder.names_step, List.append_assoc, trace]

/-- What stands in the tree, and how deep, goes by what is open alone. -/
theorem outline_ofPieces (ps : List Piece) : outline (ofPieces ps) 0 = trace [] ps := by
  rw [ofPieces, Builder.outline_finish, outline_foldl]
  rfl

/-! ## The outline that it should have -/

/-- What pieces should add to the outline at a depth: elements that are too deep add nothing. -/
def plan (depth : Nat) : List Piece → List (Piece × Nat)
  | [] => []
  | p :: ps => p.entries (min depth maxDepth) ++ plan (stepDepth depth p) ps

/-- The plan of pieces in a row goes on at the depth that the first of them have led to. -/
theorem plan_append (depth : Nat) (ps qs : List Piece) :
    plan depth (ps ++ qs) = plan depth ps ++ plan (ps.foldl stepDepth depth) qs := by
  induction ps generalizing depth with
  | nil => rfl
  | cons p ps ih => rw [List.cons_append, plan, ih, plan, List.append_assoc, List.foldl_cons]

/-- A text is planned character by character, at the depth of the elements around it or at the
limit. -/
theorem plan_asText (depth : Nat) (cs : List Char) :
    plan depth (asText cs) = spread cs (min depth maxDepth) := by
  induction cs with
  | nil => rfl
  | cons c cs ih => exact congrArg (_ :: ·) ih

/-- The plan of a forest is the outline of it without the elements that are too deep. -/
theorem plan_tags (ns : List Node) (depth : Nat) :
    plan depth (tags ns) = outline (capped ns (maxDepth - depth)) (min depth maxDepth) := by
  induction ns using forest_induction generalizing depth with
  | nil => rfl
  | text s ns ih =>
    rw [tags, plan_append, Node.tags, plan_asText, foldl_stepDepth_asText, ih, capped,
      outline_append, Node.capped, outline_singleton, Node.outline]
  | element name attributes children ns ihchildren ih =>
    rw [tags, plan_append, foldl_stepDepth_node, ih, capped, outline_append]
    congr 1
    by_cases hleaf : IsLeaf name
    · unfold Node.tags Node.capped
      rw [if_pos hleaf, if_pos hleaf, outline_singleton]
      exact List.append_nil _
    · rw [Node.tags, if_neg hleaf, plan, stepDepth, plan_append, ihchildren]
      by_cases hkept : depth < maxDepth
      · have hroom : maxDepth - depth = maxDepth - (depth + 1) + 1 := by omega
        have hdepth : min depth maxDepth = depth ∧ min (depth + 1) maxDepth = depth + 1 := by omega
        rw [hroom, Node.capped, if_neg hleaf, outline_singleton, Node.outline, hdepth.1, hdepth.2,
          Piece.entries, if_neg (by omega)]
        exact congrArg (_ :: ·) (List.append_nil _)
      · have hroom : maxDepth - depth = 0 ∧ maxDepth - (depth + 1) = 0 := by omega
        have hdepth : min depth maxDepth = maxDepth ∧ min (depth + 1) maxDepth = maxDepth := by
          omega
        rw [hroom.1, hroom.2, Node.capped, if_neg hleaf, hdepth.1, hdepth.2, Piece.entries,
          if_pos (Nat.le_refl _)]
        exact List.append_nil _

/-! ## What is open is around -/

/-- At every piece, no more elements are open than there are around it. -/
def Behind (names : List String) (depth : Nat) : List Piece → Prop
  | [] => True
  | p :: ps => names.length ≤ min depth maxDepth ∧ Behind (stepNames names p) (stepDepth depth p) ps

/-- Names that lag behind the plan are followed through two rows of pieces as through one. -/
theorem behind_append {names : List String} {depth : Nat} {ps qs : List Piece} :
    Behind names depth (ps ++ qs) ↔ Behind names depth ps ∧
      Behind (ps.foldl stepNames names) (ps.foldl stepDepth depth) qs := by
  induction ps generalizing names depth with
  | nil => simp [Behind]
  | cons p ps ih => simp [Behind, ih, and_assoc]

/-- Outlines of the same nodes are equally long at every depth; the depth is only noted in their
entries. -/
theorem length_outline (ns : List Node) (depth depth' : Nat) :
    (outline ns depth).length = (outline ns depth').length := by
  induction ns using forest_induction generalizing depth depth' with
  | nil => rfl
  | text s ns ih => simp [outline, Node.outline, spread, ih depth depth']
  | element name attributes children ns ihchildren ih =>
    simp [outline, Node.outline, ih depth depth', ihchildren (depth + 1) (depth' + 1)]

/-- What stands deeper has no more entries: past the limit a tag has none, and text has one a
character at any depth. -/
theorem length_entries_le (p : Piece) {shallow deep : Nat} (h : shallow ≤ deep) :
    (p.entries deep).length ≤ (p.entries shallow).length := by
  cases p with
  | char c => exact Nat.le_refl _
  | whole n =>
    have hlength := length_outline [n] deep shallow
    rw [outline_singleton, outline_singleton] at hlength
    exact Nat.le_of_eq hlength
  | close name => exact Nat.le_refl _
  | start name attributes =>
    by_cases hfull : maxDepth ≤ deep
    · simp [Piece.entries, hfull]
    · have hroom : ¬ maxDepth ≤ shallow := by omega
      simp [Piece.entries, hfull, hroom]

/-- As long as the open names are no deeper than planned, nothing that was planned is missing from the
trace. -/
theorem length_plan_le {names : List String} {depth : Nat} {ps : List Piece}
    (h : Behind names depth ps) : (plan depth ps).length ≤ (trace names ps).length := by
  induction ps generalizing names depth with
  | nil => exact Nat.le_refl _
  | cons p ps ih =>
    rw [plan, trace, List.length_append, List.length_append]
    exact Nat.add_le_add (length_entries_le p h.1) (ih h.2)

/-- What no close tag adds to the outline tells how deep it stands. -/
theorem eq_of_entries_eq {p : Piece} {shallow deep : Nat} (hle : shallow ≤ min deep maxDepth)
    (hclose : ∀ name, p ≠ .close name) (hwhole : ∀ s, p ≠ .whole (.text s))
    (h : p.entries shallow = p.entries (min deep maxDepth)) : shallow = min deep maxDepth := by
  cases p with
  | char c => simpa [Piece.entries] using h
  | whole n =>
    cases n with
    | text s => exact absurd rfl (hwhole s)
    | element name attributes children =>
      rw [Piece.entries, Piece.entries, Node.outline, Node.outline] at h
      exact (Prod.mk.inj (List.cons.inj h).1).2
  | close name => exact absurd rfl (hclose name)
  | start name attributes =>
    by_cases hfull : maxDepth ≤ shallow
    · omega
    · rw [Piece.entries, Piece.entries, if_neg hfull] at h
      split at h
      next => cases h
      next => exact (Prod.mk.inj (List.cons.inj h).1).2

/-- A builder that reads what is planned is in step. Were it behind at any piece, an entry of the
trace would stand at another depth than planned. -/
theorem inStep_of_trace_eq {names : List String} {depth : Nat} {ps : List Piece}
    (hwhole : ∀ s, .whole (.text s) ∉ ps) (h : Behind names depth ps)
    (heq : trace names ps = plan depth ps) : InStep names depth ps := by
  induction ps generalizing names depth with
  | nil => trivial
  | cons p ps ih =>
    -- the builder never reads less than is planned, so neither the piece nor the rest is longer
    have hfirst := length_entries_le p h.1
    have hrest := length_plan_le h.2
    have htotal := congrArg List.length heq
    rw [trace, plan, List.length_append, List.length_append] at htotal
    obtain ⟨hentries, htrace⟩ := List.append_inj heq (by omega)
    have hlater := ih (fun s hs => hwhole s (List.mem_cons_of_mem p hs)) h.2 htrace
    by_cases hclose : ∃ name, p = .close name
    · obtain ⟨name, rfl⟩ := hclose
      exact hlater
    · have hlength := eq_of_entries_eq h.1 (fun name hp => hclose ⟨name, hp⟩)
        (fun s hp => hwhole s (hp ▸ List.mem_cons_self)) hentries
      cases p with
      | close name => exact absurd ⟨name, rfl⟩ hclose
      | _ => exact ⟨hlength, hlater⟩

/-- A node that is written with tags is never one whole piece of text, since texts go in by the
character. -/
theorem whole_text_notMem_tags (s : String) (ns : List Node) : .whole (.text s) ∉ tags ns := by
  induction ns using forest_induction with
  | nil => exact List.not_mem_nil
  | text t ns ih =>
    rw [tags, List.mem_append, not_or]
    exact ⟨by simp [Node.tags, asText], ih⟩
  | element name attributes children ns ihchildren ih =>
    rw [tags, List.mem_append, not_or]
    refine ⟨?_, ih⟩
    rw [Node.tags]
    split
    next => simp
    next => simp [ihchildren]

/-- Open elements that are some of those around, in the same order, and no more than are kept. -/
structure Within (names path : List String) : Prop where
  sublist : names.Sublist path
  length : names.length ≤ maxDepth

/-- An element that is opened on the way down stands on the path, and among the open names unless
these are at the limit. -/
theorem Within.start {names path : List String} (h : Within names path) (name : String)
    (attributes : List Attribute) :
    Within (stepNames names (.start name attributes)) (name :: path) := by
  rw [stepNames]
  split
  next => exact ⟨h.sublist.cons name, h.length⟩
  next hroom => exact ⟨h.sublist.cons_cons name, by rw [List.length_cons]; omega⟩

/-- A close tag that the path waits for leaves names that lie within what is left of the path. -/
theorem Within.close {names path : List String} {name : String} (h : Within names (name :: path)) :
    Within (closed name names) path := by
  have hclosed : (closed name names).Sublist names := by
    unfold closed
    split
    next => exact List.Sublist.refl _
    next => exact List.drop_sublist _ _
  refine ⟨?_, hclosed.length_le.trans h.length⟩
  -- the element around was closed early, or it is the innermost one open
  rcases List.sublist_cons_iff.mp h.sublist with hout | ⟨rest, rfl, hrest⟩
  · exact hclosed.trans hout
  · rw [closed_cons]
    exact hrest

/-- Names that are taken from the path are no more than it has, and no more than the limit allows. -/
theorem Within.length_le {names path : List String} (h : Within names path) :
    names.length ≤ min path.length maxDepth :=
  Nat.le_min.mpr ⟨h.sublist.length_le, h.length⟩

/-- Whatever is closed early, what is open is around: the names of the open elements are taken from
the path, in order, through all tags of a forest. -/
theorem behind_tags (ns : List Node) {names path : List String} (h : Within names path) :
    Behind names path.length (tags ns) ∧ Within ((tags ns).foldl stepNames names) path := by
  induction ns using forest_induction generalizing names path with
  | nil => exact ⟨trivial, h⟩
  | text s ns ih =>
    have htext : ∀ cs, Behind names path.length (asText cs) ∧
        (asText cs).foldl stepNames names = names := by
      intro cs
      induction cs with
      | nil => exact ⟨trivial, rfl⟩
      | cons c cs ih => exact ⟨⟨h.length_le, ih.1⟩, ih.2⟩
    obtain ⟨hbehind, hnames⟩ := htext s.toList
    rw [tags, Node.tags, behind_append, List.foldl_append, hnames, foldl_stepDepth_asText]
    exact ⟨⟨hbehind, (ih h).1⟩, (ih h).2⟩
  | element name attributes children ns ihchildren ih =>
    obtain ⟨hbehind, hwithin⟩ :
        Behind names path.length (Node.element name attributes children).tags ∧
        Within ((Node.element name attributes children).tags.foldl stepNames names) path := by
      rw [Node.tags]
      split
      next => exact ⟨⟨h.length_le, trivial⟩, h⟩
      next =>
        obtain ⟨hinner, hend⟩ := ihchildren (h.start name attributes)
        rw [List.foldl_cons, List.foldl_append]
        refine ⟨⟨h.length_le, behind_append.mpr ⟨hinner, ?_, trivial⟩⟩, hend.close⟩
        rw [foldl_stepDepth_tags]
        exact hend.length_le
    rw [tags, behind_append, List.foldl_append, foldl_stepDepth_node]
    exact ⟨⟨hbehind, (ih hwithin).1⟩, (ih hwithin).2⟩

/-! ## Views in views -/

/-- A forest inside `n` views, one in the other. -/
def views : Nat → List Node → List Node
  | 0, ns => ns
  | n + 1, ns => [.element "view" [] (views n ns)]

/-- Views around normal nodes are normal: `view` is the name of an element, and a single view has no
text beside it. -/
theorem normal_views {ns : List Node} (h : Normal ns) (n : Nat) : Normal (views n ns) := by
  induction n with
  | zero => exact h
  | succ n ih => exact .element (by decide) (by decide) (by simp) ih .nil

/-- An element with a text beside it is normal. Of these are the trees at which a close tag goes
wrong. -/
theorem normal_beside {name : String} (hname : IsElementName name) (hnot : ¬ IsLeaf name) :
    Normal [.element name [] [.text "x"], .text "y"] := by
  have hx : Normal [.text "x"] := .text (by decide) (by decide) (by simp) .nil
  have hy : Normal [.text "y"] := .text (by decide) (by decide) (by simp) .nil
  exact .element hname hnot (by simp) hx hy

/-- Capping goes through the views without loss, and caps what they hold by the room that they
leave. -/
theorem capped_views (n room : Nat) (ns : List Node) :
    capped (views n ns) (n + room) = views n (capped ns room) := by
  induction n with
  | zero => rw [Nat.zero_add, views, views]
  | succ n ih =>
    have hnot : ¬ IsLeaf "view" := by decide
    rw [Nat.add_right_comm, views, capped, Node.capped, if_neg hnot, ih, views]
    rfl

/-- The views themselves are above the limit, so being apart is asked of what is in them, under their
names. -/
theorem apart_views {kept : List String} {n : Nat} {ns : List Node}
    (hroom : kept.length + n ≤ maxDepth) (h : Apart (List.replicate n "view" ++ kept) ns) :
    Apart kept (views n ns) := by
  induction n generalizing kept with
  | zero => exact h
  | succ n ih =>
    refine ⟨Or.inr ?_, trivial⟩
    rw [if_neg (by omega)]
    refine ih (by rw [List.length_cons]; omega) ?_
    rwa [List.append_cons, ← List.replicate_succ']

/-- If a tree of so many views is rebuilt in step, what is in the views is rebuilt in step from there
on. -/
theorem inStep_of_views {names : List String} {depth n : Nat} {ns : List Node}
    (hroom : names.length + n ≤ maxDepth) (h : InStep names depth (tags (views n ns))) :
    InStep (List.replicate n "view" ++ names) (depth + n) (tags ns) := by
  induction n generalizing names depth with
  | zero => exact h
  | succ n ih =>
    have hnot : ¬ IsLeaf "view" := by decide
    rw [views, tags, Node.tags, if_neg hnot] at h
    have hinner := (inStep_append.mp (inStep_append.mp h).1.2).1
    rw [stepNames_start_of_lt (by omega)] at hinner
    have hdeep := ih (by rw [List.length_cons]; omega) hinner
    rwa [List.append_cons, ← List.replicate_succ', stepDepth, Nat.add_right_comm] at hdeep

/-- Behind an element that is dropped, the element of the same name around it is closed. -/
theorem not_inStep_of_same_name {name : String} {outer : List String} {depth : Nat} {c d : Char}
    (hfull : maxDepth ≤ (name :: outer).length) :
    ¬ InStep (name :: outer) depth [.start name [], .char c, .close name, .char d] := by
  intro h
  rw [inStep_start, stepNames_start_of_le hfull] at h
  obtain ⟨hlength, -, hlast⟩ := h
  change InStep (closed name (name :: outer)) depth [.char d] at hlast
  rw [closed_cons] at hlast
  have hshort := hlast.1
  rw [List.length_cons] at hlength
  omega

/-! ## Documents -/

/-- A document is read as it should be only if the builder is in step. -/
theorem inStep_of_merged_eq {doc : List Node} (h : Normal doc)
    (heq : merged (parse (String.ofList (sources doc))) = merged (capped doc maxDepth)) :
    InStep [] 0 (tags doc) := by
  have hbehind := (behind_tags doc ⟨List.Sublist.refl [], Nat.zero_le _⟩).1
  have houtline : outline (ofPieces (tags doc)) 0 = outline (capped doc maxDepth) 0 := by
    rw [← parse_sources_eq doc h, ← outline_merged, heq, outline_merged]
  refine inStep_of_trace_eq (fun s => whole_text_notMem_tags s doc) hbehind ?_
  rw [← outline_ofPieces, houtline]
  exact (plan_tags doc 0).symm

/--
A document of any depth is read as it is, with the content of the elements that are too deep in their
place and up to texts that touch, if and only if its tags are in step. They are in step where no
element that is dropped has the name of a kept one around it, and then the texts are the same, too.
-/
theorem merged_parse_sources_iff {doc : List Node} (h : Normal doc) :
    (merged (parse (String.ofList (sources doc))) = merged (capped doc maxDepth) ↔
      InStep [] 0 (tags doc)) ∧
    (Apart [] doc → parse (String.ofList (sources doc)) = capped doc maxDepth) := by
  refine ⟨⟨inStep_of_merged_eq h, fun hstep => ?_⟩, fun hapart => ?_⟩
  · rw [parse_sources_eq doc h, ofPieces_tags h hstep]
  · rw [parse_sources_eq doc h, ofPieces_tags h (inStep_of_apart hapart rfl).1]

/-- An element that is dropped leaves its content, if no element around it has its name. -/
theorem capped_other_name :
    let doc := views 256 [.element "b" [] [.text "x"], .text "y"]
    Normal doc ∧ Apart [] doc ∧
      parse (String.ofList (sources doc)) = views 256 [.text "x", .text "y"] := by
  intro doc
  have hnormal : Normal doc := normal_views (normal_beside (by decide) (by decide)) 256
  have hapart : Apart [] doc := by
    refine apart_views (by decide) ⟨Or.inr ?_, trivial, trivial⟩
    rw [List.append_nil, List.length_replicate, if_pos (by decide)]
    exact ⟨fun hmem => absurd (List.eq_of_mem_replicate hmem) (by decide), trivial, trivial⟩
  have hcapped : capped doc maxDepth = views 256 [.text "x", .text "y"] := capped_views 256 0 _
  exact ⟨hnormal, hapart, ((merged_parse_sources_iff hnormal).2 hapart).trans hcapped⟩

/-- The close tag of a view that is dropped closes the one around it, and what follows is outside. -/
theorem not_capped_same_name :
    let doc := views 256 [.element "view" [] [.text "x"], .text "y"]
    Normal doc ∧
      merged (parse (String.ofList (sources doc))) ≠ merged (capped doc maxDepth) := by
  intro doc
  have hnormal : Normal doc := normal_views (normal_beside (by decide) (by decide)) 256
  refine ⟨hnormal, fun heq => ?_⟩
  have hstep := inStep_of_views (by decide) (inStep_of_merged_eq hnormal heq)
  rw [List.append_nil] at hstep
  exact not_inStep_of_same_name (by rw [← List.replicate_succ, List.length_replicate, maxDepth])
    hstep

end AppletHost.Markup
