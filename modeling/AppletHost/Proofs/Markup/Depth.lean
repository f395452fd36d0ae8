import AppletHost.Template.Basic
import AppletHost.Proofs.Markup.Capping

/-!
# How deep a tree is

A start tag inside `maxDepth` open elements opens nothing, so no more are ever open. The tree is not as
shallow as that: void, self-closing and raw text elements are put into the innermost open element
without being opened, and a raw text element has a text in it. That is one element more, and one text.

Nodes go into the tree in bursts, whenever a close tag or the end of the text closes some elements. What
bounds their depth is what has room in an open element: with so many elements around it, its children
have room for as many levels as are left (`Builder.Shallow`). An element that is closed takes one level
more, and has one element less around it.

> `paths_bounded`: on a path from a root there are at most `maxDepth + 1` elements and one node more, in
> the tree of any text and in its template, and of that many elements the last is one that was complete
> as its start tag stood.
-/

namespace AppletHost.Markup

/-! ## Paths -/

/-- Nodes from a root on, each a child of the one before it. -/
def IsPath {α : Type} (children : α → List α) : (roots path : List α) → Prop
  | _, [] => True
  | roots, n :: path => n ∈ roots ∧ IsPath children (children n) path

/-- The nodes in a node. -/
def Node.children : Node → List Node
  | .text _ => []
  | .element _ _ children => children

/-- The node is an element. -/
def Node.isElement : Node → Bool
  | .text _ => false
  | .element _ _ _ => true

/-- The elements on a path. -/
def elements (path : List Node) : List Node := path.filter Node.isElement

/-! ## Elements that stand alone -/

/-- Somewhere in the text stands a start tag with this inside. -/
def HasTag (cs inside : List Char) : Prop :=
  ∃ before rest after, cs = before ++ '<' :: rest ∧ tagEnd? none rest = some (inside, after)

/-- The name of the element that a start tag starts. -/
def StartTag.elementName (tag : StartTag) : String := String.ofList (Text.lowercase tag.name)

/-- An element that is complete as its start tag stands in the text: the tag closes itself or is void, or
the content is raw text. -/
inductive Alone (cs : List Char) : Node → Prop
  | empty {inside : List Char} {tag : StartTag} (here : HasTag cs inside)
      (split : splitStartTag inside = tag)
      (kind : tag.selfClosing = true ∨ tag.elementName ∈ voidNames) :
      Alone cs (.element tag.elementName (attributes tag.attributes) [])
  | raw {inside : List Char} {tag : StartTag} (here : HasTag cs inside)
      (split : splitStartTag inside = tag) (kind : tag.elementName ∈ rawTextNames)
      (content : List Char) :
      Alone cs (.element tag.elementName (attributes tag.attributes) (textNodes content))

/-- A tag of a text is a tag of every longer text that ends with it. -/
theorem HasTag.append {cs inside : List Char} (h : HasTag cs inside) (front : List Char) :
    HasTag (front ++ cs) inside := by
  obtain ⟨before, rest, after, rfl, hend⟩ := h
  exact ⟨front ++ before, rest, after, (List.append_assoc _ _ _).symm, hend⟩

/-- And an element that stands alone in a text does so in every longer one that ends with it. -/
theorem Alone.append {cs : List Char} {n : Node} (h : Alone cs n) (front : List Char) :
    Alone (front ++ cs) n := by
  cases h with
  | empty here split kind => exact .empty (here.append front) split kind
  | raw here split kind content => exact .raw (here.append front) split kind content

/-- The complete element of a start tag. -/
theorem alone_of_startPiece {cs inside after : List Char} {n : Node} (here : HasTag cs inside)
    (h : (startPiece inside after).1 = .whole n) : Alone cs n := by
  unfold startPiece at h
  dsimp only at h
  split at h
  next kind =>
    cases h
    exact .empty here rfl kind
  next =>
    split at h
    next kind =>
      cases h
      exact .raw here rfl kind _
    next => cases h

/-! ## Complete pieces -/

/-- What is read behind a tag is the rest of the text. -/
theorem suffix_of_tagEnd? {quote : Option Char} {cs inside after : List Char}
    (h : tagEnd? quote cs = some (inside, after)) : after <:+ cs := by
  fun_induction tagEnd? quote cs generalizing inside with
  | case1 => cases h
  | case2 c cs q ih =>
    obtain ⟨⟨i, r⟩, hb, he⟩ := Option.map_eq_some_iff.1 h
    cases he
    exact (ih hb).trans (List.suffix_cons c cs)
  | case3 cs =>
    cases h
    exact List.suffix_cons _ _
  | case4 c cs _ ih =>
    obtain ⟨⟨i, r⟩, hb, he⟩ := Option.map_eq_some_iff.1 h
    cases he
    exact (ih hb).trans (List.suffix_cons c cs)

theorem suffix_of_breakOn? {word cs before rest : List Char}
    (h : Text.breakOn? word cs = some (before, rest)) : rest <:+ cs :=
  ⟨before ++ word, (Text.breakOn?_append h).symm⟩

/-- What is read behind a raw element is the rest of the text, even where its close tag is missing. -/
theorem suffix_rawContent (name cs : List Char) : (rawContent name cs).2 <:+ cs := by
  unfold rawContent
  split
  next => exact List.nil_suffix
  next content rest h =>
    obtain ⟨here, hhere, rfl⟩ := Text.breakAt?_append h
    obtain ⟨folded, rfl, -⟩ := startsWithFolded?_eq_some hhere
    have hrest : rest <:+ content ++ (folded ++ rest) :=
      (List.suffix_append folded rest).trans (List.suffix_append content _)
    cases hbreak : Text.breakOn? ['>'] rest with
    | none => exact List.nil_suffix
    | some found => exact (suffix_of_breakOn? hbreak).trans hrest

/-- A start tag is read from the text behind it, which for a raw element is also where its content is
looked for. -/
theorem suffix_startPiece (inside after : List Char) : (startPiece inside after).2 <:+ after := by
  unfold startPiece
  dsimp only
  split
  next => exact List.suffix_rfl
  next =>
    split
    next => exact suffix_rawContent _ _
    next => exact List.suffix_rfl

/-- The rest of a text behind its first pieces is the end of it, and the complete elements among the
pieces stand in it alone. -/
def FrontOf (cs : List Char) (taken : Text.Taken (List Piece) ('<' :: cs)) : Prop :=
  taken.rest <:+ '<' :: cs ∧ ∀ n, .whole n ∈ taken.value → Alone ('<' :: cs) n

/-- Skipping past a comment or a declaration loses a front of the text and changes nothing behind
it. -/
theorem frontOf_skipPast (word cs : List Char) : FrontOf cs (skipPast word '<' cs) := by
  obtain ⟨hvalue, front, hfront⟩ := skipPast_cases word '<' cs
  refine ⟨⟨'<' :: front, congrArg ('<' :: ·) hfront.symm⟩, fun n hn => ?_⟩
  rw [hvalue] at hn
  exact absurd hn List.not_mem_nil

/-- Each piece is read off the front of the text, and the others are read from what is left. -/
theorem frontOf_pieceAt (cs : List Char) : FrontOf cs (pieceAt cs) := by
  have hnone : ∀ {ds : List Char} {n : Node}, Piece.whole n ∉ asText ds := by
    intro ds n hmem
    obtain ⟨c, -, hc⟩ := List.mem_map.1 hmem
    cases hc
  refine Markup.pieceAt.fun_cases_unfolding (motive := FrontOf)
    ?comment ?declaration ?instruction ?openClose ?close ?openStart ?start ?text ?last cs
  case comment =>
    intro rest
    obtain ⟨hvalue, front, hfront⟩ := skipPast_cases "-->".toList '!' ('-' :: '-' :: rest)
    refine ⟨⟨'<' :: '!' :: front, congrArg ('<' :: '!' :: ·) hfront.symm⟩, fun n hn => ?_⟩
    exact absurd (hvalue ▸ hn : Piece.whole n ∈ []) List.not_mem_nil
  case declaration => exact fun rest _ => frontOf_skipPast _ _
  case instruction => exact fun rest => frontOf_skipPast _ _
  case openClose => exact fun rest _ => ⟨List.nil_suffix, fun n hn => absurd hn hnone⟩
  case close =>
    intro rest name after h
    refine ⟨(suffix_of_breakOn? h).trans (List.suffix_append ['<', '/'] rest), fun n hn => ?_⟩
    cases List.mem_singleton.1 hn
  case openStart => exact fun c rest _ _ _ _ _ _ => ⟨List.nil_suffix, fun n hn => absurd hn hnone⟩
  case start =>
    intro c rest _ _ _ _ _ inside after h
    have hafter : after <:+ '<' :: c :: rest := (suffix_of_tagEnd? h).trans (List.suffix_cons _ _)
    refine ⟨(suffix_startPiece inside after).trans hafter, fun n hn => ?_⟩
    exact alone_of_startPiece ⟨[], c :: rest, after, rfl, h⟩ (List.mem_singleton.1 hn).symm
  case text =>
    intro c rest _ _ _ _ _
    refine ⟨List.suffix_cons _ _, fun n hn => ?_⟩
    cases List.mem_singleton.1 hn
  case last =>
    refine ⟨List.suffix_cons _ _, fun n hn => ?_⟩
    cases List.mem_singleton.1 hn

/-- The complete elements among the pieces of a text stand in it alone. -/
theorem alone_of_mem_pieces {cs : List Char} {n : Node} (h : .whole n ∈ pieces cs) : Alone cs n := by
  induction hk : cs.length using Nat.strong_induction_on generalizing cs with
  | _ k ih =>
    subst hk
    cases cs with
    | nil =>
      rw [pieces] at h
      cases h
    | cons c cs =>
      by_cases hc : c = '<'
      · subst hc
        rw [Markup.pieces.eq_2, List.mem_append] at h
        obtain ⟨⟨front, hfront⟩, hwhole⟩ := frontOf_pieceAt cs
        rcases h with h | h
        · exact hwhole n h
        · exact hfront ▸ (ih _ (pieceAt cs).shorter h rfl).append front
      · rw [pieces_cons hc, List.mem_cons] at h
        rcases h with h | h
        · cases h
        · exact (ih cs.length (Nat.lt_succ_self _) h rfl).append [c]

/-! ## Room -/

/-- A node that has room where so many more elements may be open. Elements that are complete, `whole`,
are not opened. -/
inductive Fits (whole : Node → Prop) : Nat → Node → Prop
  | text (s : String) (room : Nat) : Fits whole room (.text s)
  | whole {n : Node} (h : whole n) (room : Nat) : Fits whole room n
  | element {name : String} {attributes : List Attribute} {children : List Node} {room : Nat}
      (h : ∀ c ∈ children, Fits whole room c) :
      Fits whole (room + 1) (.element name attributes children)

/-- Open elements, from the inside out, with children that have room in them. -/
def ShallowStack (whole : Node → Prop) : List OpenElement → Prop
  | [] => True
  | e :: outer => (∀ c ∈ e.children, Fits whole (maxDepth - (outer.length + 1)) c) ∧
      ShallowStack whole outer

/-- No more elements are open than may be, and everything has room where it is. -/
structure Builder.Shallow (whole : Node → Prop) (b : Builder) : Prop where
  length_le : b.stack.length ≤ maxDepth
  stack : ShallowStack whole b.stack
  roots : ∀ n ∈ b.roots, Fits whole maxDepth n

namespace Builder.Shallow

variable {whole : Node → Prop} {b : Builder}

/-- Before the first piece nothing is open, and there is nothing in the tree that could be too
deep. -/
theorem start : Shallow whole {} := ⟨Nat.zero_le _, trivial, nofun⟩

/-- A node that has room where it is added keeps the tree in its bounds. -/
theorem add (h : b.Shallow whole) {n : Node} (hn : Fits whole (maxDepth - b.stack.length) n) :
    (b.add n).Shallow whole := by
  obtain ⟨roots, stack, text⟩ := b
  cases stack with
  | nil => exact ⟨h.length_le, trivial, List.forall_mem_cons.2 ⟨hn, h.roots⟩⟩
  | cons top outer =>
    exact ⟨h.length_le, ⟨List.forall_mem_cons.2 ⟨hn, h.stack.1⟩, h.stack.2⟩, h.roots⟩

/-- Text has no children, so it has room wherever an element may still be open. -/
theorem flushText (h : b.Shallow whole) : b.flushText.Shallow whole := by
  unfold Builder.flushText
  split
  next => exact h
  next => exact add (b := { b with text := [] }) ⟨h.length_le, h.stack, h.roots⟩ (.text _ _)

/-- What is closed has room for one level more, where there is one element less around. -/
theorem closeTop (h : b.Shallow whole) : b.closeTop.Shallow whole := by
  obtain ⟨roots, stack, text⟩ := b
  cases stack with
  | nil => exact h
  | cons top outer =>
    have hlength : outer.length + 1 ≤ maxDepth := h.length_le
    have houter : Shallow whole ⟨roots, outer, text⟩ :=
      ⟨Nat.le_of_succ_le hlength, h.stack.2, h.roots⟩
    refine houter.add ?_
    have hroom : maxDepth - outer.length = maxDepth - (outer.length + 1) + 1 := by omega
    show Fits whole (maxDepth - outer.length) top.toNode
    rw [hroom]
    exact .element fun c hc => h.stack.1 c (List.mem_reverse.1 hc)

/-- An element that is closed becomes a child of the one around it, where there is room for one level
more. -/
theorem closeMany (h : b.Shallow whole) (k : Nat) : (b.closeMany k).Shallow whole := by
  induction k generalizing b with
  | zero => exact h
  | succ k ih => exact ih h.closeTop

/-- A close tag closes some of the open elements or none. -/
theorem close (h : b.Shallow whole) (name : String) : (b.close name).Shallow whole := by
  unfold Builder.close
  split
  next => exact h
  next => exact h.closeMany _

/-- One piece keeps the tree in its bounds: an element is opened only while there is room for it, and
is dropped otherwise. -/
theorem step (h : b.Shallow whole) {p : Piece} (hp : ∀ n, p = .whole n → whole n) :
    (b.step p).Shallow whole := by
  cases p with
  | char c => exact ⟨h.length_le, h.stack, h.roots⟩
  | whole n => exact h.flushText.add (.whole (hp n rfl) _)
  | close name => exact h.flushText.close name
  | start name attributes =>
    have hflush := h.flushText
    simp only [Builder.step]
    split
    next => exact hflush
    next hroom =>
      exact ⟨Nat.lt_of_not_le hroom, ⟨List.forall_mem_nil _, hflush.stack⟩, hflush.roots⟩

theorem foldl (h : b.Shallow whole) {ps : List Piece} (hps : ∀ n, .whole n ∈ ps → whole n) :
    (ps.foldl Builder.step b).Shallow whole := by
  induction ps generalizing b with
  | nil => exact h
  | cons p ps ih =>
    refine ih (h.step fun n hn => hps n (hn ▸ List.mem_cons_self)) fun n hn => ?_
    exact hps n (List.mem_cons_of_mem p hn)

/-- What is open at the end is closed, so that the bound holds of the finished tree. -/
theorem finish (h : b.Shallow whole) : ∀ n ∈ b.finish, Fits whole maxDepth n := fun n hn =>
  (h.flushText.closeMany _).roots n (List.mem_reverse.1 hn)

end Builder.Shallow

/-! ## Paths in what has room -/

/-- The elements that stand alone in a text, as its pieces. -/
def WholePiece (cs : List Char) (n : Node) : Prop := .whole n ∈ pieces cs ∧ Alone cs n

/-- In an element that stands alone there is at most a text. -/
theorem Alone.children_eq {cs : List Char} {n : Node} (h : Alone cs n) :
    n.isElement = true ∧ ∀ c ∈ n.children, ∃ s, c = .text s := by
  cases h with
  | empty => exact ⟨rfl, nofun⟩
  | raw here split kind content =>
    refine ⟨rfl, fun c hc => ?_⟩
    change c ∈ textNodes content at hc
    unfold textNodes at hc
    split at hc
    next => cases hc
    next => exact ⟨_, List.mem_singleton.1 hc⟩

/-- What a path through so much room may be. -/
structure WithinRoom (whole : Node → Prop) (room : Nat) (path : List Node) : Prop where
  elements_le : (elements path).length ≤ room + 1
  length_le : path.length ≤ room + 2
  last : (elements path).length = room + 1 → ∃ n, (elements path).getLast? = some n ∧ whole n

theorem WithinRoom.nil (whole : Node → Prop) (room : Nat) : WithinRoom whole room [] :=
  ⟨Nat.zero_le _, Nat.zero_le _, fun h => absurd h (Nat.succ_ne_zero room).symm⟩

/-- A path through an element is one level longer than the path in it. -/
theorem WithinRoom.element {whole : Node → Prop} {room : Nat} {path : List Node}
    (h : WithinRoom whole room path) (name : String) (attributes : List Attribute)
    (children : List Node) :
    WithinRoom whole (room + 1) (.element name attributes children :: path) := by
  have hcons : elements (.element name attributes children :: path) =
      .element name attributes children :: elements path := rfl
  refine ⟨?_, Nat.succ_le_succ h.length_le, fun hfull => ?_⟩
  · rw [hcons]
    exact Nat.succ_le_succ h.elements_le
  · rw [hcons, List.length_cons] at hfull
    obtain ⟨n, hlast, hn⟩ := h.last (Nat.succ.inj hfull)
    refine ⟨n, ?_, hn⟩
    rw [hcons, List.getLast?_cons, hlast]
    rfl

/-- A path with one element, which is complete, and at most a text in it. -/
theorem WithinRoom.alone {whole : Node → Prop} {n : Node} (h : whole n) (room : Nat)
    {path : List Node} (helements : elements path = [n]) (hlength : path.length ≤ 2) :
    WithinRoom whole room path := by
  refine ⟨?_, Nat.le_trans hlength (Nat.le_add_left 2 room), fun _ => ⟨n, ?_, h⟩⟩
  · rw [helements]
    exact Nat.le_add_left 1 room
  · rw [helements]
    rfl

/-- A path through a node that has so much room is within that room, but for an element that stands
alone in the text. -/
theorem Fits.withinRoom {cs : List Char} {room : Nat} {n : Node}
    (h : Fits (WholePiece cs) room n) {path : List Node} (hpath : IsPath Node.children n.children path) :
    WithinRoom (WholePiece cs) room (n :: path) := by
  induction path generalizing room n with
  | nil =>
    cases h with
    | text s room => exact ⟨Nat.zero_le _, by simp, fun h => absurd h (Nat.succ_ne_zero room).symm⟩
    | whole h room =>
      exact .alone h room (List.filter_cons_of_pos h.2.children_eq.1) (Nat.le_succ 1)
    | element h =>
      exact (WithinRoom.nil _ _).element _ _ _
  | cons c path ih =>
    obtain ⟨hc, hpath⟩ := hpath
    cases h with
    | text s room => cases hc
    | whole h room =>
      -- the path ends with the text of a raw text element
      obtain ⟨s, rfl⟩ := h.2.children_eq.2 c hc
      have hend : path = [] := by
        cases path with
        | nil => rfl
        | cons d path => cases hpath.1
      subst hend
      exact .alone h room (List.filter_cons_of_pos h.2.children_eq.1) (Nat.le_refl 2)
    | element h => exact (ih (h c hc) hpath).element _ _ _

/-- A path from a root through what has room. -/
theorem withinRoom_of_isPath {cs : List Char} {room : Nat} {roots path : List Node}
    (hroots : ∀ n ∈ roots, Fits (WholePiece cs) room n) (hpath : IsPath Node.children roots path) :
    WithinRoom (WholePiece cs) room path := by
  cases path with
  | nil => exact .nil _ _
  | cons n path => exact (hroots n hpath.1).withinRoom hpath.2

end AppletHost.Markup

namespace AppletHost.Template

/-- The nodes in a template node. -/
def Node.children : Node → List Node
  | .text _ => []
  | .element _ children => children

/-- The template node is an element. -/
def Node.isElement : Node → Bool
  | .text _ => false
  | .element _ _ => true

theorem compileAll_eq_map (ns : List Markup.Node) : Node.compileAll ns = ns.map Node.compile := by
  induction ns with
  | nil => rfl
  | cons n ns ih => rw [Node.compileAll, ih, List.map_cons]

/-- A compiled node has the compiled children of the node. -/
theorem children_compile (n : Markup.Node) :
    (Node.compile n).children = n.children.map Node.compile := by
  cases n with
  | text s => simp only [Node.compile, Node.children, Markup.Node.children, List.map_nil]
  | element name attributes children =>
    simp only [Node.compile, Node.children, Markup.Node.children, compileAll_eq_map]

theorem isElement_compile (n : Markup.Node) : (Node.compile n).isElement = n.isElement := by
  cases n with
  | text s => simp only [Node.compile, Node.isElement, Markup.Node.isElement]
  | element name attributes children =>
    simp only [Node.compile, Node.isElement, Markup.Node.isElement]

/-- Compiling keeps elements and text apart, so a path has as many elements afterwards as before. -/
theorem filter_isElement_compile (path : List Markup.Node) :
    (path.map Node.compile).filter Node.isElement = (Markup.elements path).map Node.compile := by
  rw [List.filter_map, Markup.elements]
  congr 1
  exact List.filter_congr fun n _ => isElement_compile n

/-- A path in a template is a path in its source. -/
theorem exists_isPath_of_compile {roots : List Markup.Node} {path : List Node}
    (h : Markup.IsPath Node.children (roots.map Node.compile) path) :
    ∃ origin, Markup.IsPath Markup.Node.children roots origin ∧ path = origin.map Node.compile := by
  induction path generalizing roots with
  | nil => exact ⟨[], trivial, rfl⟩
  | cons n path ih =>
    obtain ⟨hn, hpath⟩ := h
    obtain ⟨m, hm, rfl⟩ := List.mem_map.1 hn
    rw [children_compile] at hpath
    obtain ⟨origin, horigin, rfl⟩ := ih hpath
    exact ⟨m :: origin, ⟨hm, horigin⟩, rfl⟩

/-- A path of nodes is a path of their compiled nodes. -/
theorem isPath_compile {roots path : List Markup.Node}
    (h : Markup.IsPath Markup.Node.children roots path) :
    Markup.IsPath Node.children (roots.map Node.compile) (path.map Node.compile) := by
  induction path generalizing roots with
  | nil => trivial
  | cons n path ih =>
    refine ⟨List.mem_map_of_mem h.1, ?_⟩
    rw [children_compile]
    exact ih h.2

end AppletHost.Template

namespace AppletHost.Markup

/-! ## Every text -/

/--
For every text:

* on a path from a root of its tree there are at most `maxDepth + 1` elements, and no node lies deeper
  than one level more. Of `maxDepth + 1` elements the last is a piece of the text by itself: its start tag
  closes itself, or is void, or its content is raw text;
* the same is true of its template, where the last element is what such an element is compiled to;
* at no moment are more than `maxDepth` elements open.
-/
theorem paths_bounded (source : String) :
    (∀ path, IsPath Node.children (parse source) path →
      (elements path).length ≤ maxDepth + 1 ∧ path.length ≤ maxDepth + 2 ∧
      ((elements path).length = maxDepth + 1 → ∃ n, (elements path).getLast? = some n ∧
        .whole n ∈ pieces source.toList ∧ Alone source.toList n)) ∧
    (∀ path, IsPath Template.Node.children (Template.compile source) path →
      (path.filter Template.Node.isElement).length ≤ maxDepth + 1 ∧ path.length ≤ maxDepth + 2 ∧
      ((path.filter Template.Node.isElement).length = maxDepth + 1 →
        ∃ n, (path.filter Template.Node.isElement).getLast? = some (Template.Node.compile n) ∧
          .whole n ∈ pieces source.toList ∧ Alone source.toList n)) ∧
    (∀ read, read <+: pieces source.toList →
      (read.foldl Builder.step {}).stack.length ≤ maxDepth) := by
  have hwhole : ∀ n, .whole n ∈ pieces source.toList → WholePiece source.toList n :=
    fun n hn => ⟨hn, alone_of_mem_pieces hn⟩
  have hpaths : ∀ path, IsPath Node.children (parse source) path →
      WithinRoom (WholePiece source.toList) maxDepth path := fun path =>
    withinRoom_of_isPath (Builder.Shallow.start.foldl hwhole).finish
  refine ⟨fun path hpath => ?_, fun path hpath => ?_, fun read hread => ?_⟩
  · exact ⟨(hpaths path hpath).elements_le, (hpaths path hpath).length_le, (hpaths path hpath).last⟩
  · rw [Template.compile, Template.compileAll_eq_map] at hpath
    obtain ⟨origin, horigin, rfl⟩ := Template.exists_isPath_of_compile hpath
    rw [Template.filter_isElement_compile, List.length_map, List.length_map, List.getLast?_map]
    refine ⟨(hpaths origin horigin).elements_le, (hpaths origin horigin).length_le, fun hfull => ?_⟩
    obtain ⟨n, hlast, hn⟩ := (hpaths origin horigin).last hfull
    exact ⟨n, congrArg (Option.map Template.Node.compile) hlast, hn⟩
  · have hread' : ∀ n, .whole n ∈ read → WholePiece source.toList n :=
      fun n hn => hwhole n (hread.subset hn)
    exact (Builder.Shallow.start.foldl hread').length_le

/-- The path through all views of `views`, and on from there. -/
def viewPath : Nat → (content path : List Node) → List Node
  | 0, _, path => path
  | n + 1, content, path => .element "view" [] (views n content) :: viewPath n content path

/-- A path through the content is a path through the views around it, with all of these in front. -/
theorem isPath_viewPath {content path : List Node} (h : IsPath Node.children content path) (n : Nat) :
    IsPath Node.children (views n content) (viewPath n content path) := by
  induction n with
  | zero => exact h
  | succ n ih => exact ⟨List.mem_cons_self, ih⟩

/-- Each of the views counts as one element more on the path. -/
theorem length_elements_viewPath (n : Nat) (content path : List Node) :
    (elements (viewPath n content path)).length = n + (elements path).length := by
  induction n with
  | zero => exact (Nat.zero_add _).symm
  | succ n ih =>
    rw [viewPath, elements, List.filter_cons_of_pos rfl, List.length_cons, ← elements, ih]
    omega

theorem length_viewPath (n : Nat) (content path : List Node) :
    (viewPath n content path).length = n + path.length := by
  induction n with
  | zero => exact (Nat.zero_add _).symm
  | succ n ih =>
    rw [viewPath, List.length_cons, ih]
    omega

/-- At the bound itself: an element that stands alone is kept at the last level that there is room
for. -/
theorem parse_views_script :
    parse (String.ofList (sources (views 256 [.element "script" [] (textNodes ['x'])]))) =
      views 256 [.element "script" [] (textNodes ['x'])] := by
  have hstays : StaysInside "script" ['x'] := by
    rw [StaysInside]
    decide
  have hnormal : Normal (views 256 [.element "script" [] (textNodes ['x'])]) :=
    normal_views (.raw (by decide) (by simp) hstays .nil) 256
  have hapart : Apart [] (views 256 [.element "script" [] (textNodes ['x'])]) :=
    apart_views (by decide) ⟨Or.inl (by decide), trivial⟩
  rw [parse_sources_eq _ hnormal, ofPieces_tags hnormal (inStep_of_apart hapart rfl).1]
  exact capped_views 256 0 _

/-- A script inside as many views as may be open: the way to its text is as long as one can be, and the
script is the last element on it. -/
theorem paths_bounded_script :
    let content : List Node := [.element "script" [] (textNodes ['x'])]
    let source := String.ofList (sources (views 256 content))
    let path := viewPath 256 content (content ++ textNodes ['x'])
    let compiled := path.map Template.Node.compile
    (IsPath Node.children (parse source) path ∧ path.length = maxDepth + 2 ∧
      (elements path).length = maxDepth + 1 ∧ ∃ n, (elements path).getLast? = some n ∧
        .whole n ∈ pieces source.toList ∧ Alone source.toList n) ∧
    (IsPath Template.Node.children (Template.compile source) compiled ∧
      (compiled.filter Template.Node.isElement).length = maxDepth + 1 ∧
      ∃ n, (compiled.filter Template.Node.isElement).getLast? = some (Template.Node.compile n) ∧
        .whole n ∈ pieces source.toList ∧ Alone source.toList n) ∧
    ((pieces source.toList).foldl Builder.step {}).stack.length ≤ maxDepth := by
  intro content source path compiled
  have hpath : IsPath Node.children (parse source) path := by
    rw [show parse source = views 256 content from parse_views_script]
    have hinner : IsPath Node.children content (content ++ textNodes ['x']) :=
      ⟨List.mem_cons_self, List.mem_cons_self, trivial⟩
    exact isPath_viewPath hinner 256
  have helements : (elements path).length = maxDepth + 1 := length_elements_viewPath 256 _ _
  have hcompiled : IsPath Template.Node.children (Template.compile source) compiled := by
    rw [Template.compile, Template.compileAll_eq_map]
    exact Template.isPath_compile hpath
  have hcount : (compiled.filter Template.Node.isElement).length = maxDepth + 1 := by
    rw [Template.filter_isElement_compile, List.length_map, helements]
  obtain ⟨hparsed, htemplate, hopen⟩ := paths_bounded source
  exact ⟨⟨hpath, length_viewPath 256 _ _, helements, (hparsed path hpath).2.2 helements⟩,
    ⟨hcompiled, hcount, (htemplate compiled hcompiled).2.2 hcount⟩,
    hopen _ List.prefix_rfl⟩

end AppletHost.Markup
