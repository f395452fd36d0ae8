import AppletHost.Proofs.Expr.Scanning
import AppletHost.Proofs.Markup.LeadingText
import AppletHost.Template.Render

/-!
# Expressions in placeholders

A placeholder is read three times before its expression is: the markup scanner looks for tags, the
splitter looks for the braces, and only then comes the scanner of expressions. The first two know
nothing of expressions, so a `<` that might begin a tag is taken for one, and the first closing
braces end the placeholder, inside a string or not. Short of that the expression arrives unharmed:

> `render_embedded`: an accepted expression that holds neither `<` in front of a letter, `/`, `!` or
> `?` nor two closing braces means in a placeholder what it means by itself.
>
> `not_holds_of_compile`: only then is the placeholder compiled as it was written.
-/

namespace AppletHost.Embedding

open Markup (HoldsMarkup pieces leadingText startTag closeTag markup)
open Template (Segment Binding Head consLiteral segments opening closing)

/-! ## The braces around an expression -/

/-- The text holds what ends a placeholder. -/
def HoldsClosing (cs : List Char) : Prop := ∃ before after, cs = before ++ closing ++ after

/-- Braces around a text take no markup away from it. -/
theorem holdsMarkup_braces {cs : List Char} (h : HoldsMarkup cs) :
    HoldsMarkup (opening ++ cs ++ closing) := by
  obtain ⟨before, c, after, rfl, hc⟩ := h
  exact ⟨opening ++ before, c, after ++ closing, by simp, hc⟩

/-- The braces of a placeholder begin no markup, nor does a `<` before them. -/
theorem holdsMarkup_of_braces {cs : List Char} (h : HoldsMarkup (opening ++ cs ++ closing)) :
    HoldsMarkup cs := by
  obtain ⟨before, c, after, heq, hc⟩ : HoldsMarkup (cs ++ closing) :=
    (h.of_cons (by decide)).of_cons (by decide)
  rcases List.append_eq_append_iff.mp heq with ⟨mid, -, hmid⟩ | ⟨mid, hcs, hmid⟩
  · match mid, hmid with
    | [], hmid => cases hmid
    | [_], hmid => cases hmid
    | [_, _], hmid => cases hmid
    | _ :: _ :: _ :: _, hmid => cases hmid
  · match mid, hmid with
    | [], hmid => cases hmid
    | [_], hmid =>
      cases hmid
      exact absurd hc (by decide)
    | _ :: _ :: mid, hmid =>
      cases hmid
      exact ⟨before, c, mid, hcs, hc⟩

/-- A text is broken at once on a word that it begins with. -/
theorem breakOn?_self (word rest : List Char) :
    Text.breakOn? word (word ++ rest) = some ([], rest) := by
  have hhere : Text.startsWith? word (word ++ rest) = some rest :=
    Text.startsWith?_eq_some_iff.mpr rfl
  rw [Text.breakOn?]
  cases hcs : word ++ rest with
  | nil =>
    rw [hcs] at hhere
    rw [Text.breakAt?, hhere]
    rfl
  | cons c cs =>
    rw [hcs] at hhere
    rw [Text.breakAt?, hhere]

/-- The first place of a word is no later than any other. -/
theorem exists_breakOn?_append (before word after : List Char) :
    ∃ first rest, Text.breakOn? word (before ++ word ++ after) = some (first, rest) ∧
      first.length ≤ before.length := by
  induction before with
  | nil => exact ⟨[], after, breakOn?_self word after, Nat.le_refl _⟩
  | cons c before ih =>
    obtain ⟨first, rest, hbreak, hle⟩ := ih
    rw [List.cons_append, List.cons_append, Text.breakOn?, Text.breakAt?]
    split
    next rest hstarts => exact ⟨[], rest, rfl, Nat.zero_le _⟩
    next =>
      rw [Text.breakOn?] at hbreak
      exact ⟨c :: first, rest, by rw [hbreak]; rfl, Nat.succ_le_succ hle⟩

/-- A text holds the closing braces if the search for them finds any. -/
theorem holdsClosing_iff {cs : List Char} :
    HoldsClosing cs ↔ (Text.breakOn? closing cs).isSome := by
  constructor
  · rintro ⟨before, after, rfl⟩
    obtain ⟨first, rest, hbreak, -⟩ := exists_breakOn?_append before closing after
    rw [hbreak]
    rfl
  · intro hsome
    obtain ⟨⟨before, after⟩, hbreak⟩ := Option.isSome_iff_exists.mp hsome
    exact ⟨before, after, Text.breakOn?_append hbreak⟩

instance (cs : List Char) : Decidable (HoldsClosing cs) := decidable_of_iff _ holdsClosing_iff.symm

/-- A text is broken at the end of what holds no start of the word. -/
theorem breakOn?_first {word cs rest : List Char}
    (h : ∀ front back, cs = front ++ back → back ≠ [] →
      Text.startsWith? word (back ++ word ++ rest) = none) :
    Text.breakOn? word (cs ++ word ++ rest) = some (cs, rest) := by
  induction cs with
  | nil => exact breakOn?_self word rest
  | cons c cs ih =>
    have hnone := h [] (c :: cs) rfl (List.cons_ne_nil c cs)
    have htail := ih fun front back hcs hne => h (c :: front) back (by rw [hcs]; rfl) hne
    rw [List.cons_append, List.cons_append] at hnone ⊢
    rw [Text.breakOn?, Text.breakAt?, hnone]
    rw [Text.breakOn?] at htail
    rw [htail]
    rfl

/-- Nothing before the opening braces, nothing behind the first closing ones. -/
theorem segments_placeholder {cs : List Char} (hclosing : ¬ HoldsClosing cs)
    (hlast : cs.getLast? ≠ some '\x7d') (hblank : ¬ Text.allBlank cs) :
    segments (opening ++ cs ++ closing) = [.binding (Binding.compile cs)] := by
  have hopen : Text.breakOn? opening (opening ++ cs ++ closing) = some ([], cs ++ closing) := by
    rw [List.append_assoc]
    rfl
  have hclose : Text.breakOn? closing (cs ++ closing) = some (cs, []) := by
    have hfirst : ∀ front back, cs = front ++ back → back ≠ [] →
        Text.startsWith? closing (back ++ closing ++ []) = none := by
      intro front back hcs hne
      rw [← Option.not_isSome_iff_eq_none, Option.isSome_iff_exists]
      rintro ⟨rest, hrest⟩
      rw [Text.startsWith?_eq_some_iff, List.append_nil] at hrest
      -- the braces would stand inside, or the first of them would be the last character
      match back, hne with
      | [b], _ =>
        obtain ⟨rfl, -⟩ := List.cons.inj hrest
        exact hlast (by rw [hcs]; simp)
      | b :: b' :: back, _ =>
        obtain ⟨rfl, htail⟩ := List.cons.inj hrest
        obtain ⟨rfl, -⟩ := List.cons.inj htail
        exact hclosing ⟨front, back, by rw [hcs]; simp [closing]⟩
    simpa using breakOn?_first hfirst
  have hnil : segments [] = [] := by cbv
  rw [segments]
  split
  next hnone => cases hopen.symm.trans hnone
  next hsome =>
    cases hopen.symm.trans hsome
    split
    next hnone => cases hclose.symm.trans hnone
    next hsome =>
      cases hclose.symm.trans hsome
      rw [if_neg hblank, hnil]
      rfl

/-! ## The rendered placeholder -/

/-- The template of a `view` whose only content is the placeholder of an expression. -/
def around (source : String) : String := "<view>\x7b\x7b" ++ source ++ "\x7d\x7d</view>"

/-- The template around a source is one element with the source in braces. -/
theorem toList_around (source : String) :
    (around source).toList = markup (opening ++ source.toList ++ closing) := by
  simp [around, markup, startTag, closeTag, opening, closing]

/-- What such a template ought to be compiled to. -/
def placeholder (source : String) : List Template.Node :=
  [.element (Head.compile "view" []) [.text [.binding (Binding.compile source.toList)]]]

/-- A source that parses, without markup and closing braces in it, is compiled to its placeholder and
nothing else. -/
theorem compile_around {source : String} {e : Expr} (h : Expr.parse source = .ok e)
    (hmarkup : ¬ HoldsMarkup source.toList) (hclosing : ¬ HoldsClosing source.toList) :
    Template.compile (around source) = placeholder source := by
  obtain ⟨ts, hts, -⟩ := Grammar.parse_eq_ok_iff.mp h
  have hlast := Scanning.getLast?_of_scanFrom hts
  have hblank := Scanning.not_allBlank_of_parse h
  have hmarkup' : ¬ HoldsMarkup (opening ++ source.toList ++ closing) := fun hholds =>
    hmarkup (holdsMarkup_of_braces hholds)
  rw [Template.compile, Markup.parse, toList_around, Markup.pieces_markup hmarkup',
    Markup.ofPieces_view (by simp [opening])]
  simp only [Template.Node.compileAll, Template.Node.compile, String.toList_ofList,
    segments_placeholder hclosing hlast hblank, placeholder]

/-- An accepted expression with neither markup nor closing braces in it means in a placeholder what
it means by itself. -/
theorem render_embedded (source : String) (e : Expr) (data : Value)
    (h : Expr.parse source = .ok e) (hmarkup : ¬ HoldsMarkup source.toList)
    (hclosing : ¬ HoldsClosing source.toList) :
    Template.render (Template.compile (around source)) data =
      "<div>" ++ Value.display (e.evaluate data) ++ "</div>" := by
  have hbinding : (Binding.compile source.toList).expr = some e := by
    rw [Binding.compile, Scanning.parse_trim h]
    rfl
  rw [compile_around h hmarkup hclosing]
  refine String.toList_inj.mp ?_
  simp [Template.render, placeholder, Template.Node.renderAll, Template.Node.render, Head.compile,
    Head.scopes, Head.shows, Head.renderStart, Head.renderInside, Head.renderClose, Head.isVoid,
    Template.outputTag, Template.voidTags, Template.renderSegments, Segment.render, Binding.eval,
    hbinding, Expr.evaluate]

/-! ## When the expression arrives -/

theorem consLiteral_eq_nil {text : List Char} {ss : List Segment} (h : consLiteral text ss = []) :
    text = [] ∧ ss = [] := by
  unfold consLiteral at h
  split at h
  next htext => exact ⟨htext, h⟩
  next => split at h <;> cases h

theorem consLiteral_eq_binding {text : List Char} {ss : List Segment} {b : Binding}
    (h : consLiteral text ss = [.binding b]) : text = [] ∧ ss = [.binding b] := by
  unfold consLiteral at h
  split at h
  next htext => exact ⟨htext, h⟩
  next => split at h <;> cases h

/-- No text but the empty one splits into nothing. -/
theorem segments_eq_nil {cs : List Char} (h : segments cs = []) : cs = [] := by
  rw [segments] at h
  split at h
  next => exact (consLiteral_eq_nil h).1
  next before afterOpen hopen =>
    split at h
    next => exact (consLiteral_eq_nil h).1
    next =>
      split at h
      next => exact absurd (consLiteral_eq_nil h).1 (by simp [opening])
      next => cases (consLiteral_eq_nil h).2

/-- A single placeholder is a text between the braces, up to the first closing ones. -/
theorem segments_eq_binding {cs : List Char} {b : Binding} (h : segments cs = [.binding b]) :
    ∃ inner, cs = opening ++ inner ++ closing ∧ b = Binding.compile inner ∧
      Text.breakOn? closing (inner ++ closing) = some (inner, []) := by
  rw [segments] at h
  split at h
  next => cases (consLiteral_eq_binding h).2
  next before afterOpen hopen =>
    split at h
    next => cases (consLiteral_eq_binding h).2
    next inner rest hclose =>
      split at h
      next => exact absurd (consLiteral_eq_binding h).1 (by simp [opening])
      next =>
        obtain ⟨rfl, hss⟩ := consLiteral_eq_binding h
        obtain ⟨hb, hrest⟩ := List.cons.inj hss
        obtain rfl := segments_eq_nil hrest
        have hinner := Text.breakOn?_append hclose
        rw [List.append_nil] at hinner
        subst hinner
        refine ⟨inner, ?_, (Segment.binding.inj hb).symm, hclose⟩
        simpa using Text.breakOn?_append hopen

theorem compileAll_eq_nil {ns : List Markup.Node} (h : Template.Node.compileAll ns = []) :
    ns = [] := by
  cases ns with
  | nil => rfl
  | cons n ns => cases h

/-- A template that is compiled to one placeholder is one element around one text, which splits into
that binding. -/
theorem compileAll_eq_placeholder {ns : List Markup.Node} {head : Head} {b : Binding}
    (h : Template.Node.compileAll ns = [.element head [.text [.binding b]]]) :
    ∃ name attributes text, ns = [.element name attributes [.text text]] ∧
      segments text.toList = [.binding b] := by
  match ns with
  | [] => cases h
  | .text s :: ns => cases (List.cons.inj h).1
  | .element name attributes children :: ns =>
    obtain ⟨hnode, hns⟩ := List.cons.inj h
    obtain rfl := compileAll_eq_nil hns
    obtain ⟨-, hchildren⟩ := Template.Node.element.inj hnode
    match children with
    | [] => cases hchildren
    | .element _ _ _ :: _ => cases (List.cons.inj hchildren).1
    | .text text :: children =>
      obtain ⟨htext, hnone⟩ := List.cons.inj hchildren
      obtain rfl := compileAll_eq_nil hnone
      exact ⟨name, attributes, text, rfl, Template.Node.text.inj htext⟩

/-- Blanks are no `<`. -/
theorem count_trim (cs : List Char) : (Text.trim cs).count '<' = cs.count '<' := by
  have hnone : ∀ blanks : List Char, (∀ c ∈ blanks, Text.isBlank c) → blanks.count '<' = 0 :=
    fun blanks hblanks => List.count_eq_zero.mpr fun hmem => absurd (hblanks _ hmem) (by decide)
  obtain ⟨back, hback, hblanks⟩ := Scanning.exists_trimRight_append (Text.trimLeft cs)
  have hleft : (Text.trimLeft cs).count '<' = (Text.trim cs).count '<' := by
    conv_lhs => rw [hback]
    rw [List.count_append, hnone back hblanks]
    rfl
  have hcs : cs.count '<' = (Text.trimLeft cs).count '<' := by
    conv_lhs => rw [← List.takeWhile_append_dropWhile (p := Text.isBlank) (l := cs)]
    rw [List.count_append, hnone _ fun c hc => List.mem_takeWhile_imp hc, Nat.zero_add]
    rfl
  exact hleft.symm.trans hcs.symm

/-- If the template is compiled to the placeholder, the text it begins with is some expression in
braces, which is the same binding. -/
theorem leadingText_of_compile {source : String}
    (h : Template.compile (around source) = placeholder source) :
    ∃ inner, leadingText (pieces (opening ++ source.toList ++ closing ++ '<' :: closeTag)) =
        opening ++ inner ++ closing ∧
      Binding.compile source.toList = Binding.compile inner ∧
      Text.breakOn? closing (inner ++ closing) = some (inner, []) := by
  obtain ⟨name, attributes, text, hroots, hsegments⟩ := compileAll_eq_placeholder h
  obtain ⟨inner, htext, hbinding, hclose⟩ := segments_eq_binding hsegments
  have hpieces : pieces (around source).toList = .start "view" [] ::
      pieces (opening ++ source.toList ++ closing ++ '<' :: closeTag) := by
    rw [toList_around, markup, Markup.pieces_startTag]
  have hne :
      leadingText (pieces (opening ++ source.toList ++ closing ++ '<' :: closeTag)) ≠ [] := by
    rw [opening, List.cons_append, List.cons_append, List.cons_append,
      Markup.pieces_cons (by decide)]
    exact List.cons_ne_nil _ _
  obtain ⟨name', attributes', nodes, roots, hroots'⟩ := Markup.ofPieces_leadingText "view" [] hne
  rw [← hpieces, ← Markup.parse, hroots] at hroots'
  obtain ⟨hroot, -⟩ := List.cons.inj hroots'
  obtain ⟨-, -, hnodes⟩ := Markup.Node.element.inj hroot
  obtain ⟨hnode, -⟩ := List.cons.inj hnodes
  refine ⟨inner, ?_, hbinding, hclose⟩
  rw [← htext, Markup.Node.text.inj hnode, String.toList_ofList]

/-- What the text between the tags becomes is the placeholder only if nothing in it is taken for
markup, and nothing for the end of the placeholder. -/
theorem not_holds_of_compile {source : String}
    (h : Template.compile (around source) = placeholder source) :
    ¬ HoldsMarkup source.toList ∧ ¬ HoldsClosing source.toList := by
  obtain ⟨inner, hlead, hbinding, hclose⟩ := leadingText_of_compile h
  -- blanks apart, the binding still has the whole source, and with it every `<`
  have hcount : inner.count '<' = source.toList.count '<' := by
    have htrim : Text.trim source.toList = Text.trim inner :=
      String.ofList_injective (congrArg Binding.source hbinding)
    rw [← count_trim inner, ← htrim, count_trim]
  have hmarkup : ¬ HoldsMarkup (opening ++ source.toList ++ closing) := by
    intro hholds
    rcases Markup.leftOf_leadingText (opening ++ source.toList ++ closing) with hlast | ⟨-, hlt⟩
    · rw [hlead, List.getLast?_append] at hlast
      exact absurd hlast (by simp [closing])
    · have hlt' := hlt hholds
      rw [hlead] at hlt'
      simp only [List.count_append, hcount] at hlt'
      omega
  have hinner : inner = source.toList := by
    rw [Markup.pieces_text hmarkup, Markup.pieces_closeTag,
      Markup.leadingText_map_append] at hlead
    simpa [leadingText] using hlead.symm
  refine ⟨fun hholds => hmarkup (holdsMarkup_braces hholds), ?_⟩
  rintro ⟨before, after, hsource⟩
  rw [hinner, hsource, List.append_assoc] at hclose
  obtain ⟨first, rest, hfirst, hle⟩ := exists_breakOn?_append before closing (after ++ closing)
  cases hclose.symm.trans hfirst
  simp only [closing, List.length_append, List.length_cons] at hle
  omega

/-! ## Embedded expressions -/

/-- An accepted expression with neither markup nor closing braces in it means in a placeholder what
it means by itself, and no other is alone in the element as the placeholder that was written. -/
theorem expression_embedded (source : String) (e : Expr) (h : Expr.parse source = .ok e) :
    (¬ HoldsMarkup source.toList → ¬ HoldsClosing source.toList → ∀ data : Value,
      Template.render (Template.compile (around source)) data =
        "<div>" ++ Value.display (e.evaluate data) ++ "</div>") ∧
    (Template.compile (around source) = placeholder source ↔
      ¬ HoldsMarkup source.toList ∧ ¬ HoldsClosing source.toList) := by
  refine ⟨fun hmarkup hclosing data => render_embedded source e data h hmarkup hclosing, ?_, ?_⟩
  · exact not_holds_of_compile
  · exact fun ⟨hmarkup, hclosing⟩ => compile_around h hmarkup hclosing

/-- With a blank behind the `<` a comparison is no markup. -/
theorem comparison_embedded :
    Expr.parse "a < b" = .ok (.binary .lt (.ident "a") (.ident "b")) ∧
      Template.render (Template.compile (around "a < b"))
        (.obj [("a", .str "x"), ("b", .str "y")]) = "<div>true</div>" := by
  have hparse : Expr.parse "a < b" = .ok (.binary .lt (.ident "a") (.ident "b")) := by cbv
  have hrender := (expression_embedded "a < b" _ hparse).1 (by decide) (by decide)
    (.obj [("a", .str "x"), ("b", .str "y")])
  exact ⟨hparse, hrender.trans (by decide +kernel)⟩

/-- Without the blank it is the start tag of an element, and the placeholder never ends. -/
theorem comparison_taken_for_tag :
    ¬ ∀ (source : String) (e : Expr) (data : Value), Expr.parse source = .ok e →
      Template.render (Template.compile (around source)) data =
        "<div>" ++ Value.display (e.evaluate data) ++ "</div>" := by
  intro hall
  let data : Value := .obj [("a", .str "x"), ("b", .str "y")]
  have hparse : Expr.parse "a<b" = .ok (.binary .lt (.ident "a") (.ident "b")) := by cbv
  have hrender : Template.render (Template.compile (around "a<b")) data =
      "<div>\x7b\x7ba<b\x7d\x7d</view></b\x7d\x7d</view></div>" := by decide +kernel
  have htrue : "<div>" ++
      Value.display ((Expr.binary .lt (.ident "a") (.ident "b")).evaluate data) ++ "</div>" =
        "<div>true</div>" := by decide +kernel
  have hequal := hrender.symm.trans ((hall "a<b" _ data hparse).trans htrue)
  exact absurd hequal (by decide)

end AppletHost.Embedding
