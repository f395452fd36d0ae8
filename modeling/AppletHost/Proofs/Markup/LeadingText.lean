import AppletHost.Markup.Tree
import Mathlib

/-!
# The text that markup begins with

The text at the front of an element is what the pieces begin with, and goes into the tree as the
first child. A text is taken for what it is as long as none of its `<` begins a tag, a comment or
the like (`pieces_text`). Once one of them does, the text is cut short, and what remains of it has
fewer `<` than were written (`leftOf_leadingText`): nothing brings one back.
-/

namespace AppletHost.Markup

/-! ## Texts without markup -/

/-- With this character behind it, a `<` is no text. -/
def StartsMarkup (c : Char) : Prop := c.isAlpha ∨ c = '/' ∨ c = '!' ∨ c = '?'

instance (c : Char) : Decidable (StartsMarkup c) := inferInstanceAs (Decidable (_ ∨ _))

/-- The text holds something that begins a tag, a comment or the like. -/
def HoldsMarkup (cs : List Char) : Prop :=
  ∃ before c after, cs = before ++ '<' :: c :: after ∧ StartsMarkup c

theorem not_holdsMarkup_nil : ¬ HoldsMarkup [] := by
  rintro ⟨before, c, after, heq, -⟩
  cases before <;> cases heq

/-- A text holds markup where it starts, or further on. -/
theorem holdsMarkup_cons {c : Char} {cs : List Char} :
    HoldsMarkup (c :: cs) ↔ (c = '<' ∧ ∃ d ∈ cs.head?, StartsMarkup d) ∨ HoldsMarkup cs := by
  constructor
  · rintro ⟨before, d, after, heq, hd⟩
    cases before with
    | nil =>
      cases heq
      exact Or.inl ⟨rfl, d, rfl, hd⟩
    | cons b before => exact Or.inr ⟨before, d, after, (List.cons.inj heq).2, hd⟩
  · rintro (⟨rfl, d, hd, hstarts⟩ | ⟨before, d, after, rfl, hd⟩)
    · obtain ⟨after, rfl⟩ := List.head?_eq_some_iff.mp hd
      exact ⟨[], d, after, rfl, hstarts⟩
    · exact ⟨c :: before, d, after, rfl, hd⟩

instance decidableHoldsMarkup : (cs : List Char) → Decidable (HoldsMarkup cs)
  | [] => isFalse not_holdsMarkup_nil
  | _ :: cs =>
    have := decidableHoldsMarkup cs
    -- found by itself, the instance for the next character would try all characters there are
    have := Option.decidableExistsMem (p := StartsMarkup) cs.head?
    decidable_of_iff _ holdsMarkup_cons.symm

/-- Characters in front do not hide the markup that follows. -/
theorem HoldsMarkup.cons {cs : List Char} (h : HoldsMarkup cs) (c : Char) : HoldsMarkup (c :: cs) :=
  holdsMarkup_cons.mpr (Or.inr h)

/-- A character that is not an angle bracket has no part in the markup behind it. -/
theorem HoldsMarkup.of_cons {c : Char} (hc : c ≠ '<') {cs : List Char}
    (h : HoldsMarkup (c :: cs)) : HoldsMarkup cs :=
  (holdsMarkup_cons.mp h).resolve_left fun hlt => hc hlt.1

/-- An angle bracket before anything that starts no markup is text like any other character. -/
theorem pieceAt_text {c : Char} (h : ¬ StartsMarkup c) (cs : List Char) :
    pieceAt (c :: cs) = oneChar '<' (c :: cs) := by
  simp only [StartsMarkup, not_or] at h
  obtain ⟨halpha, hslash, hbang, hquestion⟩ := h
  rw [Markup.pieceAt.eq_5 c cs (fun _ h _ => hbang h) hbang hquestion hslash, if_neg halpha]

/-- Characters other than the bracket are pieces of their own, one by one. -/
theorem pieces_cons {c : Char} (h : c ≠ '<') (cs : List Char) :
    pieces (c :: cs) = .char c :: pieces cs := by
  rw [pieces]
  exact h

theorem pieces_lt {c : Char} (h : ¬ StartsMarkup c) (cs : List Char) :
    pieces ('<' :: c :: cs) = .char '<' :: pieces (c :: cs) := by
  rw [pieces, pieceAt_text h]
  rfl

/-- A text without markup is characters, up to where a `<` follows. -/
theorem pieces_text {cs : List Char} (h : ¬ HoldsMarkup cs) (rest : List Char) :
    pieces (cs ++ '<' :: rest) = cs.map Piece.char ++ pieces ('<' :: rest) := by
  induction cs with
  | nil => rfl
  | cons c cs ih =>
    have htail := ih fun hcs => h (hcs.cons c)
    by_cases hc : c = '<'
    · subst hc
      cases cs with
      | nil =>
        show pieces ('<' :: '<' :: rest) = _
        rw [pieces_lt (by decide)]
        rfl
      | cons d cs =>
        have hd : ¬ StartsMarkup d := fun hd => h ⟨[], d, cs, rfl, hd⟩
        rw [List.cons_append, List.cons_append, pieces_lt hd, ← List.cons_append, htail]
        rfl
    · rw [List.cons_append, pieces_cons hc, htail]
      rfl

/-! ## A text inside an element -/

/-- The start tag of the template, without its `<`. -/
def startTag : List Char := ['v', 'i', 'e', 'w', '>']

/-- The close tag of the template, without its `<`. -/
def closeTag : List Char := ['/', 'v', 'i', 'e', 'w', '>']

/-- The markup of a `view` around a text. -/
def markup (cs : List Char) : List Char := '<' :: (startTag ++ (cs ++ '<' :: closeTag))

theorem pieces_startTag (cs : List Char) :
    pieces ('<' :: (startTag ++ cs)) = .start "view" [] :: pieces cs := by
  have hend : tagEnd? none (startTag ++ cs) = some (['v', 'i', 'e', 'w'], cs) := rfl
  have hpiece : startPiece ['v', 'i', 'e', 'w'] cs = (.start "view" [], cs) := by cbv
  have htaken : (pieceAt (startTag ++ cs)).value = [.start "view" []] ∧
      (pieceAt (startTag ++ cs)).rest = cs := by
    rw [startTag, List.cons_append, Markup.pieceAt.eq_5 _ _ (by simp) (by decide) (by decide)
      (by decide), if_pos (by decide)]
    split
    next hnone => cases hend.symm.trans hnone
    next hsome =>
      cases hend.symm.trans hsome
      exact ⟨congrArg (fun x => [x.1]) hpiece, congrArg Prod.snd hpiece⟩
  rw [Markup.pieces.eq_2, htaken.1, htaken.2]
  rfl

theorem pieces_closeTag : pieces ('<' :: closeTag) = [.close "view"] := by
  cbv

/-- The pieces of a `view` around a text without markup. -/
theorem pieces_markup {cs : List Char} (h : ¬ HoldsMarkup cs) :
    pieces (markup cs) = .start "view" [] :: (cs.map Piece.char ++ [.close "view"]) := by
  rw [markup, pieces_startTag, pieces_text h, pieces_closeTag]

/-- Characters gather, in reverse, before the text that waits already. -/
theorem foldl_step_char (cs : List Char) (b : Builder) :
    (cs.map Piece.char).foldl Builder.step b = { b with text := cs.reverse ++ b.text } := by
  induction cs generalizing b with
  | nil => rfl
  | cons c cs ih =>
    rw [List.map_cons, List.foldl_cons, ih]
    simp [Builder.step]

/-- The tree of a `view` around a text. -/
theorem ofPieces_view {cs : List Char} (h : cs ≠ []) :
    ofPieces (.start "view" [] :: (cs.map Piece.char ++ [.close "view"])) =
      [.element "view" [] [.text (String.ofList cs)]] := by
  have hne : cs.reverse ≠ [] := by simpa using h
  rw [ofPieces, List.foldl_cons, List.foldl_append, foldl_step_char]
  simp [Builder.step, Builder.flushText, Builder.add, Builder.close, Builder.closeMany,
    Builder.closeTop, Builder.finish, OpenElement.toNode, maxDepth, h,
    List.findIdx?_cons]

/-! ## What else becomes of a text -/

/-- The text that the pieces begin with. -/
def leadingText : List Piece → List Char
  | .char c :: ps => c :: leadingText ps
  | _ => []

/-- Leading text goes on through characters, up to the first piece that is none. -/
theorem leadingText_map_append (cs : List Char) (ps : List Piece) :
    leadingText (cs.map Piece.char ++ ps) = cs ++ leadingText ps := by
  induction cs with
  | nil => rfl
  | cons c cs ih => rw [List.map_cons, List.cons_append, leadingText, ih, List.cons_append]

theorem leadingText_map (cs : List Char) : leadingText (cs.map Piece.char) = cs := by
  simpa [leadingText] using leadingText_map_append cs []

/-- A text without brackets comes out as its characters, whatever follows it. -/
theorem pieces_append_of_no_lt {cs : List Char} (h : '<' ∉ cs) (rest : List Char) :
    pieces (cs ++ rest) = asText cs ++ pieces rest := by
  induction cs with
  | nil => rfl
  | cons c cs ih =>
    obtain ⟨hc, hcs⟩ := not_or.mp fun hmem => h (List.mem_cons.mpr hmem)
    rw [List.cons_append, pieces_cons (Ne.symm hc), ih hcs]
    rfl

theorem pieces_of_no_lt {cs : List Char} (h : '<' ∉ cs) : pieces cs = cs.map Piece.char := by
  have hpieces := pieces_append_of_no_lt h []
  rwa [pieces, List.append_nil, List.append_nil] at hpieces

/-- What is skipped leaves no piece behind, and what is read after it is the rest of the text. -/
theorem skipPast_cases (word : List Char) (c : Char) (cs : List Char) :
    (skipPast word c cs).value = [] ∧
      ∃ front, cs = front ++ (skipPast word c cs).rest := by
  unfold skipPast
  split
  next => exact ⟨rfl, cs, (List.append_nil cs).symm⟩
  next before rest h =>
    exact ⟨rfl, before ++ word, Text.breakOn?_append h⟩

/-- A `<` and what follows it became one piece that is no text, or all of it is text, or something
at the front was skipped. -/
def Disposes (cs : List Char) (taken : Text.Taken (List Piece) ('<' :: cs)) : Prop :=
  (∃ p, taken.value = [p] ∧ leadingText [p] = []) ∨
    (taken.value = asText ('<' :: cs) ∧ taken.rest = []) ∨
    (taken.value = [] ∧ ∃ front, cs = front ++ taken.rest)

/-- Where markup starts, one piece disposes of it: it becomes a tag, or it is passed over without a
trace. -/
theorem disposes_pieceAt (cs : List Char) :
    (∃ c ∈ cs.head?, StartsMarkup c) → Disposes cs (pieceAt cs) := by
  refine Markup.pieceAt.fun_cases_unfolding
    (motive := fun cs taken => (∃ c ∈ cs.head?, StartsMarkup c) → Disposes cs taken)
    ?comment ?declaration ?instruction ?openClose ?close ?openStart ?start ?text ?last cs
  case comment =>
    intro rest _
    obtain ⟨hvalue, front, hfront⟩ := skipPast_cases "-->".toList '!' ('-' :: '-' :: rest)
    exact Or.inr (Or.inr ⟨hvalue, '!' :: front, congrArg ('!' :: ·) hfront⟩)
  case declaration => exact fun rest _ _ => Or.inr (Or.inr (skipPast_cases _ _ _))
  case instruction => exact fun rest _ => Or.inr (Or.inr (skipPast_cases _ _ _))
  case openClose => exact fun rest _ _ => Or.inr (Or.inl ⟨rfl, rfl⟩)
  case close => exact fun rest name after _ _ => Or.inl ⟨_, rfl, rfl⟩
  case openStart => exact fun c rest _ _ _ _ _ _ _ => Or.inr (Or.inl ⟨rfl, rfl⟩)
  case start =>
    intro c rest _ _ _ _ _ inside after _ _
    refine Or.inl ⟨_, rfl, ?_⟩
    unfold startPiece
    dsimp only
    split
    · rfl
    · split
      · rfl
      · rfl
  case text =>
    rintro c rest _ hbang hquestion hslash halpha ⟨d, hd, hstarts⟩
    cases hd
    rcases hstarts with hstarts | hstarts | hstarts | hstarts
    · exact absurd hstarts halpha
    · exact absurd hstarts hslash
    · exact absurd hstarts hbang
    · exact absurd hstarts hquestion
  case last =>
    rintro ⟨d, hd, -⟩
    cases hd

/-- `text` runs to the end of a source, which is the end of a tag; or it has no more `<` than there
are in `cs`, and fewer if there is markup in `cs`. -/
def LeftOf (cs text : List Char) : Prop :=
  text.getLast? = some '>' ∨
    (text.count '<' ≤ cs.count '<' ∧ (HoldsMarkup cs → text.count '<' < cs.count '<'))

/-- What is left of a text, with a character more in front that is not lost either. -/
theorem LeftOf.cons {cs text : List Char} {c : Char} (h : LeftOf cs text)
    (hmarkup : HoldsMarkup (c :: cs) → HoldsMarkup cs) : LeftOf (c :: cs) (c :: text) := by
  rcases h with hlast | ⟨hle, hlt⟩
  · refine Or.inl ?_
    rw [List.getLast?_cons, hlast]
    rfl
  · refine Or.inr ⟨?_, fun hholds => ?_⟩
    · rw [List.count_cons, List.count_cons]
      omega
    · have := hlt (hmarkup hholds)
      rw [List.count_cons, List.count_cons]
      omega

/-- What is left of less than the text behind a `<`. -/
theorem LeftOf.of_skip {cs text : List Char} (h : text.getLast? = some '>' ∨
    text.count '<' ≤ cs.count '<') : LeftOf ('<' :: cs) text := by
  rcases h with hlast | hle
  · exact Or.inl hlast
  · have hcount : ('<' :: cs).count '<' = cs.count '<' + 1 := List.count_cons_self
    exact Or.inr ⟨by omega, fun _ => by omega⟩

/-- The text that a source ending with a close tag begins with. -/
theorem leftOf_leadingText (cs : List Char) :
    LeftOf cs (leadingText (pieces (cs ++ '<' :: closeTag))) := by
  -- behind a comment the text goes on somewhere further on, so the induction is on the length
  induction hlen : cs.length using Nat.strongRecOn generalizing cs with
  | ind n ih =>
    subst hlen
    cases cs with
    | nil =>
      rw [List.nil_append, pieces_closeTag]
      exact Or.inr ⟨Nat.le_refl _, fun hholds => absurd hholds not_holdsMarkup_nil⟩
    | cons c cs =>
      have htail := ih cs.length (Nat.lt_succ_self _) cs rfl
      by_cases hc : c = '<'
      · subst hc
        by_cases hstarts : ∃ d ∈ (cs ++ '<' :: closeTag).head?, StartsMarkup d
        · rw [List.cons_append, Markup.pieces.eq_2]
          rcases disposes_pieceAt _ hstarts with
            ⟨p, hvalue, hp⟩ | ⟨hvalue, hrest⟩ | ⟨hvalue, front, hfront⟩
          · have hlead : ∀ ps, leadingText ([p] ++ ps) = [] := by
              intro ps
              cases p <;> first | rfl | cases hp
            rw [hvalue, hlead]
            exact .of_skip (Or.inr (Nat.zero_le _))
          · refine Or.inl ?_
            rw [hvalue, hrest, pieces, List.append_nil, asText, leadingText_map,
              ← List.cons_append, List.getLast?_append]
            rfl
          · rw [hvalue, List.nil_append]
            refine .of_skip ?_
            -- what was skipped ends inside `cs`, or inside the close tag
            rcases List.append_eq_append_iff.mp hfront with ⟨mid, -, hmid⟩ | ⟨mid, hcs, hmid⟩
            · refine Or.inr ?_
              cases mid with
              | nil =>
                rw [← List.nil_append (pieceAt _).rest, ← hmid, pieces_closeTag]
                exact Nat.zero_le _
              | cons x mid =>
                have hclose : closeTag = mid ++ (pieceAt (cs ++ '<' :: closeTag)).rest :=
                  (List.cons.inj hmid).2
                have hnone : '<' ∉ (pieceAt (cs ++ '<' :: closeTag)).rest := fun hmem =>
                  absurd (hclose ▸ List.mem_append_right mid hmem : '<' ∈ closeTag) (by decide)
                rw [pieces_of_no_lt hnone, leadingText_map, List.count_eq_zero.mpr hnone]
                exact Nat.zero_le _
            · have hlt : mid.length < cs.length + 1 := by
                rw [hcs, List.length_append]
                omega
              rw [hmid]
              refine (ih mid.length hlt mid rfl).imp id fun hmid' => Nat.le_trans hmid'.1 ?_
              rw [hcs, List.count_append]
              omega
        · obtain ⟨d, ds, hds⟩ : ∃ d ds, cs ++ '<' :: closeTag = d :: ds :=
            List.exists_cons_of_ne_nil (by simp)
          have hd : ¬ StartsMarkup d := fun hd => hstarts ⟨d, by rw [hds]; rfl, hd⟩
          rw [List.cons_append, hds, pieces_lt hd, leadingText, ← hds]
          refine htail.cons fun hholds => (holdsMarkup_cons.mp hholds).resolve_left ?_
          rintro ⟨-, e, he, hstarts'⟩
          refine hstarts ⟨e, ?_, hstarts'⟩
          rw [List.head?_append, he]
          rfl
      · rw [List.cons_append, pieces_cons hc, leadingText]
        exact htail.cons (HoldsMarkup.of_cons hc)

/-! ## The text as a node -/

/-- The first node inside the first element is there to stay: the element is still open, and then
it is the outermost one, or it is the first root. -/
def Begun (node : Node) (b : Builder) : Prop :=
  (∃ inner e, b.stack = inner ++ [e] ∧ b.roots = [] ∧ e.children.getLast? = some node) ∨
    ∃ name attributes nodes, b.roots.getLast? = some (.element name attributes (node :: nodes))

theorem getLast?_cons_of_eq_some {α : Type} {x last : α} {xs : List α}
    (h : xs.getLast? = some last) : (x :: xs).getLast? = some last := by
  rw [List.getLast?_cons, h]
  rfl

namespace Begun

variable {node : Node} {b : Builder}

/-- A node that is added comes behind the first one, which stays first. -/
theorem add (h : Begun node b) (n : Node) : Begun node (b.add n) := by
  unfold Builder.add
  rcases h with ⟨inner, e, hstack, hroots, hlast⟩ | ⟨name, attributes, nodes, hlast⟩
  · refine Or.inl ?_
    cases inner with
    | nil =>
      rw [hstack]
      exact ⟨[], _, rfl, hroots, getLast?_cons_of_eq_some hlast⟩
    | cons top inner =>
      rw [hstack]
      exact ⟨_ :: inner, e, rfl, hroots, hlast⟩
  · refine Or.inr ⟨name, attributes, nodes, ?_⟩
    split
    · exact getLast?_cons_of_eq_some hlast
    · exact hlast

theorem flushText (h : Begun node b) : Begun node b.flushText := by
  unfold Builder.flushText
  split
  · exact h
  · exact Begun.add (b := { b with text := [] }) h _

/-- Closing an element within leaves the first node where it is. -/
theorem closeTop (h : Begun node b) : Begun node b.closeTop := by
  unfold Builder.closeTop
  split
  next => exact h
  next top outer hcons =>
    rcases h with ⟨inner, e, hstack, hroots, hlast⟩ | hroot
    · cases inner with
      | nil =>
        obtain ⟨rfl, rfl⟩ := List.cons.inj (hcons.symm.trans hstack)
        obtain ⟨nodes, hnodes⟩ := List.head?_eq_some_iff.mp
          (List.head?_reverse.trans hlast)
        refine Or.inr ⟨top.name, top.attributes, nodes, ?_⟩
        simp [Builder.add, OpenElement.toNode, hroots, hnodes]
      | cons t inner =>
        obtain ⟨rfl, rfl⟩ := List.cons.inj (hcons.symm.trans hstack)
        have hopen : Begun node { b with stack := inner ++ [e] } :=
          Or.inl ⟨inner, e, rfl, hroots, hlast⟩
        exact hopen.add _
    · exact Begun.add (b := { b with stack := outer }) (Or.inr hroot) _

theorem closeMany (h : Begun node b) (n : Nat) : Begun node (b.closeMany n) := by
  induction n generalizing b with
  | zero => exact h
  | succ n ih => exact ih h.closeTop

theorem close (h : Begun node b) (name : String) : Begun node (b.close name) := by
  unfold Builder.close
  split
  · exact h
  · exact h.closeMany _

/-- A piece that is no text leaves the beginning alone, once the text before it is a node. -/
theorem step_of_flushText (h : Begun node b.flushText) {p : Piece} (hp : leadingText [p] = []) :
    Begun node (b.step p) := by
  cases p with
  | char c => cases hp
  | whole n => exact h.add n
  | close name => exact h.close name
  | start name attributes =>
    rw [Builder.step]
    split
    · exact h
    · rcases h with ⟨inner, e, hstack, hroots, hlast⟩ | hroot
      · exact Or.inl ⟨_ :: inner, e, by rw [hstack]; rfl, hroots, hlast⟩
      · exact Or.inr hroot

/-- Whatever piece comes, the first node of the element that has begun is there to stay. -/
theorem step (h : Begun node b) (p : Piece) : Begun node (b.step p) := by
  by_cases hp : leadingText [p] = []
  · exact h.flushText.step_of_flushText hp
  · cases p with
    | char c => exact h
    | _ => exact absurd rfl hp

theorem foldl (h : Begun node b) (ps : List Piece) : Begun node (ps.foldl Builder.step b) := by
  induction ps generalizing b with
  | nil => exact h
  | cons p ps ih => exact ih (h.step p)

/-- At the end the element that has begun is the first root, with the first node first in it. -/
theorem finish_of_flushText (h : Begun node b.flushText) :
    ∃ name attributes nodes roots,
      b.finish = .element name attributes (node :: nodes) :: roots := by
  have hstack : ∀ (n : Nat) (b : Builder), (b.closeMany n).stack.length = b.stack.length - n := by
    intro n
    induction n with
    | zero => exact fun b => rfl
    | succ n ih =>
      intro b
      rw [Builder.closeMany, ih, Builder.length_stack_closeTop]
      omega
  have hempty : (b.flushText.closeMany b.flushText.stack.length).stack = [] :=
    List.length_eq_zero_iff.mp (by rw [hstack, Nat.sub_self])
  rcases h.closeMany b.flushText.stack.length with
    ⟨inner, e, hcons, -, -⟩ | ⟨name, attributes, nodes, hlast⟩
  · rw [hempty] at hcons
    exact absurd hcons (by simp)
  · obtain ⟨roots, hroots⟩ := List.head?_eq_some_iff.mp (List.head?_reverse.trans hlast)
    exact ⟨name, attributes, nodes, roots, hroots⟩

end Begun

/-- The text behind the first start tag is the first node in the first element. -/
theorem ofPieces_leadingText (name : String) (attributes : List Attribute) {ps : List Piece}
    (h : leadingText ps ≠ []) :
    ∃ name' attributes' nodes roots, ofPieces (.start name attributes :: ps) =
      .element name' attributes' (.text (String.ofList (leadingText ps)) :: nodes) :: roots := by
  -- the text before the rest of the pieces is still being read
  suffices hread : ∀ (ps : List Piece) (text : List Char), text.reverse ++ leadingText ps ≠ [] →
      ∃ name' attributes' nodes roots,
        (ps.foldl Builder.step ⟨[], [⟨name, attributes, []⟩], text⟩).finish =
          .element name' attributes'
            (.text (String.ofList (text.reverse ++ leadingText ps)) :: nodes) :: roots by
    exact hread ps [] h
  intro ps
  have hflush : ∀ text : List Char, text.reverse ++ [] ≠ [] →
      Begun (.text (String.ofList (text.reverse ++ [])))
        (Builder.flushText ⟨[], [⟨name, attributes, []⟩], text⟩) := by
    intro text hne
    rw [List.append_nil] at hne ⊢
    rw [Builder.flushText, if_neg fun htext => hne (List.reverse_eq_nil_iff.mpr htext)]
    exact Or.inl ⟨[], _, rfl, rfl, rfl⟩
  induction ps with
  | nil => exact fun text hne => (hflush text hne).finish_of_flushText
  | cons p ps ih =>
    intro text hne
    by_cases hp : leadingText [p] = []
    · have hlead : leadingText (p :: ps) = [] := by
        cases p <;> first | rfl | cases hp
      rw [hlead] at hne ⊢
      exact (((hflush text hne).step_of_flushText hp).foldl ps).flushText.finish_of_flushText
    · cases p with
      | char c => simpa [leadingText, Builder.step] using ih (c :: text) (by simp)
      | _ => exact absurd rfl hp

end AppletHost.Markup
