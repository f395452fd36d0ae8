import AppletHost.Proofs.Template.Embedding
import Mathlib.Data.List.Infix

/-!
# What a text is cut into

Literals and placeholders are stretches of the text, one after another, and nothing of it is lost or
moved. Placeholders with nothing but blanks inside go into the literals around them, so a literal may
hold opening braces, and the splitter goes on behind the closing ones:

> `segments_tile`: every text is the literals of its segments with `\x7b\x7b inner \x7d\x7d` in place of each
> binding, which is that of `inner`. Literals are not empty and do not touch, and opening braces in
> them begin a placeholder of blanks, or stand in the tail that is never closed.

The splitter only ever looks for the first braces. What keeps it from meeting others in between is
that no occurrence begins before the first one (`suffix_of_breakOn?_opening`), and that neither blanks
nor closing braces are part of one (`opening_suffix_append`). Occurrences are told as suffixes of the
text, which begin with the braces.
-/

namespace AppletHost.Template

open Text (breakOn? allBlank)

/-- A stretch of a text: literal text, or a placeholder with what stands between its braces. -/
inductive Stretch where
  | literal (text : List Char)
  | placeholder (inner : List Char)

namespace Stretch

/-- The stretch as it stands in the text. -/
def text : Stretch → List Char
  | literal text => text
  | placeholder inner => opening ++ inner ++ closing

/-- The segment for it. The source of a binding is what is between the braces, without outer blanks. -/
def segment : Stretch → Segment
  | literal text => .literal (String.ofList text)
  | placeholder inner => .binding (Binding.compile inner)

/-- The stretch is literal text. -/
def IsLiteral : Stretch → Prop
  | literal _ => True
  | placeholder _ => False

end Stretch

/-- Behind opening braces: blanks, and then closing braces. -/
def BeginsBlank (after : List Char) : Prop :=
  ∃ blanks rest, after = blanks ++ closing ++ rest ∧ allBlank blanks

/-- The braces before `after` stand in a tail of the text that begins with braces and is not closed. -/
def InUnclosedTail (text after : List Char) : Prop :=
  ∃ tail, opening ++ tail <:+ text ∧ ¬ closing <:+: tail ∧ opening ++ after <:+ opening ++ tail

/-- The text is these stretches, one after another. -/
structure Tiling (cs : List Char) (stretches : List Stretch) : Prop where
  text : stretches.flatMap Stretch.text = cs
  placeholders : ∀ inner, .placeholder inner ∈ stretches → ¬ allBlank inner ∧ ¬ closing <:+: inner
  nonempty : .literal [] ∉ stretches
  apart : stretches.IsChain fun s next => ¬ (s.IsLiteral ∧ next.IsLiteral)
  braces : ∀ front text back, stretches = front ++ .literal text :: back →
    ∀ after, opening ++ after <:+ text → BeginsBlank after ∨ back = [] ∧ InUnclosedTail text after

/-! ## Opening braces -/

section Braces

variable {cs before inner rest after : List Char}

/-- No occurrence begins before the first one. -/
theorem suffix_of_breakOn?_opening (h : breakOn? opening cs = some (before, rest))
    (hoccurs : opening ++ after <:+ cs) : opening ++ after <:+ opening ++ rest := by
  obtain ⟨front, rfl⟩ := hoccurs
  obtain ⟨first, rest', hfirst, hle⟩ := Embedding.exists_breakOn?_append front opening after
  rw [List.append_assoc, h] at hfirst
  cases hfirst
  have htext := Text.breakOn?_append h
  refine List.suffix_of_suffix_length_le (List.suffix_append front _) ⟨before, ?_⟩ ?_
  · rw [htext, List.append_assoc]
  · have hlength := congrArg List.length htext
    simp only [List.length_append] at hlength ⊢
    omega

/-- An occurrence within the text up to somewhere behind the first one does not begin before that. -/
theorem suffix_of_breakOn?_opening_within {n : List Char}
    (h : breakOn? opening cs = some (before, rest)) (hn : n <+: opening ++ rest)
    (hoccurs : opening ++ after <:+ before ++ n) : opening ++ after <:+ n := by
  obtain ⟨more, hmore⟩ := hn
  obtain ⟨front, hfront⟩ := hoccurs
  have htext : cs = before ++ (n ++ more) := by
    rw [hmore, ← List.append_assoc]
    exact Text.breakOn?_append h
  have hlater : opening ++ (after ++ more) <:+ opening ++ rest := by
    refine suffix_of_breakOn?_opening h ⟨front, ?_⟩
    rw [htext, ← List.append_assoc before, ← hfront]
    simp only [List.append_assoc]
  rw [← hmore, ← List.append_assoc] at hlater
  obtain ⟨front', hfront'⟩ := hlater
  rw [← List.append_assoc] at hfront'
  exact ⟨front', List.append_cancel_right hfront'⟩

/-- Text without an opening brace is no part of an occurrence. -/
theorem opening_suffix_append {plain : List Char} (hplain : ∀ c ∈ plain, c ≠ '\x7b')
    (hoccurs : opening ++ after <:+ plain ++ rest) : opening ++ after <:+ rest := by
  induction plain with
  | nil => exact hoccurs
  | cons c plain ih =>
    rw [List.forall_mem_cons] at hplain
    rcases List.suffix_cons_iff.1 hoccurs with heq | hlater
    · exact absurd (List.cons.inj heq).1.symm hplain.1
    · exact ih hplain.2 hlater

/-- Opening braces within a placeholder of blanks, or behind it, begin it or stand behind it. -/
theorem opening_suffix_blank (hblank : allBlank inner)
    (hoccurs : opening ++ after <:+ opening ++ inner ++ closing ++ rest) :
    BeginsBlank after ∨ opening ++ after <:+ rest := by
  have hplain : ∀ c ∈ inner ++ closing, c ≠ '\x7b' := by
    rintro c hc rfl
    rcases List.mem_append.1 hc with hinner | hclosing
    · exact absurd (List.all_eq_true.1 hblank _ hinner) (by decide)
    · exact absurd hclosing (by decide)
  rw [List.append_assoc opening, List.append_assoc opening] at hoccurs
  rcases List.suffix_cons_iff.1 hoccurs with heq | hlater
  · exact .inl ⟨inner, rest, (List.cons.inj (List.cons.inj heq).2).2, hblank⟩
  rcases List.suffix_cons_iff.1 hlater with heq | hlater
  · -- the second brace would be followed by a third one
    obtain ⟨c, plain, hcons⟩ : ∃ c plain, inner ++ closing = c :: plain :=
      List.exists_cons_of_ne_nil (List.append_ne_nil_of_right_ne_nil _ (List.cons_ne_nil _ _))
    have hbrace := (List.cons.inj heq).2
    rw [hcons] at hbrace hplain
    exact absurd (List.cons.inj hbrace).1.symm (hplain c List.mem_cons_self)
  · exact .inr (opening_suffix_append hplain hlater)

/-- What stands before the first closing braces holds none. -/
theorem not_closing_infix_of_breakOn? (h : breakOn? closing cs = some (inner, rest)) :
    ¬ closing <:+: inner := by
  rintro ⟨front, back, rfl⟩
  obtain ⟨first, rest', hfirst, hle⟩ :=
    Embedding.exists_breakOn?_append front closing (back ++ closing ++ rest)
  have htext : cs = front ++ closing ++ (back ++ closing ++ rest) := by
    rw [Text.breakOn?_append h]
    simp only [List.append_assoc]
  rw [← htext, h] at hfirst
  cases hfirst
  simp only [List.length_append, closing, List.length_cons] at hle
  omega

end Braces

/-! ## Stretches -/

variable {cs t : List Char} {stretches : List Stretch}

theorem Tiling.nil : Tiling [] [] :=
  ⟨rfl, nofun, nofun, .nil, fun front text back h => absurd h (by simp)⟩

/-- All that is left of the text is literal: braces in it are closed nowhere behind them. -/
theorem Tiling.tail (hne : cs ≠ [])
    (hbraces : ∀ after, opening ++ after <:+ cs → InUnclosedTail cs after) :
    Tiling cs [.literal cs] := by
  refine ⟨by simp [Stretch.text], by simp, by simpa using hne.symm, .singleton _, ?_⟩
  intro front text back h after hafter
  cases front with
  | nil =>
    cases h
    exact .inr ⟨rfl, hbraces after hafter⟩
  | cons s front => exact absurd (List.cons.inj h).2 (by simp)

/-- The same as the splitter has it, which makes no literal of nothing. -/
theorem Tiling.rest (hbraces : ∀ after, opening ++ after <:+ cs → InUnclosedTail cs after) :
    ∃ stretches, Template.consLiteral cs [] = stretches.map Stretch.segment ∧
      Tiling cs stretches := by
  by_cases hne : cs = []
  · exact ⟨[], by rw [hne]; rfl, hne ▸ .nil⟩
  · exact ⟨[.literal cs], if_neg hne, .tail hne hbraces⟩

/-- A placeholder comes before the text. It holds no closing braces within, so no other split of it
could have been meant. -/
theorem Tiling.placeholder (h : Tiling cs stretches) {inner : List Char} (hblank : ¬ allBlank inner)
    (hclosing : ¬ closing <:+: inner) :
    Tiling (opening ++ inner ++ closing ++ cs) (.placeholder inner :: stretches) := by
  refine ⟨?_, ?_, ?_, ?_, ?_⟩
  · rw [List.flatMap_cons, h.text]
    rfl
  · intro inner' hinner'
    rcases List.mem_cons.1 hinner' with heq | hrest
    · cases heq
      exact ⟨hblank, hclosing⟩
    · exact h.placeholders inner' hrest
  · rw [List.mem_cons, not_or]
    exact ⟨nofun, h.nonempty⟩
  · exact List.isChain_cons.2 ⟨fun _ _ hboth => hboth.1, h.apart⟩
  · intro front text back heq
    cases front with
    | nil => cases heq
    | cons s front => exact h.braces front text back (List.cons.inj heq).2

/-- A literal comes before stretches that begin with a placeholder, if there are any. -/
theorem Tiling.cons_literal (h : Tiling cs stretches) (hne : t ≠ [])
    (hapart : ∀ s ∈ stretches.head?, ¬ s.IsLiteral)
    (hbraces : ∀ after, opening ++ after <:+ t → BeginsBlank after) :
    Tiling (t ++ cs) (.literal t :: stretches) := by
  refine ⟨?_, ?_, ?_, ?_, ?_⟩
  · rw [List.flatMap_cons, h.text]
    rfl
  · intro inner hinner
    exact h.placeholders inner ((List.mem_cons.1 hinner).resolve_left nofun)
  · rw [List.mem_cons, not_or]
    exact ⟨fun hnil => hne (Stretch.literal.inj hnil).symm, h.nonempty⟩
  · exact List.isChain_cons.2 ⟨fun next hnext hboth => hapart next hnext hboth.2, h.apart⟩
  · intro front text back heq after hafter
    cases front with
    | nil =>
      cases heq
      exact .inl (hbraces after hafter)
    | cons s front => exact h.braces front text back (List.cons.inj heq).2 after hafter

/-- A literal joins the one that the stretches begin with. -/
theorem Tiling.join_literal {n : List Char} (h : Tiling cs (.literal n :: stretches))
    (hbraces : ∀ after, opening ++ after <:+ t ++ n →
      BeginsBlank after ∨ opening ++ after <:+ n) :
    Tiling (t ++ cs) (.literal (t ++ n) :: stretches) := by
  refine ⟨?_, ?_, ?_, ?_, ?_⟩
  · rw [← h.text, List.flatMap_cons, List.flatMap_cons, Stretch.text, Stretch.text,
      List.append_assoc]
  · intro inner hinner
    exact h.placeholders inner (List.mem_cons_of_mem _ ((List.mem_cons.1 hinner).resolve_left nofun))
  · rw [List.mem_cons, not_or]
    refine ⟨fun hnil => h.nonempty (List.mem_cons.2 (.inl ?_)), fun hrest => ?_⟩
    · rw [(List.append_eq_nil_iff.1 (Stretch.literal.inj hnil).symm).2]
    · exact h.nonempty (List.mem_cons_of_mem _ hrest)
  · obtain ⟨hnext, hrest⟩ := List.isChain_cons.1 h.apart
    exact List.isChain_cons.2 ⟨hnext, hrest⟩
  · intro front text back heq after hafter
    cases front with
    | nil =>
      cases heq
      rcases hbraces after hafter with hblank | hn
      · exact .inl hblank
      · rcases h.braces [] n stretches rfl after hn with hblank | ⟨hlast, tail, htail, hopen⟩
        · exact .inl hblank
        · exact .inr ⟨hlast, tail, htail.trans (List.suffix_append t n), hopen⟩
    | cons s front =>
      exact h.braces (.literal n :: front) text back (by rw [(List.cons.inj heq).2]; rfl) after hafter

/-- Literal text comes before the text, with no braces in it but those of a placeholder of blanks. -/
theorem Tiling.consLiteral (h : Tiling cs stretches)
    (hbraces : ∀ n after, n <+: cs → opening ++ after <:+ t ++ n →
      BeginsBlank after ∨ opening ++ after <:+ n) :
    ∃ stretches', Template.consLiteral t (stretches.map Stretch.segment) =
      stretches'.map Stretch.segment ∧ Tiling (t ++ cs) stretches' := by
  unfold Template.consLiteral
  by_cases hne : t = []
  · rw [if_pos hne, hne]
    exact ⟨stretches, rfl, h⟩
  rw [if_neg hne]
  have halone : ∀ after, opening ++ after <:+ t → BeginsBlank after := by
    intro after hafter
    rw [← List.append_nil t] at hafter
    refine (hbraces [] after List.nil_prefix hafter).resolve_right fun hnil => ?_
    exact List.append_ne_nil_of_left_ne_nil (List.cons_ne_nil _ _) _ (List.suffix_nil.1 hnil)
  cases stretches with
  | nil => exact ⟨_, rfl, h.cons_literal hne nofun halone⟩
  | cons s stretches =>
    cases s with
    | literal n =>
      have hn : n <+: cs := by
        rw [← h.text, List.flatMap_cons]
        exact List.prefix_append _ _
      refine ⟨.literal (t ++ n) :: stretches, ?_, h.join_literal fun after => hbraces n after hn⟩
      rw [List.map_cons, List.map_cons, Stretch.segment, Stretch.segment, String.ofList_append]
    | placeholder inner =>
      exact ⟨_, rfl, h.cons_literal hne (by rintro _ ⟨⟩; exact id) halone⟩

/-! ## Every text -/

/--
For every text: its segments are those of stretches of the text (`Tiling`). These are the text exactly,
one after another; a placeholder is not blank inside and ends at the first closing braces; no literal is
empty, and no two of them are adjacent; and opening braces in a literal begin a placeholder of blanks,
but for those in the last literal that stand in a tail which is never closed.
-/
theorem segments_tile (cs : List Char) :
    ∃ stretches, segments cs = stretches.map Stretch.segment ∧ Tiling cs stretches := by
  fun_induction segments cs with
  | case1 cs hnone =>
    refine Tiling.rest fun after hafter => ?_
    have hinfix : opening <:+: cs := (List.infix_append' [] opening after).trans hafter.isInfix
    exact absurd hinfix (Text.breakOn?_eq_none_iff.1 hnone)
  | case2 cs before afterOpen hopen hnone =>
    refine Tiling.rest fun after hafter => ?_
    refine ⟨afterOpen, ⟨before, ?_⟩, Text.breakOn?_eq_none_iff.1 hnone,
      suffix_of_breakOn?_opening hopen hafter⟩
    rw [Text.breakOn?_append hopen, List.append_assoc]
  | case3 cs before afterOpen hopen inner rest hclose _ hblank ih =>
    obtain ⟨stretches, hsegments, htiling⟩ := ih
    have htext : cs = before ++ opening ++ inner ++ closing ++ rest := by
      rw [Text.breakOn?_append hopen, Text.breakOn?_append hclose]
      simp only [List.append_assoc]
    rw [hsegments, htext]
    refine htiling.consLiteral fun n after hn hafter => ?_
    refine opening_suffix_blank hblank (suffix_of_breakOn?_opening_within hopen ?_ ?_)
    · rw [Text.breakOn?_append hclose]
      simpa only [List.append_assoc, List.prefix_append_right_inj] using hn
    · simpa only [List.append_assoc] using hafter
  | case4 cs before afterOpen hopen inner rest hclose _ hblank ih =>
    obtain ⟨stretches, hsegments, htiling⟩ := ih
    have htext : cs = before ++ (opening ++ inner ++ closing ++ rest) := by
      rw [Text.breakOn?_append hopen, Text.breakOn?_append hclose]
      simp only [List.append_assoc]
    rw [hsegments, htext]
    refine (htiling.placeholder hblank (not_closing_infix_of_breakOn? hclose)).consLiteral ?_
    intro n after hn hafter
    refine .inr (suffix_of_breakOn?_opening_within hopen ?_ hafter)
    rw [Text.breakOn?_append hclose]
    simpa only [List.append_assoc] using hn

end AppletHost.Template
