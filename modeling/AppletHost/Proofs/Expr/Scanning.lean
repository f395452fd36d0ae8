import AppletHost.Proofs.Expr.Completeness
import Mathlib.Data.List.TakeWhile

/-!
# What the scanner takes from a text

The token at the front of a text does not depend on what follows it, as long as that only loses
something at its end (`token_local`): so a text may be cut behind any of its tokens. Together with
the characters that a token begins and ends with, this gives what the blanks around an expression
are worth:

> `parse_trim`: an accepted expression is the same expression without the blanks around it, of
> whatever kind they are.
-/

namespace AppletHost.Scanning

open Text (isBlank isAsciiBlank trim trimLeft trimRight allBlank)

/-! ## Characters of tokens -/

/-- A character that a token may begin or end with: no blank and no closing brace. -/
def Solid (c : Char) : Prop := isBlank c = false ∧ c ≠ '\x7d'

instance (c : Char) : Decidable (Solid c) := inferInstanceAs (Decidable (_ ∧ _))

/-- Letters, digits and what else lies between the blanks and the braces. -/
theorem solid_of_toNat {c : Char} (h : 0x21 ≤ c.toNat ∧ c.toNat ≤ 0x7a) : Solid c := by
  constructor
  · simp only [isBlank, Bool.or_eq_false_iff, Bool.and_eq_false_iff, decide_eq_false_iff_not,
      beq_eq_false_iff_ne]
    omega
  · rintro rfl
    exact absurd h.2 (by decide)

theorem toNat_of_isDigit {c : Char} (h : c.isDigit) : 0x30 ≤ c.toNat ∧ c.toNat ≤ 0x39 := by
  simp only [Char.isDigit, Bool.and_eq_true, decide_eq_true_eq, ge_iff_le,
    UInt32.le_iff_toNat_le] at h
  exact h

/-- Letters lie in one range of codes, with a gap that does not matter here. -/
theorem toNat_of_isAlpha {c : Char} (h : c.isAlpha) : 0x41 ≤ c.toNat ∧ c.toNat ≤ 0x7a := by
  simp only [Char.isAlpha, Char.isUpper, Char.isLower, Bool.or_eq_true, Bool.and_eq_true,
    decide_eq_true_eq, ge_iff_le, UInt32.le_iff_toNat_le] at h
  have : 0x41 ≤ c.toNat ∧ c.toNat ≤ 0x5a ∨ 0x61 ≤ c.toNat ∧ c.toNat ≤ 0x7a := h
  omega

/-- A digit is solid: it lies in a range of codes in which there is no blank and no brace. -/
theorem solid_of_isDigit {c : Char} (h : c.isDigit) : Solid c :=
  solid_of_toNat (by have := toNat_of_isDigit h; omega)

theorem solid_of_isNumeral {c : Char} (h : isNumeral c) : Solid c := by
  simp only [isNumeral, Bool.or_eq_true, beq_iff_eq] at h
  rcases h with h | rfl
  · exact solid_of_isDigit h
  · decide

theorem solid_of_isNameStart {c : Char} (h : isNameStart c) : Solid c := by
  simp only [isNameStart, Bool.or_eq_true, beq_iff_eq] at h
  rcases h with (h | rfl) | rfl
  · exact solid_of_toNat (by have := toNat_of_isAlpha h; omega)
  · decide
  · decide

theorem solid_of_isNameRest {c : Char} (h : isNameRest c) : Solid c := by
  simp only [isNameRest, Char.isAlphanum, Bool.or_eq_true, beq_iff_eq] at h
  rcases h with ((h | h) | rfl) | rfl
  · exact solid_of_toNat (by have := toNat_of_isAlpha h; omega)
  · exact solid_of_isDigit h
  · decide
  · decide

theorem solid_quote {c : Char} (h : c = '"' ∨ c = '\'') : Solid c := by
  rcases h with rfl | rfl <;> decide

/-- The text of punctuation begins and ends with solid characters. -/
theorem solid_text (p : Punct) : ∀ c ∈ p.text.toList, Solid c := by
  have hall : p.text.toList.all (fun c => decide (Solid c)) := by
    cases p <;> decide
  intro c hc
  exact of_decide_eq_true (List.all_eq_true.mp hall c hc)

/-! ## Cutting behind a token -/

section Cut

variable {p : Char → Bool} {word rest cut back : List Char}

/-- A reader that takes what has a property takes the same word when the text behind it is cut
short. -/
theorem takeWhile_cut (hword : ∀ c ∈ word, p c) (hrest : ∀ c ∈ rest.head?, p c = false)
    (hcut : rest = cut ++ back) :
    (word ++ cut).takeWhile p = word ∧ (word ++ cut).dropWhile p = cut := by
  have hhead : ∀ c ∈ cut.head?, p c = false := by
    intro c hc
    refine hrest c ?_
    cases cut with
    | nil => cases hc
    | cons d cut =>
      rw [hcut]
      exact hc
  rw [List.takeWhile_append_of_pos hword, List.dropWhile_append_of_pos hword]
  cases cut with
  | nil => simp
  | cons d cut =>
    have hd := hhead d rfl
    simp [hd]

/-- A string is read up to its closing quote, whatever stands behind that. -/
theorem stringBody?_local {quote : Char} {cs value text rest : List Char}
    (h : stringBody? quote cs = some (value, text, rest)) (rest' : List Char) :
    stringBody? quote (text ++ rest') = some (value, text, rest') := by
  fun_induction stringBody? quote cs generalizing value text rest with
  | case1 => simp at h
  | case2 cs =>
    simp at h
    obtain ⟨rfl, rfl, rfl⟩ := h
    show stringBody? quote (quote :: rest') = _
    rw [stringBody?.eq_def]
    simp only [if_true]
  | case3 => simp at h
  | case4 e cs hne ih =>
    obtain ⟨⟨v, t, r⟩, hb, he⟩ := Option.map_eq_some_iff.1 h
    obtain ⟨rfl, rfl, rfl⟩ : _ ∧ _ ∧ _ := by simpa using he
    show stringBody? quote ('\\' :: e :: (t ++ rest')) = _
    rw [stringBody?, if_neg hne, if_pos rfl, ih hb]
    rfl
  | case5 c cs hquote hescape ih =>
    obtain ⟨⟨v, t, r⟩, hb, he⟩ := Option.map_eq_some_iff.1 h
    obtain ⟨rfl, rfl, rfl⟩ : _ ∧ _ ∧ _ := by simpa using he
    show stringBody? quote (c :: (t ++ rest')) = _
    rw [stringBody?.eq_def]
    simp only [if_neg hquote, if_neg hescape, ih hb]
    rfl

/-- A string ends with its quote. -/
theorem stringBody?_last {quote : Char} {cs value text rest : List Char}
    (h : stringBody? quote cs = some (value, text, rest)) : text.getLast? = some quote := by
  fun_induction stringBody? quote cs generalizing value text rest with
  | case1 => simp at h
  | case2 cs =>
    simp at h
    obtain ⟨rfl, rfl, rfl⟩ := h
    rfl
  | case3 => simp at h
  | case4 e cs _ ih =>
    obtain ⟨⟨v, t, r⟩, hb, he⟩ := Option.map_eq_some_iff.1 h
    obtain ⟨rfl, rfl, rfl⟩ : _ ∧ _ ∧ _ := by simpa using he
    simp [List.getLast?_cons, ih hb]
  | case5 c cs _ _ ih =>
    obtain ⟨⟨v, t, r⟩, hb, he⟩ := Option.map_eq_some_iff.1 h
    obtain ⟨rfl, rfl, rfl⟩ : _ ∧ _ ∧ _ := by simpa using he
    simp [List.getLast?_cons, ih hb]

/-- The text of punctuation at the front begins with the first character. -/
theorem punct?_first {c : Char} {cs : List Char} {q : Punct}
    (h : punct? (c :: cs) = some (q, rest)) : ∃ word, q.text.toList = c :: word := by
  obtain ⟨d, word, hword⟩ := List.exists_cons_of_ne_nil q.text_toList_ne_nil
  have happend := punct?_append h
  rw [hword] at happend
  obtain ⟨rfl, -⟩ := List.cons.inj happend
  exact ⟨word, hword⟩

/-- Cutting behind punctuation makes no longer punctuation out of it. -/
theorem punct?_local {cs : List Char} {q : Punct} (h : punct? cs = some (q, rest))
    (hcut : rest = cut ++ back) : punct? (q.text.toList ++ cut) = some (q, cut) := by
  have happend := punct?_append h
  unfold punct? at h ⊢
  obtain ⟨l₁, q', l₂, hall, hq', hl₁⟩ := List.findSome?_eq_some_iff.mp h
  obtain ⟨r, -, he⟩ := Option.map_eq_some_iff.1 hq'
  obtain ⟨rfl, rfl⟩ := Prod.mk.inj he
  refine List.findSome?_eq_some_iff.mpr ⟨l₁, q', l₂, hall, ?_, fun x hx => ?_⟩
  · rw [Text.startsWith?_eq_some_iff.mpr rfl]
    rfl
  · -- what does not stand at the front of the text does not at the front of less of it
    have hx' := hl₁ x hx
    rw [Option.map_eq_none_iff] at hx' ⊢
    rw [← Option.not_isSome_iff_eq_none] at hx' ⊢
    intro hsome
    obtain ⟨r', hr'⟩ := Option.isSome_iff_exists.mp hsome
    refine hx' (Option.isSome_iff_exists.mpr ⟨r' ++ back, ?_⟩)
    rw [Text.startsWith?_eq_some_iff] at hr' ⊢
    rw [← happend, hcut, ← List.append_assoc, hr', List.append_assoc]

/-- The token at the front of a text that is cut somewhere behind it is the same. -/
theorem token_local {o : Nat} {c : Char} {cs : List Char} {t : Scanned (c :: cs)}
    (h : token o c cs = .ok t) (hcut : t.rest = cut ++ back) (o' : Nat) :
    ∃ cs', ∃ t' : Scanned (c :: cs'), t.text ++ cut = c :: cs' ∧ token o' c cs' = .ok t' ∧
      t'.token = t.token ∧ t'.text = t.text ∧ t'.rest = cut := by
  -- a token that goes on as long as its characters do
  have hwhile : ∀ (p : Char → Bool), cs.dropWhile p = cut ++ back →
      (cs.takeWhile p ++ cut).takeWhile p = cs.takeWhile p ∧
        (cs.takeWhile p ++ cut).dropWhile p = cut := by
    intro p hp
    refine takeWhile_cut (fun _ => List.mem_takeWhile_imp) ?_ hp
    intro c hc
    have hnot := List.head?_dropWhile_not p cs
    rwa [Option.mem_def.mp hc] at hnot
  unfold token at h
  split at h
  next hdigit =>
    dsimp only at h
    split at h
    next => cases h
    next x hx =>
      cases h
      obtain ⟨htake, hdrop⟩ := hwhile isNumeral hcut
      refine ⟨cs.takeWhile isNumeral ++ cut, ⟨.num x, c :: cs.takeWhile isNumeral, cut, rfl,
        List.cons_ne_nil _ _⟩, rfl, ?_, rfl, rfl, rfl⟩
      simp only [token, if_pos hdigit, htake, hdrop, hx]
  next hdigit =>
    split at h
    next hquote =>
      split at h
      next => cases h
      next value text rest hbody =>
        cases h
        obtain rfl : rest = cut ++ back := hcut
        have hlocal := stringBody?_local hbody cut
        refine ⟨text ++ cut, ⟨.str (String.ofList value), c :: text, cut, rfl,
          List.cons_ne_nil _ _⟩, rfl, ?_, rfl, rfl, rfl⟩
        rw [token, if_neg hdigit, if_pos hquote]
        split
        next hnone => rw [hlocal] at hnone; cases hnone
        next hsome => rw [hlocal] at hsome; cases hsome; rfl
    next hquote =>
      split at h
      next hname =>
        cases h
        obtain ⟨htake, hdrop⟩ := hwhile isNameRest hcut
        refine ⟨cs.takeWhile isNameRest ++ cut,
          ⟨.ident (String.ofList (c :: cs.takeWhile isNameRest)), c :: cs.takeWhile isNameRest,
            cut, rfl, List.cons_ne_nil _ _⟩, rfl, ?_, rfl, rfl, rfl⟩
        simp only [token, if_neg hdigit, if_neg hquote, if_pos hname, htake, hdrop]
      next hname =>
        split at h
        next => cases h
        next q rest hpunct =>
          cases h
          have hlocal := punct?_local hpunct hcut
          obtain ⟨word, hword⟩ := punct?_first hpunct
          have htext : q.text.toList ++ cut = c :: (word ++ cut) := by rw [hword]; rfl
          refine ⟨word ++ cut, ⟨.punct q, q.text.toList, cut, htext, q.text_toList_ne_nil⟩, htext,
            ?_, rfl, rfl, rfl⟩
          rw [htext] at hlocal
          rw [token, if_neg hdigit, if_neg hquote, if_neg hname]
          split
          next hnone => rw [hlocal] at hnone; cases hnone
          next hsome => rw [hlocal] at hsome; cases hsome; rfl

end Cut

/-! ## Where a token begins and ends -/

/-- The first character of a token is never a blank. -/
theorem token_first {o : Nat} {c : Char} {cs : List Char} {t : Scanned (c :: cs)}
    (h : token o c cs = .ok t) : Solid c := by
  unfold token at h
  split at h
  next hdigit => exact solid_of_isDigit hdigit
  next =>
    split at h
    next hquote => exact solid_quote hquote
    next =>
      split at h
      next hname => exact solid_of_isNameStart hname
      next =>
        split at h
        next => cases h
        next q rest hpunct =>
          obtain ⟨word, hword⟩ := punct?_first hpunct
          exact solid_text q c (by rw [hword]; exact List.mem_cons_self)

/-- Nor is the last one. So trimming a text cannot cut into a token at either end. -/
theorem token_last {o : Nat} {c : Char} {cs : List Char} {t : Scanned (c :: cs)}
    (h : token o c cs = .ok t) : ∃ front d, t.text = front ++ [d] ∧ Solid d := by
  have hsolid : ∀ text : List Char, text ≠ [] → (∀ d ∈ text, Solid d) →
      ∃ front d, text = front ++ [d] ∧ Solid d := by
    intro text hne hall
    refine ⟨_, _, (List.dropLast_append_getLast hne).symm, ?_⟩
    exact hall _ (List.getLast_mem hne)
  have hfirst := token_first h
  have hword : ∀ p : Char → Bool, (∀ d, p d → Solid d) → ∀ d ∈ c :: cs.takeWhile p, Solid d := by
    intro p hp d hd
    rcases List.mem_cons.mp hd with rfl | hd
    · exact hfirst
    · exact hp d (List.mem_takeWhile_imp hd)
  unfold token at h
  split at h
  next =>
    dsimp only at h
    split at h
    next => cases h
    next =>
      cases h
      exact hsolid _ (List.cons_ne_nil _ _) (hword _ fun _ => solid_of_isNumeral)
  next =>
    split at h
    next hquote =>
      split at h
      next => cases h
      next value text rest hbody =>
        cases h
        obtain ⟨front, rfl⟩ := List.getLast?_eq_some_iff.mp (stringBody?_last hbody)
        exact ⟨c :: front, c, rfl, hfirst⟩
    next =>
      split at h
      next =>
        cases h
        exact hsolid _ (List.cons_ne_nil _ _) (hword _ fun _ => solid_of_isNameRest)
      next =>
        split at h
        next => cases h
        next q rest hpunct =>
          cases h
          exact hsolid _ q.text_toList_ne_nil (solid_text q)

/-! ## Blanks around an expression -/

theorem scanFrom_nil (o : Nat) : scanFrom o [] = .ok [] := by
  rw [scanFrom]

/-- A blank is skipped, and counts for the offsets behind it. -/
theorem scanFrom_blank {o : Nat} {c : Char} (h : isAsciiBlank c) (cs : List Char) :
    scanFrom o (c :: cs) = scanFrom (o + c.utf8Size) cs := by
  rw [scanFrom, if_pos h]

/-- What is read where no blank stands. -/
theorem scanFrom_token {o : Nat} {c : Char} {cs : List Char} {ts : List Lexeme}
    (hc : ¬ isAsciiBlank c) (h : scanFrom o (c :: cs) = .ok ts) :
    ∃ t rest, token o c cs = .ok t ∧
      scanFrom (o + Text.byteLength t.text) t.rest = .ok rest ∧ ts = ⟨o, t.token⟩ :: rest := by
  rw [scanFrom, if_neg hc] at h
  split at h
  next => cases h
  next t ht =>
    split at h
    next => cases h
    next rest hrest =>
      cases h
      exact ⟨t, rest, ht, hrest, rfl⟩

/-- Blanks that are none of an expression make it fail, so leading blanks do not matter. -/
theorem scanFrom_trimLeft {o : Nat} {cs : List Char} {ts : List Lexeme}
    (h : scanFrom o cs = .ok ts) : ∃ o', scanFrom o' (trimLeft cs) = .ok ts := by
  induction cs generalizing o with
  | nil => exact ⟨o, h⟩
  | cons c cs ih =>
    by_cases hblank : isBlank c
    · have hascii : isAsciiBlank c := by
        by_contra hc
        obtain ⟨t, rest, ht, -⟩ := scanFrom_token hc h
        exact absurd hblank (by rw [(token_first ht).1]; decide)
      rw [scanFrom_blank hascii] at h
      rw [trimLeft, List.dropWhile_cons_of_pos hblank]
      exact ih h
    · rw [trimLeft, List.dropWhile_cons_of_neg hblank]
      exact ⟨o, h⟩

/-- Trimming on the right takes a character away only if nothing but blanks follows. -/
theorem trimRight_cons (c : Char) (cs : List Char) :
    trimRight (c :: cs) = if trimRight cs = [] ∧ isBlank c then [] else c :: trimRight cs := by
  unfold trimRight
  rw [List.reverse_cons, List.dropWhile_append]
  cases hdrop : cs.reverse.dropWhile isBlank with
  | nil => by_cases hc : isBlank c <;> simp [hc]
  | cons d ds => simp

/-- It never goes beyond a character that is no blank. -/
theorem trimRight_append {text : List Char} {d : Char} (h : isBlank d = false)
    (rest : List Char) : trimRight (text ++ d :: rest) = text ++ d :: trimRight rest := by
  induction text with
  | nil => simp [trimRight_cons, h]
  | cons c text ih => simp [trimRight_cons, ih]

/-- A text is what is left of it and the blanks behind. -/
theorem exists_trimRight_append (cs : List Char) :
    ∃ back, cs = trimRight cs ++ back ∧ ∀ c ∈ back, isBlank c := by
  refine ⟨(cs.reverse.takeWhile isBlank).reverse, ?_, ?_⟩
  · rw [trimRight, ← List.reverse_append, List.takeWhile_append_dropWhile, List.reverse_reverse]
  · intro c hc
    exact List.mem_takeWhile_imp (List.mem_reverse.mp hc)

/-- Nor do trailing blanks, but for the offsets. -/
theorem scanFrom_trimRight {o : Nat} {cs : List Char} {ts : List Lexeme}
    (h : scanFrom o cs = .ok ts) (o' : Nat) :
    ∃ ts', scanFrom o' (trimRight cs) = .ok ts' ∧
      ts'.map Lexeme.token = ts.map Lexeme.token := by
  induction hlen : cs.length using Nat.strong_induction_on generalizing o cs ts o' with
  | _ n ih =>
    subst hlen
    cases cs with
    | nil =>
      rw [scanFrom_nil] at h
      cases h
      exact ⟨[], scanFrom_nil o', rfl⟩
    | cons c cs =>
      by_cases hc : isAsciiBlank c
      · rw [scanFrom_blank hc] at h
        rw [trimRight_cons]
        split
        next hnil =>
          obtain ⟨ts', hts', heq⟩ := ih cs.length (Nat.lt_succ_self _) h o' rfl
          rw [hnil.1] at hts'
          exact ⟨ts', hts', heq⟩
        next =>
          rw [scanFrom_blank hc]
          exact ih cs.length (Nat.lt_succ_self _) h _ rfl
      · obtain ⟨t, rest, ht, hrest, rfl⟩ := scanFrom_token hc h
        obtain ⟨front, d, hfront, hd⟩ := token_last ht
        obtain ⟨back, hback, -⟩ := exists_trimRight_append t.rest
        obtain ⟨cs', t', hcs', ht', htoken, htext, hcut⟩ := token_local ht hback o'
        have htrim : trimRight (t.text ++ t.rest) = t.text ++ trimRight t.rest := by
          rw [hfront, List.append_assoc, List.append_assoc]
          exact trimRight_append hd.1 t.rest
        rw [t.text_append_rest, hcs'] at htrim
        obtain ⟨ts', hts', heq⟩ := ih t.rest.length t.rest_length_lt hrest
          (o' + Text.byteLength t'.text) rfl
        refine ⟨⟨o', t'.token⟩ :: ts', ?_, ?_⟩
        · rw [htrim, scanFrom, if_neg hc, ht']
          simp only [hcut, hts']
        · rw [List.map_cons, List.map_cons, heq, htoken]

/-! ## Accepted expressions -/

/-- Whether a token list is an expression, and which, does not depend on the offsets. -/
theorem ofTokens_congr {ts ts' : List Lexeme} {e : Expr} (h : Expr.ofTokens ts = .ok e)
    (htokens : ts'.map Lexeme.token = ts.map Lexeme.token) : Expr.ofTokens ts' = .ok e := by
  rw [Grammar.ofTokens_eq_ok_iff] at h ⊢
  rwa [htokens]

/-- An accepted expression is the same expression without the blanks around it. -/
theorem parse_trim {source : String} {e : Expr} (h : Expr.parse source = .ok e) :
    Expr.parse (String.ofList (trim source.toList)) = .ok e := by
  obtain ⟨ts, hts, hok⟩ := Grammar.parse_eq_ok_iff.mp h
  obtain ⟨o, hleft⟩ := scanFrom_trimLeft hts
  obtain ⟨ts', hts', htokens⟩ := scanFrom_trimRight hleft 0
  refine Grammar.parse_eq_ok_iff.mpr ⟨ts', ?_, ofTokens_congr hok htokens⟩
  rw [scan, String.toList_ofList]
  exact hts'

/-- A text of blanks has no tokens, and no expression is without. -/
theorem not_allBlank_of_parse {source : String} {e : Expr} (h : Expr.parse source = .ok e) :
    ¬ allBlank source.toList := by
  intro hblank
  have htrim : trim source.toList = [] := by
    have hleft : trimLeft source.toList = [] := by
      rw [trimLeft, List.dropWhile_eq_nil_iff]
      exact List.all_eq_true.mp hblank
    rw [trim, hleft]
    rfl
  have hparse := parse_trim h
  rw [htrim, Expr.parse, scan, String.toList_ofList, scanFrom_nil] at hparse
  cases hparse

/-- No accepted expression ends with a brace: at its end there is a blank or the end of a token. -/
theorem getLast?_of_scanFrom {o : Nat} {cs : List Char} {ts : List Lexeme}
    (h : scanFrom o cs = .ok ts) : cs.getLast? ≠ some '\x7d' := by
  induction hlen : cs.length using Nat.strong_induction_on generalizing o cs ts with
  | _ n ih =>
    subst hlen
    cases cs with
    | nil => nofun
    | cons c cs =>
      by_cases hc : isAsciiBlank c
      · rw [scanFrom_blank hc] at h
        have hlast := ih cs.length (Nat.lt_succ_self _) h rfl
        cases cs with
        | nil =>
          rintro ⟨⟩
          cases hc
        | cons d cs => rwa [List.getLast?_cons_cons]
      · obtain ⟨t, rest, ht, hrest, rfl⟩ := scanFrom_token hc h
        have hlast := ih t.rest.length t.rest_length_lt hrest rfl
        obtain ⟨front, d, hfront, hd⟩ := token_last ht
        rw [← t.text_append_rest, hfront]
        cases hnil : t.rest with
        | nil => simpa using hd.2
        | cons x xs => rwa [List.getLast?_append_cons, ← hnil]

end AppletHost.Scanning
