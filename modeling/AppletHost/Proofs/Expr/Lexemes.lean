import AppletHost.Proofs.Expr.Scanning

/-!
# How tokens are written

`Spells` says what stands for a token in a text, without the scanner: a numeral, a string with either
quote and with escapes, a name, or punctuation. The scanner is then right in both directions:

> `scan_line`: tokens that are written with a blank between them, in whatever way they can be spelled,
> are read as these tokens, each where its text begins;
>
> `Laid.of_scanFrom`: a text that is read is made of ASCII blanks and of texts that spell the tokens,
> and the offsets are where these begin.

Reading takes a name, a numeral or punctuation as far as it goes, so the first direction rests on the
blanks: no token but a string holds one, and a string ends with its quote.
-/

namespace AppletHost

open Scanning (Solid)
open Text (isAsciiBlank byteLength)

/-! ## Byte lengths -/

namespace Text

theorem byteLength_eq (cs : List Char) : byteLength cs = (String.ofList cs).utf8ByteSize := by
  have hfrom : ∀ n, cs.foldl (fun n c => n + c.utf8Size) n = n + (String.ofList cs).utf8ByteSize := by
    induction cs with
    | nil => exact fun n => rfl
    | cons c cs ih =>
      intro n
      rw [List.foldl_cons, ih, String.ofList_cons, String.utf8ByteSize_append,
        String.utf8ByteSize_singleton, Nat.add_assoc]
  rw [byteLength, hfrom, Nat.zero_add]

@[simp]
theorem byteLength_append (cs ds : List Char) :
    byteLength (cs ++ ds) = byteLength cs + byteLength ds := by
  rw [byteLength_eq, byteLength_eq, byteLength_eq, String.ofList_append, String.utf8ByteSize_append]

theorem byteLength_cons (c : Char) (cs : List Char) :
    byteLength (c :: cs) = c.utf8Size + byteLength cs := by
  rw [← List.singleton_append, byteLength_append]
  simp [byteLength]

theorem byteLength_pos {cs : List Char} (h : cs ≠ []) : 0 < byteLength cs := by
  obtain ⟨c, cs, rfl⟩ := List.exists_cons_of_ne_nil h
  rw [byteLength_cons]
  have := c.utf8Size_pos
  omega

/-- Where a text goes on behind another one there is a character boundary. -/
theorem isValid_byteLength {source : String} {before after : List Char}
    (h : source.toList = before ++ after) :
    (String.Pos.Raw.mk (byteLength before)).IsValid source := by
  refine String.Pos.Raw.isValid_iff_exists_append.2 ⟨String.ofList before, String.ofList after, ?_, ?_⟩
  · rw [← String.ofList_append, ← h, String.ofList_toList]
  · rw [byteLength_eq]
    rfl

end Text

/-! ## Spellings -/

/-- A text between quotes, and the value that it stands for. -/
inductive Quoted (quote : Char) : List Char → List Char → Prop
  | nil : Quoted quote [] []
  | plain {c : Char} {value text : List Char} (hquote : c ≠ quote) (hescape : c ≠ '\\')
      (h : Quoted quote value text) : Quoted quote (c :: value) (c :: text)
  | escaped (e : Char) {value text : List Char} (h : Quoted quote value text) :
      Quoted quote (unescape e :: value) ('\\' :: e :: text)

/-- The text stands for the token. -/
inductive Spells : Token → List Char → Prop
  | num {c : Char} {cs : List Char} {x : Float} (hfirst : c.isDigit) (hrest : ∀ d ∈ cs, isNumeral d)
      (hvalue : Number.magnitudeOf? (c :: cs) = some x) : Spells (.num x) (c :: cs)
  | str {quote : Char} {value text : List Char} (hquote : quote = '"' ∨ quote = '\'')
      (h : Quoted quote value text) : Spells (.str (String.ofList value)) (quote :: (text ++ [quote]))
  | ident {c : Char} {cs : List Char} (hfirst : isNameStart c) (hrest : ∀ d ∈ cs, isNameRest d) :
      Spells (.ident (String.ofList (c :: cs))) (c :: cs)
  | punct (p : Punct) : Spells (.punct p) p.text.toList

/-- A character between double quotes. -/
def escapeQuoted (c : Char) : List Char := if c = '\\' ∨ c = '"' then ['\\', c] else [c]

/-- A string in double quotes. -/
def inQuotes (s : String) : List Char := '"' :: (s.toList.flatMap escapeQuoted ++ ['"'])

/-- A token together with a text that stands for it. -/
structure Word where
  token : Token
  text : List Char
  spells : Spells token text

/-- Words with a blank after each. -/
def lead (ws : List Word) : List Char := ws.flatMap fun w => w.text ++ [' ']

/-- Words with a blank between each two. -/
def line : List Word → List Char
  | [] => []
  | [w] => w.text
  | w :: v :: ws => w.text ++ ' ' :: line (v :: ws)

/-- The text, which begins at that byte, is made of blanks and of texts for these lexemes. -/
inductive Laid : Nat → List Char → List Lexeme → Prop
  | blanks {o : Nat} {cs : List Char} (hblank : ∀ c ∈ cs, isAsciiBlank c) : Laid o cs []
  | lexeme {o : Nat} {gap text rest : List Char} {token : Token} {ts : List Lexeme}
      (hblank : ∀ c ∈ gap, isAsciiBlank c) (hspells : Spells token text)
      (hrest : Laid (o + byteLength gap + byteLength text) rest ts) :
      Laid o (gap ++ text ++ rest) (⟨o + byteLength gap, token⟩ :: ts)

/-- Between double quotes every text may be written, quotes and backslashes being escaped. -/
theorem quoted_escape (cs : List Char) : Quoted '"' cs (cs.flatMap escapeQuoted) := by
  induction cs with
  | nil => exact .nil
  | cons c cs ih =>
    rw [List.flatMap_cons, escapeQuoted]
    split
    next hc =>
      have hsame : unescape c = c := by rcases hc with rfl | rfl <;> rfl
      have hescaped := Quoted.escaped c ih
      rwa [hsame] at hescaped
    next hc =>
      rw [not_or] at hc
      exact .plain hc.2 hc.1 ih

theorem spells_inQuotes (s : String) : Spells (.str s) (inQuotes s) := by
  have hspells := Spells.str (.inl rfl) (quoted_escape s.toList)
  rwa [String.ofList_toList] at hspells

/-! ## One token -/

section Token

variable {quote : Char} {value text rest cs : List Char}

theorem not_isAsciiBlank_of_solid {c : Char} (h : Solid c) : ¬ isAsciiBlank c := by
  intro hblank
  simp only [isAsciiBlank, Bool.or_eq_true, beq_iff_eq] at hblank
  rcases hblank with (((rfl | rfl) | rfl) | rfl) | rfl <;> exact absurd h (by decide)

/-- What begins a name begins neither a number nor a string. -/
theorem not_digit_of_isNameStart {c : Char} (h : isNameStart c) :
    ¬ c.isDigit ∧ ¬ (c = '"' ∨ c = '\'') := by
  simp only [isNameStart, Bool.or_eq_true, beq_iff_eq] at h
  rcases h with (halpha | rfl) | rfl
  · have hrange := Scanning.toNat_of_isAlpha halpha
    refine ⟨fun hdigit => ?_, ?_⟩
    · have := Scanning.toNat_of_isDigit hdigit
      omega
    · rintro (rfl | rfl) <;> exact absurd halpha (by decide)
  · decide
  · decide

/-- Punctuation begins like no other token. -/
theorem not_word_of_punct {p : Punct} {c : Char} {word : List Char} (h : p.text.toList = c :: word) :
    ¬ c.isDigit ∧ ¬ (c = '"' ∨ c = '\'') ∧ ¬ isNameStart c := by
  have hfirst : p.text.toList.head?.all fun c =>
      decide (¬ c.isDigit ∧ ¬ (c = '"' ∨ c = '\'') ∧ ¬ isNameStart c) := by
    cases p <;> decide
  rw [h] at hfirst
  exact of_decide_eq_true hfirst

/-- A string ends at the first quote that is not escaped. -/
theorem stringBody?_quoted (h : Quoted quote value text) (hquote : quote ≠ '\\') (rest : List Char) :
    stringBody? quote (text ++ quote :: rest) = some (value, text ++ [quote], rest) := by
  induction h with
  | nil =>
    rw [List.nil_append, stringBody?.eq_def]
    simp only [if_true, List.nil_append]
  | plain hne hescape _ ih =>
    rw [List.cons_append, stringBody?.eq_def]
    simp only [if_neg hne, if_neg hescape, ih]
    rfl
  | escaped e _ ih =>
    rw [List.cons_append, List.cons_append, stringBody?.eq_def]
    simp only [if_neg hquote.symm, if_true, ih]
    rfl

/-- What the scanner reads as a string was quoted: its closing quote is the last character, and none
before it ends it. -/
theorem quoted_of_stringBody? (h : stringBody? quote cs = some (value, text, rest)) :
    ∃ body, text = body ++ [quote] ∧ Quoted quote value body := by
  fun_induction stringBody? quote cs generalizing value text rest with
  | case1 => cases h
  | case2 cs =>
    cases h
    exact ⟨[], rfl, .nil⟩
  | case3 => cases h
  | case4 e cs _ ih =>
    obtain ⟨⟨v, t, r⟩, hbody, heq⟩ := Option.map_eq_some_iff.1 h
    cases heq
    obtain ⟨body, rfl, hquoted⟩ := ih hbody
    exact ⟨'\\' :: e :: body, rfl, .escaped e hquoted⟩
  | case5 c cs hquote hescape ih =>
    obtain ⟨⟨v, t, r⟩, hbody, heq⟩ := Option.map_eq_some_iff.1 h
    cases heq
    obtain ⟨body, rfl, hquoted⟩ := ih hbody
    exact ⟨c :: body, rfl, .plain hquote hescape hquoted⟩

/-- Punctuation does not go on with a blank. -/
theorem punct?_before_blank (p : Punct) (hrest : ∀ d ∈ rest.head?, isAsciiBlank d) :
    punct? (p.text.toList ++ rest) = some (p, rest) := by
  have halone : punct? p.text.toList = some (p, []) := by cases p <;> decide
  unfold punct? at halone ⊢
  obtain ⟨l₁, q, l₂, hall, hq, hl₁⟩ := List.findSome?_eq_some_iff.1 halone
  obtain ⟨r, -, heq⟩ := Option.map_eq_some_iff.1 hq
  obtain ⟨rfl, -⟩ := Prod.mk.inj heq
  refine List.findSome?_eq_some_iff.2 ⟨l₁, q, l₂, hall, ?_, fun x hx => ?_⟩
  · rw [Text.startsWith?_eq_some_iff.2 rfl]
    rfl
  · have halone := hl₁ x hx
    rw [Option.map_eq_none_iff, ← Option.not_isSome_iff_eq_none, Option.isSome_iff_exists] at halone ⊢
    rintro ⟨more, hmore⟩
    rw [Text.startsWith?_eq_some_iff] at hmore
    refine halone ?_
    rcases List.append_eq_append_iff.1 hmore with ⟨mid, hx', hmid⟩ | ⟨mid, hq', -⟩
    · cases mid with
      | nil => exact ⟨[], Text.startsWith?_eq_some_iff.2 (by rw [hx', List.append_nil, List.append_nil])⟩
      | cons d mid =>
        have hsolid : Solid d := Scanning.solid_text x d (by simp [hx'])
        exact absurd (hrest d (by rw [hmid]; rfl)) (not_isAsciiBlank_of_solid hsolid)
    · exact ⟨mid, Text.startsWith?_eq_some_iff.2 hq'⟩

/-- What goes on as long as its characters do ends at a blank. -/
theorem cut_before_blank {p : Char → Bool} (hp : ∀ d, p d → Solid d) (hcs : ∀ d ∈ cs, p d)
    (hrest : ∀ d ∈ rest.head?, isAsciiBlank d) :
    (cs ++ rest).takeWhile p = cs ∧ (cs ++ rest).dropWhile p = rest := by
  refine Scanning.takeWhile_cut hcs (fun d hd => ?_) (List.append_nil rest).symm
  by_contra hpd
  exact not_isAsciiBlank_of_solid (hp d (by simpa using hpd)) (hrest d hd)

/-- A token is read in front of a blank, however it is spelled. -/
theorem token_of_spells {t : Token} (h : Spells t text) (hrest : ∀ d ∈ rest.head?, isAsciiBlank d)
    (o : Nat) : ∃ c cs, ∃ s : Scanned (c :: cs), text ++ rest = c :: cs ∧ token o c cs = .ok s ∧
      s.token = t ∧ s.text = text ∧ s.rest = rest := by
  cases h with
  | @num c cs x hfirst hnumeral hvalue =>
    obtain ⟨htake, hdrop⟩ :=
      cut_before_blank (fun _ => Scanning.solid_of_isNumeral) hnumeral hrest
    refine ⟨c, cs ++ rest, ⟨.num x, c :: cs, rest, rfl, List.cons_ne_nil _ _⟩, rfl, ?_, rfl, rfl, rfl⟩
    simp only [token, if_pos hfirst, htake, hdrop, hvalue]
  | @str quote value text hquote hquoted =>
    have hdigit : ¬ quote.isDigit := by rcases hquote with rfl | rfl <;> decide
    have hbody := stringBody?_quoted hquoted (by rcases hquote with rfl | rfl <;> decide) rest
    refine ⟨quote, text ++ quote :: rest, ⟨.str (String.ofList value), quote :: (text ++ [quote]),
      rest, by simp, List.cons_ne_nil _ _⟩, by simp, ?_, rfl, rfl, rfl⟩
    rw [token, if_neg hdigit, if_pos hquote]
    split
    next hnone => rw [hbody] at hnone; cases hnone
    next hsome => rw [hbody] at hsome; cases hsome; rfl
  | @ident c cs hfirst hname =>
    obtain ⟨hdigit, hquote⟩ := not_digit_of_isNameStart hfirst
    obtain ⟨htake, hdrop⟩ := cut_before_blank (fun _ => Scanning.solid_of_isNameRest) hname hrest
    refine ⟨c, cs ++ rest, ⟨.ident (String.ofList (c :: cs)), c :: cs, rest, rfl,
      List.cons_ne_nil _ _⟩, rfl, ?_, rfl, rfl, rfl⟩
    simp only [token, if_neg hdigit, if_neg hquote, if_pos hfirst, htake, hdrop]
  | punct p =>
    have hpunct := punct?_before_blank p hrest
    obtain ⟨c, word, hword⟩ := List.exists_cons_of_ne_nil p.text_toList_ne_nil
    have hother := not_word_of_punct hword
    have htext : p.text.toList ++ rest = c :: (word ++ rest) := by rw [hword]; rfl
    refine ⟨c, word ++ rest, ⟨.punct p, p.text.toList, rest, htext, p.text_toList_ne_nil⟩, htext,
      ?_, rfl, rfl, rfl⟩
    rw [htext] at hpunct
    rw [token, if_neg hother.1, if_neg hother.2.1, if_neg hother.2.2]
    split
    next hnone => rw [hpunct] at hnone; cases hnone
    next hsome => rw [hpunct] at hsome; cases hsome; rfl

/-- What is read as a token spells it. -/
theorem spells_of_token {o : Nat} {c : Char} {s : Scanned (c :: cs)} (h : token o c cs = .ok s) :
    Spells s.token s.text := by
  unfold token at h
  split at h
  next hdigit =>
    dsimp only at h
    split at h
    next => cases h
    next x hvalue =>
      cases h
      exact .num hdigit (fun _ => List.mem_takeWhile_imp) hvalue
  next =>
    split at h
    next hquote =>
      split at h
      next => cases h
      next value text rest hbody =>
        cases h
        obtain ⟨body, rfl, hquoted⟩ := quoted_of_stringBody? hbody
        exact .str hquote hquoted
    next =>
      split at h
      next hname =>
        cases h
        exact .ident hname fun _ => List.mem_takeWhile_imp
      next =>
        split at h
        next => cases h
        next p rest hpunct =>
          cases h
          exact .punct p

end Token

/-! ## A line of words -/

variable {o : Nat} {cs : List Char} {ts : List Lexeme}

/-- A word before a blank is scanned as its token, at its own offset, and the scan goes on behind
it. -/
theorem scanFrom_word (w : Word) {rest : List Char} (hrest : ∀ d ∈ rest.head?, isAsciiBlank d)
    (h : scanFrom (o + byteLength w.text) rest = .ok ts) :
    scanFrom o (w.text ++ rest) = .ok (⟨o, w.token⟩ :: ts) := by
  obtain ⟨c, cs, s, htext, htoken, hs, hsText, hsRest⟩ := token_of_spells w.spells hrest o
  rw [htext, scanFrom, if_neg (not_isAsciiBlank_of_solid (Scanning.token_first htoken)), htoken]
  simp only [hsText, hsRest, h, hs]

/-- Words on a line are read as their tokens, each where its text begins. -/
theorem scanFrom_line (o : Nat) (ws : List Word) : scanFrom o (line ws) =
    .ok (ws.mapIdx fun i w => ⟨o + byteLength (lead (ws.take i)), w.token⟩) := by
  induction ws generalizing o with
  | nil => exact Scanning.scanFrom_nil o
  | cons w ws ih =>
    rw [List.mapIdx_cons]
    cases ws with
    | nil =>
      rw [line, ← List.append_nil w.text]
      exact scanFrom_word w nofun (Scanning.scanFrom_nil _)
    | cons v ws =>
      rw [line]
      refine scanFrom_word w (by rintro d ⟨⟩; rfl) ?_
      rw [Scanning.scanFrom_blank rfl, ih]
      -- one word and one blank more stand in front of each of the others
      have hlead : ∀ i, o + byteLength w.text + ' '.utf8Size + byteLength (lead ((v :: ws).take i)) =
          o + byteLength (lead ((w :: v :: ws).take (i + 1))) := by
        intro i
        rw [List.take_succ_cons, lead, lead, List.flatMap_cons, Text.byteLength_append,
          Text.byteLength_append, ← Nat.add_assoc, ← Nat.add_assoc]
        rfl
      simp only [hlead]

/-- In front of a word on a line there are the words before it, with a blank behind each. -/
theorem line_append (front : List Word) (w : Word) (back : List Word) :
    ∃ after, line (front ++ w :: back) = lead front ++ w.text ++ after := by
  induction front with
  | nil =>
    cases back with
    | nil => exact ⟨[], (List.append_nil _).symm⟩
    | cons v back => exact ⟨' ' :: line (v :: back), rfl⟩
  | cons u front ih =>
    obtain ⟨after, hafter⟩ := ih
    obtain ⟨v, ws, hcons⟩ : ∃ v ws, front ++ w :: back = v :: ws :=
      List.exists_cons_of_ne_nil (List.append_ne_nil_of_right_ne_nil _ (List.cons_ne_nil _ _))
    refine ⟨after, ?_⟩
    rw [List.cons_append, hcons, line, ← hcons, hafter]
    simp [lead]

/-! ## Every text -/

/-- Blanks in front of a text. -/
theorem Laid.cons_blank {c : Char} (hc : isAsciiBlank c) (h : Laid (o + c.utf8Size) cs ts) :
    Laid o (c :: cs) ts := by
  cases h with
  | blanks hblank => exact .blanks (List.forall_mem_cons.2 ⟨hc, hblank⟩)
  | @lexeme _ gap text rest token ts hblank hspells hrest =>
    have hgap : o + c.utf8Size + byteLength gap = o + byteLength (c :: gap) := by
      rw [Text.byteLength_cons, Nat.add_assoc]
    rw [hgap] at hrest ⊢
    have hblanks : ∀ d ∈ c :: gap, isAsciiBlank d := List.forall_mem_cons.2 ⟨hc, hblank⟩
    have hlaid := Laid.lexeme hblanks hspells hrest
    exact hlaid

/-- Whatever is scanned lies in the text as its lexemes say. -/
theorem Laid.of_scanFrom (h : scanFrom o cs = .ok ts) : Laid o cs ts := by
  induction hlen : cs.length using Nat.strong_induction_on generalizing o cs ts with
  | _ n ih =>
    subst hlen
    cases cs with
    | nil =>
      rw [Scanning.scanFrom_nil] at h
      cases h
      exact .blanks (List.forall_mem_nil _)
    | cons c cs =>
      by_cases hc : isAsciiBlank c
      · rw [Scanning.scanFrom_blank hc] at h
        exact .cons_blank hc (ih cs.length (Nat.lt_succ_self _) h rfl)
      · obtain ⟨s, rest, htoken, hrest, rfl⟩ := Scanning.scanFrom_token hc h
        have hlaid := ih s.rest.length s.rest_length_lt hrest rfl
        have hnone : ∀ d ∈ ([] : List Char), isAsciiBlank d := List.forall_mem_nil _
        have hhere := Laid.lexeme hnone (spells_of_token htoken) hlaid
        rwa [List.nil_append, s.text_append_rest] at hhere

theorem Spells.ne_nil {t : Token} {text : List Char} (h : Spells t text) : text ≠ [] := by
  cases h with
  | punct p => exact p.text_toList_ne_nil
  | _ => exact List.cons_ne_nil _ _

/-- Lexemes lie at or behind the offset at which scanning began. -/
theorem Laid.le_offset (h : Laid o cs ts) : ∀ l ∈ ts, o ≤ l.offset := by
  induction h with
  | blanks => exact List.forall_mem_nil _
  | lexeme hblank hspells hrest ih =>
    refine List.forall_mem_cons.2 ⟨Nat.le_add_right _ _, fun l hl => ?_⟩
    have := ih l hl
    omega

theorem Laid.pairwise_offset (h : Laid o cs ts) : (ts.map Lexeme.offset).Pairwise (· < ·) := by
  induction h with
  | blanks => exact .nil
  | lexeme hblank hspells hrest ih =>
    refine List.pairwise_cons.2 ⟨fun offset hoffset => ?_, ih⟩
    obtain ⟨l, hl, rfl⟩ := List.mem_map.1 hoffset
    have hpos := Text.byteLength_pos hspells.ne_nil
    have hle := hrest.le_offset l hl
    dsimp only
    omega

/-- The text of a lexeme begins at its offset. -/
theorem Laid.spelled (h : Laid o cs ts) : ∀ l ∈ ts, ∃ before text after,
    cs = before ++ text ++ after ∧ l.offset = o + byteLength before ∧ Spells l.token text := by
  induction h with
  | blanks => exact List.forall_mem_nil _
  | @lexeme o gap text rest token ts hblank hspells hrest ih =>
    refine List.forall_mem_cons.2 ⟨⟨gap, text, rest, rfl, rfl, hspells⟩, fun l hl => ?_⟩
    obtain ⟨before, text', after, rfl, hoffset, hspells'⟩ := ih l hl
    refine ⟨gap ++ text ++ before, text', after, by simp only [List.append_assoc], ?_, hspells'⟩
    simp only [hoffset, Text.byteLength_append, Nat.add_assoc]

/--
The scanner and the spelling of tokens agree.

* Tokens that are written in a line with a blank between each two, in any of their spellings, are read
  as exactly these tokens, each at the byte where its text stands in the line. In double quotes with
  `\\` and `"` escaped every string has a spelling; names and punctuation are their own, and a numeral is
  any that denotes a number.
* Whatever text is read consists of ASCII blanks and of texts that spell the tokens, in order. The
  offsets are strictly increasing, lie on character boundaries, and the text of each token stands at its
  offset.
-/
theorem scan_spelled :
    (∀ ws : List Word, scan (String.ofList (line ws)) =
      .ok (ws.mapIdx fun i w => ⟨byteLength (lead (ws.take i)), w.token⟩)) ∧
    (∀ front w back, ∃ after, line (front ++ w :: back) = lead front ++ w.text ++ after) ∧
    (∀ s : String, Spells (.str s) (inQuotes s)) ∧
    ∀ source ts, scan source = .ok ts →
      Laid 0 source.toList ts ∧ (ts.map Lexeme.offset).Pairwise (· < ·) ∧
      ∀ l ∈ ts, (String.Pos.Raw.mk l.offset).IsValid source ∧
        ∃ before text after, source.toList = before ++ text ++ after ∧
          l.offset = byteLength before ∧ Spells l.token text := by
  refine ⟨fun ws => ?_, line_append, spells_inQuotes, fun source ts h => ?_⟩
  · rw [scan, String.toList_ofList, scanFrom_line]
    simp only [Nat.zero_add]
  · have hlaid := Laid.of_scanFrom h
    refine ⟨hlaid, hlaid.pairwise_offset, fun l hl => ?_⟩
    obtain ⟨before, text, after, hsource, hoffset, hspells⟩ := hlaid.spelled l hl
    rw [Nat.zero_add] at hoffset
    refine ⟨?_, before, text, after, hsource, hoffset, hspells⟩
    rw [List.append_assoc] at hsource
    rw [hoffset]
    exact Text.isValid_byteLength hsource

/-- A text with a letter of two bytes, an escape and an operator of three characters. -/
theorem scan_spelled_accent :
    let source := "\"é\\\"\"!==\t$x "
    let ts : List Lexeme := [⟨0, .str "é\""⟩, ⟨6, .punct .strictNe⟩, ⟨10, .ident "$x"⟩]
    scan source = .ok ts ∧
      Laid 0 source.toList ts ∧ (ts.map Lexeme.offset).Pairwise (· < ·) ∧
      ∀ l ∈ ts, (String.Pos.Raw.mk l.offset).IsValid source ∧
        ∃ before text after, source.toList = before ++ text ++ after ∧
          l.offset = byteLength before ∧ Spells l.token text := by
  intro source ts
  have hscan : scan source = .ok ts := by cbv
  exact ⟨hscan, scan_spelled.2.2.2 source ts hscan⟩

end AppletHost
