import AppletHost.Proofs.Expr.Scanning
import AppletHost.Template.Render

/-!
# Start tags read back

A start tag is read by three scanners: one looks for the `>` that ends it, one splits off its name,
one takes the attributes apart. Where names are plain and no value holds the double quotes that it is
written in, all three pass over a value as a whole, whatever else is in it. The induction is on the
attributes, each of which is one `attributeSource`:

> `tagEnd?_sources`: the end of the tag is its own last character;
> `splitStartTag_sources`: its name ends where the attributes begin, and it closes nothing;
> `attributes_sources`: the attributes are those that were written.

A rendered element has the data in its attribute values, each escaped. An escaped value holds no
double quote (`quote_notMem_escape`), and unescaping gives back the value it was (`unescape_escape`).
So data cannot close an attribute, add one or end the tag:

> `start_tag_read_back`: an element with plain names is read as the tag and the attributes it has.
-/

namespace AppletHost.Template

open Markup (tagEnd? splitStartTag skipAscii isQuote isNameChar attributeValue)
open Text (isBlank isAsciiBlank trim trimLeft trimRight)

/-! ## Escaped values -/

/-- The text that an escaped text stands for, read once from left to right. -/
def unescape : List Char → List Char
  | [] => []
  | '&' :: 'a' :: 'm' :: 'p' :: ';' :: cs => '&' :: unescape cs
  | '&' :: 'l' :: 't' :: ';' :: cs => '<' :: unescape cs
  | '&' :: 'g' :: 't' :: ';' :: cs => '>' :: unescape cs
  | '&' :: 'q' :: 'u' :: 'o' :: 't' :: ';' :: cs => '"' :: unescape cs
  | c :: cs => c :: unescape cs

/-- What does not begin with an ampersand stands for itself. -/
theorem unescape_cons {c : Char} (h : c ≠ '&') (cs : List Char) :
    unescape (c :: cs) = c :: unescape cs := by
  rw [unescape]
  all_goals exact fun _ heq => absurd heq h

/-- A character without a meaning in markup is written as it is. -/
theorem escapeChar_of_notMem {c : Char} (h : c ∉ ['&', '<', '>', '"']) : escapeChar c = [c] := by
  simp only [List.mem_cons, List.not_mem_nil, or_false, not_or] at h
  obtain ⟨hamp, hlt, hgt, hquote⟩ := h
  rw [escapeChar, if_neg hamp, if_neg hlt, if_neg hgt, if_neg hquote]

/-- Every character reads back from its escape, whatever follows. -/
theorem unescape_escapeChar_append (c : Char) (cs : List Char) :
    unescape (escapeChar c ++ cs) = c :: unescape cs := by
  by_cases h : c ∈ ['&', '<', '>', '"']
  · simp only [List.mem_cons, List.not_mem_nil, or_false] at h
    rcases h with rfl | rfl | rfl | rfl <;> rfl
  · rw [escapeChar_of_notMem h]
    exact unescape_cons (fun hamp => h (by simp [hamp])) cs

/-- No escape looks like another one, nor does a text that looks like an escape stay as it is. -/
theorem unescape_escape (value : List Char) : unescape (escape value) = value := by
  induction value with
  | nil => rfl
  | cons c value ih =>
    rw [escape] at ih ⊢
    rw [List.flatMap_cons, unescape_escapeChar_append, ih]

/-- An escaped value does not hold the quote that ends it. -/
theorem quote_notMem_escape (value : List Char) : '"' ∉ escape value := by
  intro hmem
  obtain ⟨c, -, hc⟩ := List.mem_flatMap.1 hmem
  by_cases h : c ∈ ['&', '<', '>', '"']
  · simp only [List.mem_cons, List.not_mem_nil, or_false] at h
    rcases h with rfl | rfl | rfl | rfl <;> exact absurd hc (by decide)
  · rw [escapeChar_of_notMem h, List.mem_singleton] at hc
    exact h (by simp [← hc])

/-! ## Plain names -/

/-- The characters with a meaning of their own in a start tag, beside blanks. -/
def tagSigns : List Char := ['"', '\'', '=', '/', '<', '>']

/-- A character with no meaning of its own in a start tag. -/
def isPlainChar (c : Char) : Bool := !isBlank c && !tagSigns.contains c

/-- A name of a tag or an attribute that is read as one. -/
def IsPlainName (name : String) : Prop := name ≠ "" ∧ ∀ c ∈ name.toList, isPlainChar c

instance (name : String) : Decidable (IsPlainName name) :=
  decidable_of_iff (name ≠ "" ∧ name.toList.all isPlainChar)
    (by rw [IsPlainName, List.all_eq_true])

/-- The blanks of a tag are among those that trimming knows. -/
theorem isBlank_of_isAsciiBlank {c : Char} (h : isAsciiBlank c) : isBlank c := by
  simp only [isAsciiBlank, Bool.or_eq_true, beq_iff_eq] at h
  rcases h with (((rfl | rfl) | rfl) | rfl) | rfl <;> decide

section Plain

variable {c : Char}

theorem not_isBlank_of_isPlainChar (h : isPlainChar c) : isBlank c = false := by
  rw [isPlainChar, Bool.and_eq_true, Bool.not_eq_true'] at h
  exact h.1

/-- A plain character is none of the signs that a tag is made of, which is all that the readers of a
tag look for. -/
theorem notMem_of_isPlainChar (h : isPlainChar c) : c ∉ tagSigns := by
  simpa [isPlainChar] using (Bool.and_eq_true_iff.1 h).2

theorem ne_of_isPlainChar (h : isPlainChar c) {sign : Char} (hsign : sign ∈ tagSigns) :
    c ≠ sign :=
  fun heq => notMem_of_isPlainChar h (heq ▸ hsign)

theorem not_isQuote_of_isPlainChar (h : isPlainChar c) : isQuote c = false := by
  have hdouble : c ≠ '"' := ne_of_isPlainChar h (by decide)
  have hsingle : c ≠ '\'' := ne_of_isPlainChar h (by decide)
  simp [isQuote, hdouble, hsingle]

theorem not_isAsciiBlank_of_isPlainChar (h : isPlainChar c) : isAsciiBlank c = false := by
  have hblank := not_isBlank_of_isPlainChar h
  rw [Bool.eq_false_iff] at hblank ⊢
  exact fun hascii => hblank (isBlank_of_isAsciiBlank hascii)

theorem isNameChar_of_isPlainChar (h : isPlainChar c) : isNameChar c := by
  have hequals : c ≠ '=' := ne_of_isPlainChar h (by decide)
  have hslash : c ≠ '/' := ne_of_isPlainChar h (by decide)
  simp [isNameChar, not_isAsciiBlank_of_isPlainChar h, hequals, hslash]

end Plain

/-- A plain name has a first character, and that is a plain one. -/
theorem IsPlainName.exists_cons {name : String} (h : IsPlainName name) :
    ∃ c cs, name.toList = c :: cs ∧ isPlainChar c := by
  obtain ⟨hne, hplain⟩ := h
  cases hname : name.toList with
  | nil => exact absurd (String.toList_eq_nil_iff.1 hname) hne
  | cons c cs => exact ⟨c, cs, rfl, hplain c (by rw [hname]; exact List.mem_cons_self)⟩

/-! ## The end of the tag -/

/-- An attribute as it is written behind a tag: its value, if it has one, in double quotes. -/
def attributeSource (a : Markup.Attribute) : List Char :=
  ' ' :: (a.name.toList ++ match a.value with
    | none => []
    | some value => '=' :: '"' :: (value.toList ++ ['"']))

/-- An attribute that is read as one: nothing in its value ends the value. -/
structure IsPlainAttribute (a : Markup.Attribute) : Prop where
  name : IsPlainName a.name
  value : ∀ value ∈ a.value, '"' ∉ value.toList

instance (a : Markup.Attribute) : Decidable (IsPlainAttribute a) :=
  decidable_of_iff (IsPlainName a.name ∧ ∀ value ∈ a.value, '"' ∉ value.toList)
    ⟨fun h => ⟨h.1, h.2⟩, fun h => ⟨h.name, h.value⟩⟩

section TagEnd

variable {rest inside after : List Char}

/-- What is neither a quote nor a `>` is passed over. -/
theorem tagEnd?_cons {c : Char} (hquote : isQuote c = false) (hgt : c ≠ '>')
    (hrest : tagEnd? none rest = some (inside, after)) :
    tagEnd? none (c :: rest) = some (c :: inside, after) := by
  rw [tagEnd?]
  simp [hquote, hgt, hrest]

/-- A quoted value is passed over up to its closing quote. -/
theorem tagEnd?_quoted {value : List Char} (h : '"' ∉ value)
    (hrest : tagEnd? none rest = some (inside, after)) :
    tagEnd? (some '"') (value ++ '"' :: rest) = some (value ++ '"' :: inside, after) := by
  induction value with
  | nil => simp [tagEnd?, hrest]
  | cons c value ih =>
    obtain ⟨hc, hvalue⟩ := not_or.1 (mt List.mem_cons.2 h)
    rw [List.cons_append, tagEnd?]
    simp [Ne.symm hc, ih hvalue]

/-- The search for the end of a tag passes plain characters, which neither end it nor open a quote. -/
theorem tagEnd?_plain {cs : List Char} (h : ∀ c ∈ cs, isPlainChar c)
    (hrest : tagEnd? none rest = some (inside, after)) :
    tagEnd? none (cs ++ rest) = some (cs ++ inside, after) := by
  induction cs with
  | nil => exact hrest
  | cons c cs ih =>
    have hc := h c List.mem_cons_self
    exact tagEnd?_cons (not_isQuote_of_isPlainChar hc) (ne_of_isPlainChar hc (by decide))
      (ih fun d hd => h d (List.mem_cons_of_mem c hd))

/-- It passes an attribute as well: its value is quoted, and has no quote in it. -/
theorem tagEnd?_attributeSource {a : Markup.Attribute} (h : IsPlainAttribute a)
    (hrest : tagEnd? none rest = some (inside, after)) :
    tagEnd? none (attributeSource a ++ rest) = some (attributeSource a ++ inside, after) := by
  obtain ⟨name, value⟩ := a
  cases value with
  | none =>
    have hblank := tagEnd?_cons (c := ' ') (by decide) (by decide) (tagEnd?_plain h.name.2 hrest)
    simpa [attributeSource] using hblank
  | some value =>
    -- from the end: the value, its opening quote, the name, the blank in front
    have hvalue := tagEnd?_quoted (h.value value rfl) hrest
    have hopening : tagEnd? none ('"' :: (value.toList ++ '"' :: rest)) =
        some ('"' :: (value.toList ++ '"' :: inside), after) := by
      rw [tagEnd?]
      simp [isQuote, hvalue]
    have hname := tagEnd?_plain h.name.2
      (tagEnd?_cons (c := '=') (by decide) (by decide) hopening)
    have hblank := tagEnd?_cons (c := ' ') (by decide) (by decide) hname
    simpa [attributeSource] using hblank

/-- The tag ends at the `>` behind its last attribute. -/
theorem tagEnd?_sources {tag : String} (htag : IsPlainName tag) {attributes : List Markup.Attribute}
    (hplain : ∀ a ∈ attributes, IsPlainAttribute a) (rest : List Char) :
    tagEnd? none (tag.toList ++ attributes.flatMap attributeSource ++ '>' :: rest) =
      some (tag.toList ++ attributes.flatMap attributeSource, rest) := by
  have hattributes : tagEnd? none (attributes.flatMap attributeSource ++ '>' :: rest) =
      some (attributes.flatMap attributeSource, rest) := by
    induction attributes with
    | nil => rfl
    | cons a attributes ih =>
      rw [List.flatMap_cons, List.append_assoc]
      exact tagEnd?_attributeSource (hplain a List.mem_cons_self)
        (ih fun b hb => hplain b (List.mem_cons_of_mem a hb))
  rw [List.append_assoc]
  exact tagEnd?_plain htag.2 hattributes

end TagEnd

/-! ## The name of the tag -/

/-- The last character of a plain name is neither blank nor a slash. -/
theorem IsPlainName.exists_append {name : String} (h : IsPlainName name) :
    ∃ front last, name.toList = front ++ [last] ∧ isBlank last = false ∧ last ≠ '/' := by
  obtain ⟨c, cs, hcs, -⟩ := h.exists_cons
  have hne : name.toList ≠ [] := by simp [hcs]
  have hlast := h.2 _ (List.getLast_mem hne)
  exact ⟨name.toList.dropLast, name.toList.getLast hne, by simp [List.dropLast_append_getLast],
    not_isBlank_of_isPlainChar hlast, ne_of_isPlainChar hlast (by decide)⟩

/-- The last character of a start tag is neither blank nor a slash: it ends a name or a value. -/
theorem exists_sources_append {tag : String} (htag : IsPlainName tag)
    {attributes : List Markup.Attribute} (hplain : ∀ a ∈ attributes, IsPlainAttribute a) :
    ∃ front last, tag.toList ++ attributes.flatMap attributeSource = front ++ [last] ∧
      isBlank last = false ∧ last ≠ '/' := by
  rcases List.eq_nil_or_concat attributes with rfl | ⟨before, ⟨name, value⟩, rfl⟩
  · obtain ⟨front, last, hfront, hlast⟩ := htag.exists_append
    exact ⟨front, last, by simpa using hfront, hlast⟩
  · cases value with
    | none =>
      have hname : IsPlainName name := (hplain ⟨name, none⟩ (by simp)).name
      obtain ⟨front, last, hfront, hlast⟩ := hname.exists_append
      exact ⟨tag.toList ++ before.flatMap attributeSource ++ ' ' :: front, last,
        by simp [attributeSource, hfront], hlast⟩
    | some value =>
      refine ⟨tag.toList ++ before.flatMap attributeSource ++
        ' ' :: (name.toList ++ '=' :: '"' :: value.toList), '"', ?_, by decide, by decide⟩
      simp [attributeSource]

/-- The inside of a tag has no blanks to be trimmed, neither before its name nor behind its last
quote. -/
theorem trim_sources {tag : String} (htag : IsPlainName tag) {attributes : List Markup.Attribute}
    (hplain : ∀ a ∈ attributes, IsPlainAttribute a) :
    trim (tag.toList ++ attributes.flatMap attributeSource) =
      tag.toList ++ attributes.flatMap attributeSource := by
  obtain ⟨c, cs, hcs, hc⟩ := htag.exists_cons
  have hleft : trimLeft (tag.toList ++ attributes.flatMap attributeSource) =
      tag.toList ++ attributes.flatMap attributeSource := by
    rw [hcs, List.cons_append, trimLeft,
      List.dropWhile_cons_of_neg (by simp [not_isBlank_of_isPlainChar hc])]
  obtain ⟨front, last, hfront, hblank, -⟩ := exists_sources_append htag hplain
  rw [trim, hleft, hfront, Scanning.trimRight_append hblank]
  rfl

/-- Only the blank in front of the first attribute belongs to neither. -/
theorem dropWhile_sources {isSpace : Char → Bool} (hspace : isSpace ' ')
    (hname : ∀ c, isPlainChar c → isSpace c = false) {attributes : List Markup.Attribute}
    (hplain : ∀ a ∈ attributes, IsPlainAttribute a) :
    (attributes.flatMap attributeSource).dropWhile isSpace =
      (attributes.flatMap attributeSource).drop 1 := by
  cases attributes with
  | nil => rfl
  | cons a attributes =>
    obtain ⟨c, cs, hcs, hc⟩ := (hplain a List.mem_cons_self).name.exists_cons
    rw [List.flatMap_cons, attributeSource, hcs, List.cons_append,
      List.dropWhile_cons_of_pos hspace, List.cons_append, List.cons_append,
      List.dropWhile_cons_of_neg (by simp [hname c hc])]
    rfl

/-- The inside of a tag splits into its name and the sources of its attributes, and is not taken for
self-closing. -/
theorem splitStartTag_sources {tag : String} (htag : IsPlainName tag)
    {attributes : List Markup.Attribute} (hplain : ∀ a ∈ attributes, IsPlainAttribute a) :
    splitStartTag (tag.toList ++ attributes.flatMap attributeSource) =
      ⟨tag.toList, (attributes.flatMap attributeSource).drop 1, false⟩ := by
  obtain ⟨front, last, hfront, -, hslash⟩ := exists_sources_append htag hplain
  have hopen : ((tag.toList ++ attributes.flatMap attributeSource).getLast? == some '/') =
      false := by
    rw [hfront, List.getLast?_concat]
    simpa using hslash
  have hsolid : ∀ c ∈ tag.toList, (!isBlank c) = true := by
    intro c hc
    rw [not_isBlank_of_isPlainChar (htag.2 c hc)]
    rfl
  -- the attributes begin with a blank, where the name ends
  have hblank : (attributes.flatMap attributeSource).takeWhile (fun c => !isBlank c) = [] ∧
      (attributes.flatMap attributeSource).dropWhile (fun c => !isBlank c) =
        attributes.flatMap attributeSource := by
    cases attributes with
    | nil => exact ⟨rfl, rfl⟩
    | cons a attributes => exact ⟨rfl, rfl⟩
  have htrim : trimLeft (attributes.flatMap attributeSource) =
      (attributes.flatMap attributeSource).drop 1 :=
    dropWhile_sources (by decide) (fun _ => not_isBlank_of_isPlainChar) hplain
  unfold splitStartTag
  simp only [trim_sources htag hplain, hopen, Bool.false_eq_true, if_false,
    List.takeWhile_append_of_pos hsolid, List.dropWhile_append_of_pos hsolid, hblank,
    List.append_nil, htrim]

/-! ## The attributes -/

/-- A name is read up to where it ends, which is where its value or the next name begins. -/
theorem attributes_of_name {name : String} (hname : IsPlainName name) {cs rest : List Char}
    (hskip : skipAscii cs = name.toList ++ rest) (hend : ∀ c ∈ rest.head?, isNameChar c = false) :
    (∀ after, skipAscii rest = '=' :: after → Markup.attributes cs =
      ⟨name, some (String.ofList (attributeValue (skipAscii after)).1)⟩ ::
        Markup.attributes (attributeValue (skipAscii after)).2) ∧
    ((∀ after, skipAscii rest ≠ '=' :: after) →
      Markup.attributes cs = ⟨name, none⟩ :: Markup.attributes (skipAscii rest)) := by
  obtain ⟨c, tail, htail, -⟩ := hname.exists_cons
  have hchar : ∀ d ∈ c :: tail, isNameChar d := fun d hd =>
    isNameChar_of_isPlainChar (hname.2 d (htail ▸ hd))
  have htailChar : ∀ d ∈ tail, isNameChar d := fun d hd => hchar d (List.mem_cons_of_mem c hd)
  have hnone : rest.takeWhile isNameChar = [] ∧ rest.dropWhile isNameChar = rest := by
    cases rest with
    | nil => exact ⟨rfl, rfl⟩
    | cons d rest => simp [hend d rfl]
  have hword : (tail ++ rest).takeWhile isNameChar = tail := by
    rw [List.takeWhile_append_of_pos htailChar, hnone.1, List.append_nil]
  have hafter : (tail ++ rest).dropWhile isNameChar = rest := by
    rw [List.dropWhile_append_of_pos htailChar, hnone.2]
  rw [htail, List.cons_append] at hskip
  rw [Markup.attributes]
  split
  next hnil => cases hskip.symm.trans hnil
  next d after hcons =>
    obtain ⟨rfl, rfl⟩ := List.cons.inj (hskip.symm.trans hcons)
    rw [if_pos (hchar c List.mem_cons_self)]
    split
    next afterEquals heq =>
      rw [hafter] at heq
      refine ⟨fun after hequals => ?_, fun hnot => absurd heq (hnot _)⟩
      obtain ⟨-, rfl⟩ := List.cons.inj (heq.symm.trans hequals)
      rw [hword, ← htail, String.ofList_toList]
    next hnot =>
      rw [hafter] at hnot
      refine ⟨fun after hequals => absurd hequals (hnot _), fun _ => ?_⟩
      simp only [hword, hafter, ← htail, String.ofList_toList]

/-- A value is read up to the quote that closes it. -/
theorem attributeValue_quoted {value : List Char} (h : '"' ∉ value) (rest : List Char) :
    attributeValue (skipAscii ('"' :: (value ++ '"' :: rest))) = (value, rest) := by
  have hquoted : ∀ d ∈ value, (d != '"') = true := by
    intro d hd
    rw [bne_iff_ne]
    intro heq
    exact h (heq ▸ hd)
  rw [skipAscii, List.dropWhile_cons_of_neg (by decide), attributeValue, if_pos (by decide),
    List.takeWhile_append_of_pos hquoted, List.dropWhile_append_of_pos hquoted]
  simp

/-- The attributes are read as they were written, with or without the blank in front of them. -/
theorem attributes_sources {attributes : List Markup.Attribute}
    (hplain : ∀ a ∈ attributes, IsPlainAttribute a) :
    Markup.attributes ((attributes.flatMap attributeSource).drop 1) = attributes ∧
      Markup.attributes (attributes.flatMap attributeSource) = attributes := by
  induction attributes with
  | nil =>
    have hnil : Markup.attributes [] = [] := by cbv
    exact ⟨hnil, hnil⟩
  | cons a attributes ih =>
    have hrest : ∀ b ∈ attributes, IsPlainAttribute b := fun b hb =>
      hplain b (List.mem_cons_of_mem a hb)
    obtain ⟨hread, hreadAll⟩ := ih hrest
    have ha := hplain a List.mem_cons_self
    obtain ⟨name, value⟩ := a
    obtain ⟨c, cs, hcs, hc⟩ := ha.name.exists_cons
    have hsolid : ∀ rest, skipAscii (name.toList ++ rest) = name.toList ++ rest := by
      intro rest
      rw [hcs, List.cons_append, skipAscii,
        List.dropWhile_cons_of_neg (by simp [not_isAsciiBlank_of_isPlainChar hc])]
    have hblank : ∀ cs, skipAscii (' ' :: cs) = skipAscii cs := fun cs =>
      List.dropWhile_cons_of_pos (by decide)
    cases value with
    | none =>
      -- the next attribute begins with a blank, and its name with no `=`
      have hskip : skipAscii (attributes.flatMap attributeSource) =
          (attributes.flatMap attributeSource).drop 1 :=
        dropWhile_sources (by decide) (fun _ => not_isAsciiBlank_of_isPlainChar) hrest
      have hend : ∀ c ∈ (attributes.flatMap attributeSource).head?, isNameChar c = false := by
        cases attributes with
        | nil => simp
        | cons b attributes => simp [attributeSource, isNameChar, isAsciiBlank]
      have hnot : ∀ after, skipAscii (attributes.flatMap attributeSource) ≠ '=' :: after := by
        intro after
        rw [hskip]
        cases attributes with
        | nil => simp
        | cons b attributes =>
          obtain ⟨d, ds, hds, hd⟩ := (hrest b List.mem_cons_self).name.exists_cons
          have hne : d ≠ '=' := ne_of_isPlainChar hd (by decide)
          simp [attributeSource, hds, hne]
      have hbare : ∀ text, skipAscii text = name.toList ++ attributes.flatMap attributeSource →
          Markup.attributes text = ⟨name, none⟩ :: attributes := by
        intro text htext
        rw [(attributes_of_name ha.name htext hend).2 hnot, hskip, hread]
      constructor
      · exact hbare _ (by simpa [attributeSource] using hsolid _)
      · exact hbare _ (by simpa [attributeSource, hblank] using hsolid _)
    | some value =>
      have hvalued : ∀ text, skipAscii text = name.toList ++ '=' :: '"' :: (value.toList ++
          '"' :: attributes.flatMap attributeSource) →
            Markup.attributes text = ⟨name, some value⟩ :: attributes := by
        intro text htext
        have hequals : ∀ cs, skipAscii ('=' :: cs) = '=' :: cs := fun cs =>
          List.dropWhile_cons_of_neg (by decide)
        have hname := attributes_of_name ha.name htext (by simp [isNameChar])
        rw [hname.1 _ (hequals _), attributeValue_quoted (ha.value value rfl), hreadAll,
          String.ofList_toList]
      constructor
      · exact hvalued _ (by simpa [attributeSource] using hsolid _)
      · exact hvalued _ (by simpa [attributeSource, hblank] using hsolid _)

/-! ## Attributes with escaped values -/

/-- A name and a value as they are rendered behind a tag, the value escaped. -/
def attributeText (a : String × List Char) : List Char :=
  ' ' :: (a.1.toList ++ '=' :: '"' :: (escape a.2 ++ ['"']))

/-- The attribute that is written for a name and a value. -/
def escaped (a : String × List Char) : Markup.Attribute := ⟨a.1, some (String.ofList (escape a.2))⟩

/-- The text of rendered attributes is the source of attributes whose values are escaped. -/
theorem flatMap_attributeText (attributes : List (String × List Char)) :
    attributes.flatMap attributeText = (attributes.map escaped).flatMap attributeSource := by
  have hsource : attributeText = fun a => attributeSource (escaped a) := by
    funext a
    simp [attributeText, escaped, attributeSource]
  rw [List.flatMap_map, hsource]

/-- An escaped value has no quote in it, so an attribute with a plain name stays plain. -/
theorem isPlainAttribute_escaped {attributes : List (String × List Char)}
    (hnames : ∀ a ∈ attributes, IsPlainName a.1) :
    ∀ a ∈ attributes.map escaped, IsPlainAttribute a := by
  intro b hb
  obtain ⟨a, ha, rfl⟩ := List.mem_map.1 hb
  refine ⟨hnames a ha, fun value hvalue => ?_⟩
  obtain rfl := Option.some.inj hvalue
  rw [String.toList_ofList]
  exact quote_notMem_escape a.2

section Escaped

variable {tag : String} (htag : IsPlainName tag) {attributes : List (String × List Char)}
  (hnames : ∀ a ∈ attributes, IsPlainName a.1)

include hnames

/-- The attributes are read as they were written, with or without the blank in front of them. -/
theorem attributes_texts :
    Markup.attributes ((attributes.flatMap attributeText).drop 1) =
        attributes.map (fun a => ⟨a.1, some (String.ofList (escape a.2))⟩) ∧
      Markup.attributes (attributes.flatMap attributeText) =
        attributes.map fun a => ⟨a.1, some (String.ofList (escape a.2))⟩ := by
  rw [flatMap_attributeText]
  exact attributes_sources (isPlainAttribute_escaped hnames)

include htag

/-- The tag ends at the `>` behind its last attribute. -/
theorem tagEnd?_inside (rest : List Char) :
    tagEnd? none (tag.toList ++ attributes.flatMap attributeText ++ '>' :: rest) =
      some (tag.toList ++ attributes.flatMap attributeText, rest) := by
  rw [flatMap_attributeText]
  exact tagEnd?_sources htag (isPlainAttribute_escaped hnames) rest

/-- Hence a rendered start tag splits into the name of the element and the texts of its attributes. -/
theorem splitStartTag_inside :
    splitStartTag (tag.toList ++ attributes.flatMap attributeText) =
      ⟨tag.toList, (attributes.flatMap attributeText).drop 1, false⟩ := by
  rw [flatMap_attributeText]
  exact splitStartTag_sources htag (isPlainAttribute_escaped hnames)

end Escaped

/-! ## Elements -/

/-- The attributes of an element whose value is not empty, with their values. -/
def Head.valued (scope : Scope) (head : Head) : List (String × List Char) :=
  (head.attributes.map fun a => (a.name, renderSegments scope a.value)).filter fun a => a.2 != []

/-- A start tag is rendered as its name with the attributes that have a value in this scope. -/
theorem Head.renderInside_eq (scope : Scope) (head : Head) :
    head.renderInside scope = head.tag.toList ++ (head.valued scope).flatMap attributeText := by
  have hattributes : ∀ attributes : List Attribute,
      attributes.flatMap (Attribute.render scope) =
        ((attributes.map fun a => (a.name, renderSegments scope a.value)).filter
          fun a => a.2 != []).flatMap attributeText := by
    intro attributes
    induction attributes with
    | nil => rfl
    | cons a attributes ih =>
      rw [List.flatMap_cons, ih, List.map_cons, List.filter_cons, Attribute.render]
      by_cases hempty : renderSegments scope a.value = []
      · simp [hempty]
      · simp [hempty, attributeText]
  rw [renderInside, hattributes, valued]

/--
The start tag of an element with plain names, whatever the data are: it ends at its own last
character, with anything behind it; it has the name of the element and closes nothing; its attributes
are those of the element that have a value, in order, each with the value escaped. Unescaping gives
back the value.
-/
theorem start_tag_read_back (head : Head) (scope : Scope) (htag : IsPlainName head.tag)
    (hnames : ∀ a ∈ head.attributes, IsPlainName a.name) :
    ∃ inside, head.renderStart scope = '<' :: (inside ++ ['>']) ∧
      (∀ rest, tagEnd? none (inside ++ '>' :: rest) = some (inside, rest)) ∧
      (splitStartTag inside).name = head.tag.toList ∧
      (splitStartTag inside).selfClosing = false ∧
      Markup.attributes (splitStartTag inside).attributes =
        (head.valued scope).map (fun a => ⟨a.1, some (String.ofList (escape a.2))⟩) ∧
      ∀ value, unescape (escape value) = value := by
  have hvalued : ∀ a ∈ head.valued scope, IsPlainName a.1 := by
    intro a ha
    obtain ⟨b, hb, rfl⟩ := List.mem_map.1 (List.mem_filter.1 ha).1
    exact hnames b hb
  have hsplit := splitStartTag_inside htag hvalued
  refine ⟨head.renderInside scope, rfl, ?_⟩
  rw [Head.renderInside_eq, hsplit]
  exact ⟨tagEnd?_inside htag hvalued, rfl, rfl, (attributes_texts hvalued).1, unescape_escape⟩

/-- A value full of markup stays inside its quotes, and an empty one is left out. -/
theorem start_tag_read_back_quoted :
    let head : Head := ⟨"div", [⟨"title", [.literal "=", .binding ⟨"t", some (.ident "t")⟩]⟩,
      ⟨"class", [.binding ⟨"c", some (.ident "c")⟩]⟩], none, none⟩
    let scope : Scope := .root (.obj [("t", .str "\" id='x'>&lt;")])
    IsPlainName head.tag ∧ (∀ a ∈ head.attributes, IsPlainName a.name) ∧
      ∃ inside, head.renderStart scope = '<' :: (inside ++ ['>']) ∧
        tagEnd? none (inside ++ ['>']) = some (inside, []) ∧
        Markup.attributes (splitStartTag inside).attributes =
          [⟨"title", some "=&quot; id='x'&gt;&amp;lt;"⟩] := by
  intro head scope
  have htag : IsPlainName head.tag := by decide
  have hnames : ∀ a ∈ head.attributes, IsPlainName a.name := by decide
  obtain ⟨inside, hstart, hend, -, -, hattributes, -⟩ := start_tag_read_back head scope htag hnames
  exact ⟨htag, hnames, inside, hstart, hend [], hattributes.trans (by decide +kernel)⟩

end AppletHost.Template
