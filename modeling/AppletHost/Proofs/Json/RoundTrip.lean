import AppletHost.Json.Reader
import AppletHost.Json.Writer
import AppletHost.Proofs.Value.Canonical
import Mathlib.Tactic.SplitIfs

/-!
# Reading back what was written

The reader gives every value back from the text that the writer makes of it, as long as the value
holds no double (`Integral`), lists its fields in order (`Value.Canonical`) and nests no deeper than the
reader allows; a deeper one it refuses. Doubles stay out, since what is read back of them is a matter
of rounding.

What follows a value in a text is a separator, a closing bracket or nothing (`Ends`), which is where a
number stops. `Reads d inner v` says of a reader that it takes the text of `v` off the front of any such
text if `v` nests at most `d` levels, and fails otherwise. Both halves go through the loops over
items and fields together (`items?_write`, `fields?_write`): one item that is too deep spoils the whole
array. One level up, `d` becomes `d + 1`, as in `value?`.

> `readWithin?_text`: the text of a value is read as the value, if it nests at most `d` levels, and
> refused otherwise.
-/

namespace AppletHost.Json

open Text (Taken)

/-! ## Strings -/

/-- What was taken off the front of a text, and the rest, without a proof that the rest is shorter. -/
def taken {α : Type} {cs : List Char} (t : Option (Taken α cs)) : Option (α × List Char) :=
  t.map fun t => (t.value, t.rest)

/-- The digits of an escape read back as what they were written for. -/
theorem hexValue?_hexDigit {n : Nat} (h : n < 16) : hexValue? (hexDigit n) = some n := by
  revert n
  decide

/-- A control character is read back from its escape with four digits. -/
theorem unicode?_control {c : Char} (h : c.toNat < 0x20) (rest : List Char) :
    unicode? ('0' :: '0' :: hexDigit (c.toNat / 16) :: hexDigit (c.toNat % 16) :: rest) =
      some (c, rest) := by
  have hhigh := hexValue?_hexDigit (show c.toNat / 16 < 16 by omega)
  have hlow := hexValue?_hexDigit (show c.toNat % 16 < 16 by omega)
  have hzero : hexValue? '0' = some 0 := by decide
  have hunit : unit? ('0' :: '0' :: hexDigit (c.toNat / 16) :: hexDigit (c.toNat % 16) :: rest) =
      some (c.toNat, rest) := by
    simp only [unit?, hzero, hhigh, hlow, Option.bind_eq_bind, Option.bind_some]
    congr 2
    omega
  unfold unicode?
  rw [hunit]
  simp only [Option.bind_eq_bind, Option.bind_some]
  rw [if_neg (by omega), if_neg (by omega), Char.ofNat_toNat]

/-- A character stands as it is, or behind a backslash as the reader of escapes wants it. -/
theorem escapeChar_cases (c : Char) :
    (∃ escaped, escapeChar c = '\\' :: escaped ∧ escaped ≠ [] ∧
      ∀ rest, escape? (escaped ++ rest) = some (c, rest)) ∨
    (escapeChar c = [c] ∧ c ≠ '"' ∧ c ≠ '\\' ∧ ¬ c.toNat < 0x20) := by
  unfold escapeChar
  split_ifs with hquote hslash hn hr ht hb hf hcontrol
  -- first the characters with a letter of their own
  · exact Or.inl ⟨_, rfl, nofun, fun _ => by rw [hquote]; rfl⟩
  · exact Or.inl ⟨_, rfl, nofun, fun _ => by rw [hslash]; rfl⟩
  · exact Or.inl ⟨_, rfl, nofun, fun _ => by rw [hn]; rfl⟩
  · exact Or.inl ⟨_, rfl, nofun, fun _ => by rw [hr]; rfl⟩
  · exact Or.inl ⟨_, rfl, nofun, fun _ => by rw [ht]; rfl⟩
  · exact Or.inl ⟨_, rfl, nofun, fun _ => by rw [hb]; rfl⟩
  · exact Or.inl ⟨_, rfl, nofun, fun _ => by rw [hf]; rfl⟩
  · exact Or.inl ⟨_, rfl, nofun, unicode?_control hcontrol⟩
  · exact Or.inr ⟨rfl, hquote, hslash, hcontrol⟩

/-- A character is read back from how it stands inside a string. -/
theorem string?_escapeChar (c : Char) (rest : List Char) :
    taken (string? (escapeChar c ++ rest)) =
      (taken (string? rest)).map fun (cs, rest) => (c :: cs, rest) := by
  rcases escapeChar_cases c with ⟨escaped, heq, hne, hescape⟩ | ⟨heq, hquote, hslash, hcontrol⟩
  · have hshorter : rest.length < (escaped ++ rest).length := by
      have := List.length_pos_iff.2 hne
      simp only [List.length_append]
      omega
    rw [heq, List.cons_append, string?, hescape]
    simp only [dif_pos hshorter, taken, Option.map_map]
    rfl
  · rw [heq, List.singleton_append, string?]
    · simp only [if_neg hcontrol, taken, Option.map_map]
      rfl
    · exact hquote
    · exact hslash

/-- The reader of strings gives back what stands between the quotes. -/
theorem string?_append_quote (cs rest : List Char) :
    taken (string? (cs.flatMap escapeChar ++ '"' :: rest)) = some (cs, rest) := by
  induction cs with
  | nil => rw [List.flatMap_nil, List.nil_append, string?]; rfl
  | cons c cs ih => rw [List.flatMap_cons, List.append_assoc, string?_escapeChar, ih]; rfl

/-! ## Integers -/

/-- What may follow a value in a text: its end, or a character that separates or closes. -/
def Ends (rest : List Char) : Prop := ∀ c ∈ rest.head?, c = ',' ∨ c = ']' ∨ c = '\x7d'

theorem ends_nil : Ends [] := nofun

/-- A comma and the closing brackets end a number, since no numeral goes on with one of them. -/
theorem ends_cons {c : Char} (h : c = ',' ∨ c = ']' ∨ c = '\x7d') (rest : List Char) :
    Ends (c :: rest) := by
  intro d hd
  cases hd
  exact h

/-- Where a number may end there stands no digit, which is all that its integer part asks for. -/
theorem Ends.not_isDigit {rest : List Char} (h : Ends rest) {c : Char} (hc : c ∈ rest.head?) :
    c.isDigit = false := by
  rcases h c hc with rfl | rfl | rfl
  · decide
  · decide
  · decide

theorem isDigit_of_mem_natDigits {n : Nat} {c : Char} (h : c ∈ Number.natDigits n) :
    c.isDigit = true :=
  Nat.isDigit_of_mem_toDigits (by decide) (by decide) h

theorem exists_natDigits_eq_cons (n : Nat) :
    ∃ c ds, Number.natDigits n = c :: ds ∧ c.isDigit = true := by
  cases hdigits : Number.natDigits n with
  | nil => exact absurd hdigits Nat.toDigits_ne_nil
  | cons c ds =>
    have hmem : c ∈ Number.natDigits n := hdigits ▸ List.mem_cons_self
    exact ⟨c, ds, rfl, isDigit_of_mem_natDigits hmem⟩

/-- Only zero starts with a zero. A reader that refuses leading zeros has nothing to refuse here. -/
theorem natDigits_ne_zero_cons {n : Nat} (hn : 0 < n) (ds : List Char) :
    Number.natDigits n ≠ '0' :: ds := by
  unfold Number.natDigits
  induction n using Nat.strongRecOn generalizing ds with
  | ind n ih =>
    intro hdigits
    by_cases hlt : n < 10
    · rw [Nat.toDigits_of_lt_base hlt] at hdigits
      have hnonzero : ∀ m < 10, 0 < m → Nat.digitChar m ≠ '0' := by decide
      exact hnonzero n hlt hn (List.cons.inj hdigits).1
    · -- the digits start as those of a tenth of the number, which is not zero either
      rw [Nat.toDigits_of_base_le (by decide) (by omega)] at hdigits
      cases hfront : Nat.toDigits 10 (n / 10) with
      | nil => exact Nat.toDigits_ne_nil hfront
      | cons c front =>
        rw [hfront] at hdigits
        have hc : c = '0' := (List.cons.inj hdigits).1
        exact ih (n / 10) (by omega) (by omega) front (hc ▸ hfront)

/-- A reader that takes digits as long as there are any takes those that were written, and stops at
what ends the number. -/
theorem takeWhile_isDigit_natDigits (n : Nat) {rest : List Char} (h : Ends rest) :
    (Number.natDigits n ++ rest).takeWhile Char.isDigit = Number.natDigits n ∧
      (Number.natDigits n ++ rest).dropWhile Char.isDigit = rest := by
  have hdigits : ∀ c ∈ Number.natDigits n, c.isDigit = true := fun c => isDigit_of_mem_natDigits
  rw [List.takeWhile_append_of_pos hdigits, List.dropWhile_append_of_pos hdigits]
  cases rest with
  | nil => simp
  | cons c rest =>
    have hc := h.not_isDigit (show c ∈ (c :: rest).head? from rfl)
    simp [hc]

/-- The digits before the point are those that were written. -/
theorem wholeDigits?_natDigits (n : Nat) {rest : List Char} (h : Ends rest) :
    wholeDigits? (Number.natDigits n ++ rest) = some (Number.natDigits n, rest) := by
  by_cases hn : n = 0
  · subst hn
    rfl
  · have hne : Number.natDigits n ≠ [] := Nat.toDigits_ne_nil
    obtain ⟨htake, hdrop⟩ := takeWhile_isDigit_natDigits n h
    rw [wholeDigits?]
    · rw [htake, hdrop, if_neg hne]
    · -- the rule for a single zero is not the one that applies
      intro cs hcs
      cases hdigits : Number.natDigits n with
      | nil => exact hne hdigits
      | cons c ds =>
        rw [hdigits] at hcs
        have hc : c = '0' := (List.cons.inj hcs).1
        exact natDigits_ne_zero_cons (Nat.pos_of_ne_zero hn) ds (hc ▸ hdigits)

/-- Without a dot there is no fraction to be read, and what follows the number is left alone. -/
theorem fraction?_of_ends {rest : List Char} (h : Ends rest) :
    fraction? rest = some ([], rest) := by
  cases rest with
  | nil => rfl
  | cons c rest =>
    rcases h c rfl with rfl | rfl | rfl
    · rfl
    · rfl
    · rfl

theorem exponent?_of_ends {rest : List Char} (h : Ends rest) :
    exponent? rest = some (none, rest) := by
  cases rest with
  | nil => rfl
  | cons c rest =>
    rcases h c rfl with rfl | rfl | rfl
    · rfl
    · rfl
    · rfl

/-- An integer of 64 bits is read back, with its sign; there is no minus before a zero. -/
theorem magnitude?_natDigits {negative : Bool} {n : Nat} {i : Int}
    (hi : i = if negative then -(n : Int) else n) (hmin : minInt ≤ i) (hmax : i ≤ maxInt)
    (hzero : ¬ (negative = true ∧ n = 0)) {rest : List Char} (h : Ends rest) :
    magnitude? negative (Number.natDigits n ++ rest) = some (.int i, rest) := by
  have hvalue : Number.ofDigits (Number.natDigits n) = n :=
    Nat.ofDigitChars_toDigits (by decide) (by decide)
  unfold magnitude?
  rw [wholeDigits?_natDigits n h]
  simp only [Option.bind_eq_bind, Option.bind_some, fraction?_of_ends h, exponent?_of_ends h,
    and_self, ↓reduceIte]
  unfold whole?
  subst hi
  rw [hvalue]
  simp only [hmin, hmax, hzero, not_false_eq_true, and_self, ↓reduceIte, Option.bind_some]

/-- The text of an integer begins with a digit or with its sign, by which the reader tells it from
other values. -/
theorem exists_intText_eq_cons (n : Int) :
    ∃ c cs, intText n = c :: cs ∧ (c.isDigit = true ∨ c = '-') := by
  unfold intText Number.signed
  split
  · exact ⟨'-', _, rfl, Or.inr rfl⟩
  · obtain ⟨c, ds, hdigits, hc⟩ := exists_natDigits_eq_cons n.natAbs
    exact ⟨c, ds, hdigits, Or.inl hc⟩

/-- The text of an integer starts with a digit or a minus. -/
theorem intText_append_ne {d : Char} (hdigit : d.isDigit = false) (hminus : d ≠ '-') (n : Int)
    (rest ds : List Char) : intText n ++ rest ≠ d :: ds := by
  obtain ⟨c, cs, htext, hc⟩ := exists_intText_eq_cons n
  intro heq
  rw [htext] at heq
  rw [(List.cons.inj heq).1, hdigit] at hc
  exact hc.elim Bool.false_ne_true hminus

/-- An integer in range reads back from its text as that integer, and the reader stops right behind
it. -/
theorem number?_intText {n : Int} (hmin : minInt ≤ n) (hmax : n ≤ maxInt) {rest : List Char}
    (h : Ends rest) : number? (intText n ++ rest) = some (.int n, rest) := by
  unfold intText Number.signed
  by_cases hn : n < 0
  · have habs : n = -(n.natAbs : Int) := by omega
    rw [decide_eq_true hn, if_pos rfl, List.cons_append]
    exact magnitude?_natDigits (habs.trans (if_pos rfl).symm) hmin hmax (by omega) h
  · have habs : n = (n.natAbs : Int) := by omega
    rw [decide_eq_false hn, if_neg Bool.false_ne_true, number?]
    · exact magnitude?_natDigits (habs.trans (if_neg Bool.false_ne_true).symm) hmin hmax
        (fun hzero => Bool.false_ne_true hzero.1) h
    · -- a digit is no minus
      intro cs hcs
      obtain ⟨c, ds, hdigits, hc⟩ := exists_natDigits_eq_cons n.natAbs
      rw [hdigits] at hcs
      have hminus : c = '-' := (List.cons.inj hcs).1
      rw [hminus] at hc
      cases hc

/-! ## Scalars -/

/-- A value of which every number is an integer of 64 bits, signed or unsigned. -/
inductive Integral : Value → Prop
  | null : Integral .null
  | bool (b : Bool) : Integral (.bool b)
  | int {n : Int} (hmin : minInt ≤ n) (hmax : n ≤ maxInt) : Integral (.int n)
  | str (s : String) : Integral (.str s)
  | arr {items : List Value} (each : ∀ v ∈ items, Integral v) : Integral (.arr items)
  | obj {fields : Fields} (each : ∀ name v, (name, v) ∈ fields → Integral v) :
    Integral (.obj fields)

/-- How a text of a value can start. -/
def Starts (c : Char) : Prop :=
  c.isDigit = true ∨ c = '-' ∨ c = 'n' ∨ c = 't' ∨ c = 'f' ∨ c = '"' ∨ c = '[' ∨ c = '\x7b'

/-- The text of a value is never empty, and its first character tells what kind of value follows. -/
theorem exists_write_eq_cons {v : Value} (hv : Integral v) :
    ∃ c cs, write v = c :: cs ∧ Starts c := by
  cases hv with
  | null => exact ⟨'n', ['u', 'l', 'l'], rfl, by simp [Starts]⟩
  | bool b =>
    cases b with
    | true => exact ⟨'t', ['r', 'u', 'e'], rfl, by simp [Starts]⟩
    | false => exact ⟨'f', ['a', 'l', 's', 'e'], rfl, by simp [Starts]⟩
  | str s => exact ⟨_, _, rfl, by simp [Starts]⟩
  | @int n _ _ =>
    obtain ⟨c, cs, htext, hc⟩ := exists_intText_eq_cons n
    exact ⟨c, cs, htext, by rcases hc with hc | rfl <;> simp [Starts, *]⟩
  | @arr items _ => cases items <;> exact ⟨_, _, rfl, by simp [Starts]⟩
  | @obj fields _ => cases fields <;> exact ⟨_, _, rfl, by simp [Starts]⟩

theorem Starts.ne_of {c d : Char} (h : Starts c) (hd : ¬ Starts d) : c ≠ d := by
  intro heq
  exact hd (heq ▸ h)

/-- No value starts with a blank, so skipping blanks before one skips nothing. -/
theorem Starts.not_isBlank {c : Char} (h : Starts c) : isBlank c = false := by
  have hblank : ∀ d, isBlank d = true → ¬ Starts d := by
    intro d hd
    simp only [isBlank, Bool.or_eq_true, beq_iff_eq] at hd
    rcases hd with ((rfl | rfl) | rfl) | rfl
    · simp [Starts]
    · simp [Starts]
    · simp [Starts]
    · simp [Starts]
  cases hc : isBlank c with
  | false => rfl
  | true => exact absurd h (hblank c hc)

/-- What was written is read from its first character on: the writer leaves no blanks for the reader
to skip. -/
theorem skipBlanks_write {v : Value} (hv : Integral v) (rest : List Char) :
    skipBlanks (write v ++ rest) = write v ++ rest := by
  obtain ⟨c, cs, hwrite, hc⟩ := exists_write_eq_cons hv
  rw [hwrite]
  simp [skipBlanks, hc.not_isBlank]

/-- A value that is neither an array nor an object. -/
def isScalar : Value → Bool
  | .arr _ | .obj _ => false
  | _ => true

/-- A text that begins with a quote is read as a string, whatever else may be tried on it. -/
theorem scalar?_quoted (quoted : List Char) :
    scalar? ('"' :: quoted) =
      (taken (string? quoted)).map fun (cs, rest) => (.str (String.ofList cs), rest) := by
  rw [scalar?, taken, Option.map_map]
  rfl

/-- A value without parts reads back from its text, whatever ends it. -/
theorem scalar?_write {v : Value} (hv : Integral v) (hscalar : isScalar v = true)
    {rest : List Char} (h : Ends rest) : scalar? (write v ++ rest) = some (v, rest) := by
  cases hv with
  | null => rfl
  | bool b =>
    cases b with
    | true => rfl
    | false => rfl
  | str s =>
    show scalar? ('"' :: (s.toList.flatMap escapeChar ++ ['"'] ++ rest)) = _
    rw [scalar?_quoted, List.append_assoc, List.singleton_append, string?_append_quote]
    simp
  | @int n hmin hmax =>
    show scalar? (intText n ++ rest) = _
    rw [scalar?]
    · exact number?_intText hmin hmax h
    -- the text is that of no other scalar
    · exact intText_append_ne (by decide) (by decide) n rest
    · exact intText_append_ne (by decide) (by decide) n rest
    · exact intText_append_ne (by decide) (by decide) n rest
    · exact intText_append_ne (by decide) (by decide) n rest
  | arr _ | obj _ => cases hscalar

/-! ## Arrays -/

mutual

/-- How many levels of arrays and objects the value nests. -/
def depth : Value → Nat
  | .arr items => depthItems items + 1
  | .obj fields => depthFields fields + 1
  | _ => 0

/-- How deep the deepest item nests. -/
def depthItems : List Value → Nat
  | [] => 0
  | v :: rest => max (depth v) (depthItems rest)

/-- How deep the deepest value of a field nests. -/
def depthFields : List (String × Value) → Nat
  | [] => 0
  | (_, v) :: rest => max (depth v) (depthFields rest)

end

/-- The items of a list fit in so much depth if each of them does: the bound goes over from the list
to its parts. -/
theorem depthItems_cons_le_iff {v : Value} {vs : List Value} {d : Nat} :
    depthItems (v :: vs) ≤ d ↔ depth v ≤ d ∧ depthItems vs ≤ d := by
  rw [depthItems]
  exact Nat.max_le

theorem depthFields_cons_le_iff {name : String} {v : Value} {fields : List (String × Value)}
    {d : Nat} : depthFields ((name, v) :: fields) ≤ d ↔ depth v ≤ d ∧ depthFields fields ≤ d := by
  rw [depthFields]
  exact Nat.max_le

/-- The reader gives the value back from its text if it nests at most `d` levels, and refuses it
otherwise. -/
def Reads (d : Nat) (inner : ValueReader) (v : Value) : Prop :=
  ∀ rest, Ends rest →
    taken (inner (write v ++ rest)) = if depth v ≤ d then some (v, rest) else none

variable {inner : ValueReader} {d : Nat}

/-- What the reader of items does with a first item that it reads back: it refuses it past the limit
on depth, and else goes by the character behind it. -/
theorem items?_append {v : Value} (hv : Reads d inner v) {after : List Char} (hafter : Ends after) :
    taken (items? inner (write v ++ after)) =
      if depth v ≤ d then
        match skipBlanks after with
        | ']' :: rest => some ([v], rest)
        | ',' :: rest => (taken (items? inner rest)).map fun (vs, rest) => (v :: vs, rest)
        | _ => none
      else none := by
  have hread := hv after hafter
  by_cases hdepth : depth v ≤ d
  · rw [if_pos hdepth] at hread ⊢
    obtain ⟨t, hinner, ht⟩ := Option.map_eq_some_iff.1 hread
    obtain ⟨hvalue, hrest⟩ := Prod.mk.inj ht
    rw [items?, hinner]
    dsimp only
    split
    next rest heq =>
      rw [hrest] at heq
      simp only [heq, taken, Option.map_some, hvalue]
    next rest heq =>
      rw [hrest] at heq
      simp only [heq, taken, Option.map_map, hvalue]
      rfl
    next hclose hcomma =>
      rw [hrest] at hclose hcomma
      split
      next rest heq => exact absurd heq (hclose rest)
      next rest heq => exact absurd heq (hcomma rest)
      next => rfl
  · rw [if_neg hdepth] at hread ⊢
    rw [items?, Option.map_eq_none_iff.1 hread]
    rfl

/-- The items behind an item begin with a comma or the closing bracket, either of which ends a number
before it. -/
theorem ends_writeItems (vs : List Value) (rest : List Char) : Ends (writeItems vs ++ rest) := by
  cases vs with
  | nil => exact ends_cons (Or.inr (Or.inl rfl)) _
  | cons v vs => exact ends_cons (Or.inl rfl) _

/-- The items of an array are read back, unless one of them nests too deep. -/
theorem items?_write {v : Value} {vs : List Value} (h : ∀ w ∈ v :: vs, Reads d inner w)
    (rest : List Char) :
    taken (items? inner (write v ++ (writeItems vs ++ rest))) =
      if depthItems (v :: vs) ≤ d then some (v :: vs, rest) else none := by
  induction vs generalizing v with
  | nil =>
    rw [items?_append (h v List.mem_cons_self) (ends_writeItems [] rest)]
    simp [writeItems, skipBlanks, isBlank, depthItems]
  | cons w ws ih =>
    rw [items?_append (h v List.mem_cons_self) (ends_writeItems (w :: ws) rest)]
    have hskip : skipBlanks (writeItems (w :: ws) ++ rest) =
        ',' :: (write w ++ (writeItems ws ++ rest)) := by
      simp [writeItems, skipBlanks, isBlank]
    rw [hskip]
    -- the first item is in front of the others, and all of them are lost if one is
    show (if depth v ≤ d then (taken (items? inner _)).map _ else none) = _
    rw [ih fun u hu => h u (List.mem_cons_of_mem v hu)]
    simp only [apply_ite (Option.map _), Option.map_some, Option.map_none, depthItems_cons_le_iff,
      ite_and]

/-! ## Objects -/

/-- The name of a field reads back, together with the colon behind it. -/
theorem name?_quote (name : String) (rest : List Char) :
    taken (name? (quote name ++ (':' :: rest))) = some (name, rest) := by
  have hquoted := string?_append_quote name.toList (':' :: rest)
  obtain ⟨t, hstring, ht⟩ := Option.map_eq_some_iff.1 hquoted
  obtain ⟨hvalue, hrest⟩ := Prod.mk.inj ht
  have hskip : skipBlanks (quote name ++ ':' :: rest) =
      '"' :: (name.toList.flatMap escapeChar ++ '"' :: ':' :: rest) := by
    simp [quote, skipBlanks, isBlank]
  rw [name?]
  split
  next quoted heq =>
    obtain ⟨-, rfl⟩ := List.cons.inj (hskip.symm.trans heq)
    rw [hstring]
    dsimp only
    split
    next rest' heq' =>
      rw [hrest] at heq'
      obtain ⟨-, rfl⟩ := List.cons.inj (show ':' :: rest = ':' :: rest' from heq')
      simp [taken, hvalue]
    next hcolon => exact absurd (by rw [hrest]; rfl) (hcolon rest)
  next hquote => exact absurd hskip (hquote _)

/-- What the reader of fields does with a first field: its name and value are read back, and then it
goes by the character behind them. -/
theorem fields?_append {name : String} {v : Value} (hv : Reads d inner v) {after : List Char}
    (hafter : Ends after) :
    taken (fields? inner (quote name ++ ':' :: (write v ++ after))) =
      if depth v ≤ d then
        match skipBlanks after with
        | '\x7d' :: rest => some ([(name, v)], rest)
        | ',' :: rest => (taken (fields? inner rest)).map fun (fs, rest) => ((name, v) :: fs, rest)
        | _ => none
      else none := by
  obtain ⟨n, hname, hn⟩ := Option.map_eq_some_iff.1 (name?_quote name (write v ++ after))
  obtain ⟨hnvalue, hnrest⟩ := Prod.mk.inj hn
  have hread := hv after hafter
  rw [← hnrest] at hread
  by_cases hdepth : depth v ≤ d
  · rw [if_pos hdepth] at hread ⊢
    obtain ⟨t, hinner, ht⟩ := Option.map_eq_some_iff.1 hread
    obtain ⟨hvalue, hrest⟩ := Prod.mk.inj ht
    rw [fields?, hname]
    dsimp only
    rw [hinner]
    dsimp only
    split
    next rest heq =>
      rw [hrest] at heq
      simp only [heq, taken, Option.map_some, hvalue, hnvalue]
    next rest heq =>
      rw [hrest] at heq
      simp only [heq, taken, Option.map_map, hvalue, hnvalue]
      rfl
    next hclose hcomma =>
      rw [hrest] at hclose hcomma
      split
      next rest heq => exact absurd heq (hclose rest)
      next rest heq => exact absurd heq (hcomma rest)
      next => rfl
  · rw [if_neg hdepth] at hread ⊢
    rw [fields?, hname]
    dsimp only
    rw [Option.map_eq_none_iff.1 hread]
    rfl

/-- The fields behind a field begin with a comma or the closing brace, either of which ends a number
before it. -/
theorem ends_writeFields (fields : List (String × Value)) (rest : List Char) :
    Ends (writeFields fields ++ rest) := by
  cases fields with
  | nil => exact ends_cons (Or.inr (Or.inr rfl)) _
  | cons f fields => exact ends_cons (Or.inl rfl) _

/-- The fields of an object are read back in their order, unless one of them nests too deep. -/
theorem fields?_write {name : String} {v : Value} {fields : List (String × Value)}
    (h : ∀ k w, (k, w) ∈ (name, v) :: fields → Reads d inner w) (rest : List Char) :
    taken (fields? inner (quote name ++ ':' :: (write v ++ (writeFields fields ++ rest)))) =
      if depthFields ((name, v) :: fields) ≤ d then some ((name, v) :: fields, rest) else none := by
  induction fields generalizing name v with
  | nil =>
    rw [fields?_append (h name v List.mem_cons_self) (ends_writeFields [] rest)]
    simp [writeFields, skipBlanks, isBlank, depthFields]
  | cons f fields ih =>
    obtain ⟨k, w⟩ := f
    rw [fields?_append (h name v List.mem_cons_self) (ends_writeFields ((k, w) :: fields) rest)]
    have hskip : skipBlanks (writeFields ((k, w) :: fields) ++ rest) =
        ',' :: (quote k ++ ':' :: (write w ++ (writeFields fields ++ rest))) := by
      simp [writeFields, skipBlanks, isBlank]
    rw [hskip]
    show (if depth v ≤ d then (taken (fields? inner _)).map _ else none) = _
    rw [ih fun l u hu => h l u (List.mem_cons_of_mem _ hu)]
    simp only [apply_ite (Option.map _), Option.map_some, Option.map_none, depthFields_cons_le_iff,
      ite_and]

/-! ## Values -/

/-- To keep a reading only if it used up some of the text loses nothing of a value that was read
back: its text is not empty. -/
theorem taken_progressing_write {reader : List Char → Option (Value × List Char)} {v w : Value}
    (hv : Integral v) {rest : List Char} {p : Prop} [Decidable p]
    (h : reader (write v ++ rest) = if p then some (w, rest) else none) :
    taken (progressing reader (write v ++ rest)) = if p then some (w, rest) else none := by
  obtain ⟨c, cs, hwrite, -⟩ := exists_write_eq_cons hv
  have hshorter : rest.length < (write v ++ rest).length := by
    rw [hwrite]
    simp only [List.length_append, List.length_cons]
    omega
  unfold progressing
  by_cases hp : p
  · rw [if_pos hp] at h ⊢
    simp only [h, dif_pos hshorter]
    rfl
  · rw [if_neg hp] at h ⊢
    simp only [h]
    rfl

/-- A bracket that is not closed at once opens a list of items, which are read one depth further
in. -/
theorem container?_bracket {cs : List Char} (h : ∀ rest, skipBlanks cs ≠ ']' :: rest) :
    container? inner ('[' :: cs) =
      (taken (items? inner (skipBlanks cs))).map fun (vs, rest) => (.arr vs, rest) := by
  rw [container?]
  split
  next rest heq => exact absurd heq (h rest)
  next => rw [taken, Option.map_map]; rfl

/-- A brace that is not closed at once opens the fields of an object, of which the last one of a name
counts. -/
theorem container?_brace {cs : List Char} (h : ∀ rest, skipBlanks cs ≠ '\x7d' :: rest) :
    container? inner ('\x7b' :: cs) =
      (taken (fields? inner (skipBlanks cs))).map fun (fields, rest) =>
        (.obj (Fields.ofList fields), rest) := by
  rw [container?]
  split
  next rest heq => exact absurd heq (h rest)
  next => rw [taken, Option.map_map]; rfl

/-- The reader of containers gives an array back whose items the inner reader gives back. -/
theorem container?_arr {items : List Value} (hitems : ∀ v ∈ items, Integral v)
    (h : ∀ v ∈ items, Reads d inner v) (rest : List Char) :
    container? inner (write (.arr items) ++ rest) =
      if depthItems items ≤ d then some (.arr items, rest) else none := by
  cases items with
  | nil => simp [write, container?, skipBlanks, isBlank, depthItems]
  | cons v vs =>
    have hskip := skipBlanks_write (hitems v List.mem_cons_self) (writeItems vs ++ rest)
    obtain ⟨c, cs, hwrite, hc⟩ := exists_write_eq_cons (hitems v List.mem_cons_self)
    show container? inner ('[' :: (write v ++ writeItems vs ++ rest)) = _
    rw [List.append_assoc, container?_bracket, hskip, items?_write h rest]
    · rw [apply_ite (Option.map _)]
      rfl
    · -- no text of a value starts with a closing bracket
      intro after heq
      rw [hskip, hwrite, List.cons_append] at heq
      exact hc.ne_of (by simp [Starts]) (List.cons.inj heq).1

/-- The reader of containers gives an object back whose values the inner reader gives back. -/
theorem container?_obj {fields : List (String × Value)}
    (h : ∀ k w, (k, w) ∈ fields → Reads d inner w) (rest : List Char) :
    container? inner (write (.obj fields) ++ rest) =
      if depthFields fields ≤ d then some (.obj (Fields.ofList fields), rest) else none := by
  cases fields with
  | nil => simp [write, container?, skipBlanks, isBlank, depthFields, Fields.ofList, Fields.merge]
  | cons f fields =>
    obtain ⟨k, w⟩ := f
    have hskip : ∀ cs, skipBlanks (quote k ++ cs) = quote k ++ cs := by
      intro cs
      simp [quote, skipBlanks, isBlank]
    show container? inner ('\x7b' :: (quote k ++ ':' :: (write w ++ writeFields fields) ++ rest)) = _
    rw [List.append_assoc, List.cons_append, List.append_assoc, container?_brace, hskip,
      fields?_write h rest]
    · rw [apply_ite (Option.map _)]
      rfl
    · -- the first name starts with a quote
      intro after heq
      rw [hskip] at heq
      exact absurd (List.cons.inj heq).1 (by decide)

/-- The text of a scalar starts neither an array nor an object. -/
theorem write_ne_of_isScalar {v : Value} (hv : Integral v) (hscalar : isScalar v = true)
    (rest cs : List Char) : write v ++ rest ≠ '[' :: cs ∧ write v ++ rest ≠ '\x7b' :: cs := by
  cases hv with
  | null => exact ⟨by simp [write], by simp [write]⟩
  | bool b => cases b <;> exact ⟨by simp [write], by simp [write]⟩
  | str s => exact ⟨by simp [write, quote], by simp [write, quote]⟩
  | @int n _ _ =>
    exact ⟨intText_append_ne (by decide) (by decide) n rest cs,
      intText_append_ne (by decide) (by decide) n rest cs⟩
  | arr _ | obj _ => cases hscalar

theorem depth_eq_zero {v : Value} (hscalar : isScalar v = true) : depth v = 0 := by
  cases v with
  | arr _ | obj _ => cases hscalar
  | null | bool _ | int _ | float _ | str _ => rfl

/-- A scalar is read back at every depth, the limit included, since it opens no level of its own. -/
theorem reads_scalar {v : Value} (hv : Integral v) (hscalar : isScalar v = true) (d : Nat) :
    Reads d (value? d) v := by
  intro rest hrest
  have hread := scalar?_write hv hscalar hrest
  have hne := write_ne_of_isScalar hv hscalar rest
  have hdepth : depth v ≤ d := depth_eq_zero hscalar ▸ Nat.zero_le d
  cases d with
  | zero =>
    -- the reader of no level refuses what starts an array or an object, and nothing else
    refine taken_progressing_write hv ?_
    rw [skipBlanks_write hv, if_pos hdepth]
    split
    next cs heq => exact absurd heq (hne cs).1
    next cs heq => exact absurd heq (hne cs).2
    next => exact hread
  | succ d =>
    refine taken_progressing_write hv ?_
    rw [skipBlanks_write hv, if_pos hdepth, container?]
    · exact hread
    · exact fun cs => (hne cs).1
    · exact fun cs => (hne cs).2

/-- A list is one deeper than its items, so what is left for these is one less. -/
theorem depth_arr_le_succ {items : List Value} {d : Nat} :
    depth (.arr items) ≤ d + 1 ↔ depthItems items ≤ d := by
  rw [depth]
  exact Nat.succ_le_succ_iff

theorem depth_obj_le_succ {fields : List (String × Value)} {d : Nat} :
    depth (.obj fields) ≤ d + 1 ↔ depthFields fields ≤ d := by
  rw [depth]
  exact Nat.succ_le_succ_iff

/-- A list reads back if its items do, each at one depth less; past the limit it is refused like
them. -/
theorem reads_arr {items : List Value} (hitems : ∀ v ∈ items, Integral v)
    (h : ∀ v ∈ items, ∀ d, Reads d (value? d) v) (d : Nat) : Reads d (value? d) (.arr items) := by
  intro rest _
  cases d with
  | zero =>
    have hnone : ∀ cs, taken (value? 0 ('[' :: cs)) = none := fun _ => rfl
    have hdepth : ¬ depth (.arr items) ≤ 0 := by
      rw [depth]
      omega
    rw [if_neg hdepth]
    cases items with
    | nil => exact hnone _
    | cons v vs => exact hnone _
  | succ d =>
    refine taken_progressing_write (.arr hitems) ?_
    rw [skipBlanks_write (.arr hitems), container?_arr hitems fun v hv => h v hv d]
    simp only [depth_arr_le_succ]

/-- Fields in any order are read back as they are put together to an object. -/
theorem value?_obj {fields : List (String × Value)}
    (hfields : ∀ k w, (k, w) ∈ fields → Integral w)
    (h : ∀ k w, (k, w) ∈ fields → ∀ d, Reads d (value? d) w) (d : Nat) (rest : List Char) :
    taken (value? d (write (.obj fields) ++ rest)) =
      if depth (.obj fields) ≤ d then some (.obj (Fields.ofList fields), rest) else none := by
  cases d with
  | zero =>
    have hnone : ∀ cs, taken (value? 0 ('\x7b' :: cs)) = none := fun _ => rfl
    have hdepth : ¬ depth (.obj fields) ≤ 0 := by
      rw [depth]
      omega
    rw [if_neg hdepth]
    cases fields with
    | nil => exact hnone _
    | cons f fields => exact hnone _
  | succ d =>
    refine taken_progressing_write (.obj hfields) ?_
    rw [skipBlanks_write (.obj hfields), container?_obj fun k w hw => h k w hw d]
    simp only [depth_obj_le_succ]

/-- A value is read back from its text by the reader of as many levels as it nests, or more, and
refused by the reader of fewer. -/
theorem reads_value {v : Value} (hcanonical : v.Canonical) (hv : Integral v) (d : Nat) :
    Reads d (value? d) v := by
  -- one level of the value is one level of the reader, and the items have all lower levels to go
  induction hv generalizing d with
  | null => exact reads_scalar .null rfl d
  | bool b => exact reads_scalar (.bool b) rfl d
  | int hmin hmax => exact reads_scalar (.int hmin hmax) rfl d
  | str s => exact reads_scalar (.str s) rfl d
  | arr hitems ih =>
    cases hcanonical with
    | arr each => exact reads_arr hitems (fun v hv => ih v hv (each v hv)) d
  | obj hfields ih =>
    cases hcanonical with
    | obj sorted each =>
      intro rest _
      rw [value?_obj hfields (fun k w hw => ih k w hw (each k w hw)) d rest, sorted.ofList_eq]

/-! ## Whole texts -/

theorem readWithin?_ofList {d : Nat} {cs : List Char} {v : Value} {p : Prop} [Decidable p]
    (h : taken (value? d cs) = if p then some (v, []) else none) :
    readWithin? d (String.ofList cs) = if p then some v else none := by
  unfold readWithin?
  rw [String.toList_ofList]
  by_cases hp : p
  · rw [if_pos hp] at h ⊢
    obtain ⟨t, hvalue, ht⟩ := Option.map_eq_some_iff.1 h
    obtain ⟨htvalue, htrest⟩ := Prod.mk.inj ht
    rw [hvalue]
    simp only [Option.bind_eq_bind, Option.bind_some, htvalue, htrest]
    rfl
  · rw [if_neg hp] at h ⊢
    rw [Option.map_eq_none_iff.1 h]
    rfl

/-- The text of a value is read as the value, if it nests at most `d` levels, and refused
otherwise. -/
theorem readWithin?_text {v : Value} (hcanonical : v.Canonical) (hv : Integral v) (d : Nat) :
    readWithin? d (text v) = if depth v ≤ d then some v else none := by
  have hread := reads_value hcanonical hv d [] ends_nil
  rw [List.append_nil] at hread
  exact readWithin?_ofList hread

/-- The text of fields in any order is read as the object that they are put together to. -/
theorem readWithin?_text_obj {fields : List (String × Value)}
    (hcanonical : ∀ k w, (k, w) ∈ fields → w.Canonical)
    (hfields : ∀ k w, (k, w) ∈ fields → Integral w) (d : Nat) :
    readWithin? d (text (.obj fields)) =
      if depth (.obj fields) ≤ d then some (.obj (Fields.ofList fields)) else none := by
  have hread := value?_obj hfields
    (fun k w hw => reads_value (hcanonical k w hw) (hfields k w hw)) d []
  rw [List.append_nil] at hread
  exact readWithin?_ofList hread

end AppletHost.Json
