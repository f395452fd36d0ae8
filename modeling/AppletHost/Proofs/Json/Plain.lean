import AppletHost.Proofs.Json.RoundTrip

/-!
# JSON text is plain

A string may hold any character, and what is written of it holds no control character: those below
U+0020 are escaped, and the digits of an escape are plain themselves. Everything else that is written
is punctuation, a word, or a number. So the text of a value is plain however deep a string lies in it,
also where it is the name of a field:

> `plain_write`: no value is written with a control character.
-/

namespace AppletHost.Json

/-- The characters are no control characters. -/
def Plain (cs : List Char) : Prop := ∀ c ∈ cs, 0x20 ≤ c.toNat

theorem plain_nil : Plain [] := nofun

/-- A text is plain if its characters are, the first and all behind it. -/
theorem plain_cons {c : Char} {cs : List Char} : Plain (c :: cs) ↔ 0x20 ≤ c.toNat ∧ Plain cs :=
  List.forall_mem_cons

theorem plain_append {cs ds : List Char} : Plain (cs ++ ds) ↔ Plain cs ∧ Plain ds :=
  List.forall_mem_append

theorem Plain.cons {c : Char} {cs : List Char} (h : Plain cs) (hc : 0x20 ≤ c.toNat) :
    Plain (c :: cs) := plain_cons.2 ⟨hc, h⟩

theorem Plain.append {cs ds : List Char} (h : Plain cs) (h' : Plain ds) : Plain (cs ++ ds) :=
  plain_append.2 ⟨h, h'⟩

/-- A plain text is one line, since what ends a line is a control character. -/
theorem Plain.notMem {c : Char} {cs : List Char} (h : Plain cs) (hc : c.toNat < 0x20) : c ∉ cs :=
  fun hmem => Nat.not_le.2 hc (h c hmem)

instance (cs : List Char) : Decidable (Plain cs) := List.decidableBAll _ cs

/-! ## Strings -/

theorem plain_hexDigit {n : Nat} (h : n < 16) : 0x20 ≤ (hexDigit n).toNat := by
  revert n
  decide

/-- A control character is escaped, and its escape is plain; any other character is plain by
itself. -/
theorem plain_escapeChar (c : Char) : Plain (escapeChar c) := by
  unfold escapeChar
  split_ifs with _ _ _ _ _ _ _ hcontrol
  -- the characters with a letter of their own
  all_goals try exact (by decide)
  · have hhigh := plain_hexDigit (show c.toNat / 16 < 16 by omega)
    have hlow := plain_hexDigit (show c.toNat % 16 < 16 by omega)
    have hdigits : Plain [hexDigit (c.toNat / 16), hexDigit (c.toNat % 16)] :=
      .cons (.cons plain_nil hlow) hhigh
    exact .append (show Plain ['\\', 'u', '0', '0'] by decide) hdigits
  · exact plain_nil.cons (Nat.le_of_not_lt hcontrol)

/-- A string between quotes holds no control character, whatever it was before. -/
theorem plain_quote (s : String) : Plain (quote s) := by
  have hescaped : Plain (s.toList.flatMap escapeChar) := by
    intro c hc
    obtain ⟨d, -, hd⟩ := List.mem_flatMap.1 hc
    exact plain_escapeChar d c hd
  exact .cons (hescaped.append (by decide)) (by decide)

/-! ## Numbers -/

/-- Digits are plain, and so is the text of a natural number. -/
theorem plain_natDigits (n : Nat) : Plain (Number.natDigits n) := by
  intro c hc
  have hdigit := isDigit_of_mem_natDigits hc
  simp only [Char.isDigit, Bool.and_eq_true, decide_eq_true_eq] at hdigit
  have hlow : ('0'.val).toNat ≤ c.toNat := hdigit.1
  exact Nat.le_trans (by decide) hlow

theorem plain_zeros (n : Nat) : Plain (Number.zeros n) := fun c hc => by
  rw [List.eq_of_mem_replicate hc]
  decide

theorem plain_signed {text : List Char} (h : Plain text) (negative : Bool) :
    Plain (Number.signed negative text) := by
  unfold Number.signed
  split
  · exact h.cons (by decide)
  · exact h

/-- Decimals are written with digits, zeros and a dot, in either style. -/
theorem plain_positional (d : Number.Decimal) : Plain d.positional := by
  have hdigits := plain_natDigits d.digits
  unfold Number.Decimal.positional
  dsimp only
  split_ifs
  · exact hdigits.append (plain_zeros _)
  · have htake : Plain ((Number.natDigits d.digits).take
        ((Number.natDigits d.digits).length - (-d.exponent).toNat)) :=
      fun c hc => hdigits c (List.mem_of_mem_take hc)
    refine htake.append (.cons (fun c hc => ?_) (by decide))
    exact hdigits c (List.mem_of_mem_drop hc)
  · exact .cons (.cons ((plain_zeros _).append hdigits) (by decide)) (by decide)

/-- An exponent adds its letter and a sign, which are plain as well. -/
theorem plain_exponentText (style : Number.MarkedStyle) (power : Int) :
    Plain (style.exponentText power) := by
  unfold Number.MarkedStyle.exponentText
  dsimp only
  refine .cons (.append ?_ (plain_natDigits _)) (by decide)
  split_ifs <;> decide

theorem plain_marked (style : Number.MarkedStyle) (d : Number.Decimal) : Plain (d.marked style) := by
  have hdigits := plain_natDigits d.digits
  unfold Number.Decimal.marked
  dsimp only
  split_ifs
  · exact (plain_positional d).append (by decide)
  · exact plain_positional d
  · refine .append ?_ (plain_exponentText style _)
    split
    next => exact plain_nil
    next c hds =>
      rw [hds] at hdigits
      exact hdigits
    next c rest _ hds =>
      rw [hds] at hdigits
      obtain ⟨hc, hrest⟩ := plain_cons.1 hdigits
      exact .cons (.cons hrest (by decide)) hc

theorem plain_intText (n : Int) : Plain (intText n) := plain_signed (plain_natDigits _) _

/-- A float is written as a decimal in the style that suits its size, or as `null` where it is
none. -/
theorem plain_floatText (x : Float) : Plain (floatText x) := by
  unfold floatText
  split
  next d _ => exact plain_signed (plain_marked _ _) _
  next => decide

/-! ## Values -/

mutual

/-- The text of a value holds no control character, no line break among them: this is what a line of a
stream needs. The induction is on the value, along with its items and fields. -/
theorem plain_write : (v : Value) → Plain (write v)
  | .null => by rw [write]; decide
  | .bool true => by rw [write]; decide
  | .bool false => by rw [write]; decide
  | .int n => by rw [write]; exact plain_intText n
  | .float x => by rw [write]; exact plain_floatText x
  | .str s => by rw [write]; exact plain_quote s
  | .arr [] => by rw [write]; decide
  | .arr (v :: vs) => by
    rw [write]
    exact .cons ((plain_write v).append (plain_writeItems vs)) (by decide)
  | .obj [] => by rw [write]; decide
  | .obj ((k, v) :: rest) => by
    rw [write]
    have hfield := (plain_write v).append (plain_writeFields rest)
    exact .cons ((plain_quote k).append (hfield.cons (by decide))) (by decide)

theorem plain_writeItems : (vs : List Value) → Plain (writeItems vs)
  | [] => by rw [writeItems]; decide
  | v :: vs => by
    rw [writeItems]
    exact .cons ((plain_write v).append (plain_writeItems vs)) (by decide)

theorem plain_writeFields : (fields : List (String × Value)) → Plain (writeFields fields)
  | [] => by rw [writeFields]; decide
  | (k, v) :: rest => by
    rw [writeFields]
    have hfield := (plain_write v).append (plain_writeFields rest)
    exact .cons ((plain_quote k).append (hfield.cons (by decide))) (by decide)

end

end AppletHost.Json
