/-!
# Finding a word in a text

`startsWith?` takes a word off the front of a text, `breakOn?` cuts a text at the first place where
the word stands, and `without` leaves the word out wherever it stands.
-/

namespace AppletHost.Text

/-- What follows `word` at the front of the text. -/
def startsWith? : (word cs : List Char) → Option (List Char)
  | [], cs => some cs
  | _ :: _, [] => none
  | w :: word, c :: cs => if w = c then startsWith? word cs else none

/-- The text before the first place where `matches?` succeeds, and what it leaves there. -/
def breakAt? (matches? : List Char → Option (List Char)) :
    List Char → Option (List Char × List Char)
  | [] => (matches? []).map fun rest => ([], rest)
  | c :: cs =>
    match matches? (c :: cs) with
    | some rest => some ([], rest)
    | none => (breakAt? matches? cs).map fun (before, rest) => (c :: before, rest)

/-- The text before the first `word`, and the text after it. -/
def breakOn? (word cs : List Char) : Option (List Char × List Char) :=
  breakAt? (startsWith? word) cs

/-- What follows `word` at the front of the text, where ASCII letters match in either case. -/
def startsWithFolded? : (word cs : List Char) → Option (List Char)
  | [], cs => some cs
  | _ :: _, [] => none
  | w :: word, c :: cs => if w = c.toLower then startsWithFolded? word cs else none

/-- How many bytes a text has in UTF-8. -/
def byteLength (cs : List Char) : Nat := cs.foldl (fun n c => n + c.utf8Size) 0

/-- The text without its first `n` bytes; a character of which one byte goes is gone. -/
def dropBytes : (n : Nat) → List Char → List Char
  | 0, cs => cs
  | _, [] => []
  | n + 1, c :: cs => dropBytes (n + 1 - c.utf8Size) cs

/-- The characters that start within the first `n` bytes. -/
def takeBytes : (n : Nat) → List Char → List Char
  | 0, _ => []
  | _, [] => []
  | n + 1, c :: cs => c :: takeBytes (n + 1 - c.utf8Size) cs

/-- ASCII letters in lower case, all else as it is. -/
def lowercase (cs : List Char) : List Char := cs.map Char.toLower

theorem startsWith?_eq_some_iff {word cs rest : List Char} :
    startsWith? word cs = some rest ↔ cs = word ++ rest := by
  induction word generalizing cs with
  | nil => simp [startsWith?]
  | cons w word ih =>
    cases cs with
    | nil => simp [startsWith?]
    | cons c cs =>
      by_cases h : w = c
      · subst h; simp [startsWith?, ih]
      · simp [startsWith?, h, Ne.symm h]

theorem length_of_startsWithFolded? {word cs rest : List Char}
    (h : startsWithFolded? word cs = some rest) : word.length + rest.length = cs.length := by
  induction word generalizing cs with
  | nil => simp_all [startsWithFolded?]
  | cons w word ih =>
    cases cs with
    | nil => simp [startsWithFolded?] at h
    | cons c cs =>
      rw [startsWithFolded?] at h
      split at h
      · have := ih h; simp only [List.length_cons]; omega
      · simp at h

theorem breakAt?_append {matches? : List Char → Option (List Char)} {cs before rest : List Char}
    (h : breakAt? matches? cs = some (before, rest)) :
    ∃ here, matches? here = some rest ∧ cs = before ++ here := by
  induction cs generalizing before with
  | nil =>
    obtain ⟨r, hr, he⟩ := Option.map_eq_some_iff.1 h
    obtain ⟨rfl, rfl⟩ := Prod.mk.inj he
    exact ⟨[], hr, rfl⟩
  | cons c cs ih =>
    rw [breakAt?] at h
    split at h
    · next r hr =>
      obtain ⟨rfl, rfl⟩ := Prod.mk.inj (Option.some.inj h)
      exact ⟨c :: cs, hr, rfl⟩
    · obtain ⟨⟨b, r⟩, hb, he⟩ := Option.map_eq_some_iff.1 h
      obtain ⟨rfl, rfl⟩ := Prod.mk.inj he
      obtain ⟨here, hh, rfl⟩ := ih hb
      exact ⟨here, hh, rfl⟩

theorem breakOn?_append {word cs before rest : List Char}
    (h : breakOn? word cs = some (before, rest)) : cs = before ++ word ++ rest := by
  obtain ⟨here, hh, rfl⟩ := breakAt?_append h
  rw [startsWith?_eq_some_iff.1 hh, List.append_assoc]

/-- A text is not cut just if the word stands nowhere in it. -/
theorem breakOn?_eq_none_iff {word cs : List Char} :
    breakOn? word cs = none ↔ ¬ word <:+: cs := by
  induction cs with
  | nil =>
    cases word with
    | nil => simp [breakOn?, breakAt?, startsWith?]
    | cons w word => simp [breakOn?, breakAt?, startsWith?]
  | cons c cs ih =>
    rw [breakOn?] at ih ⊢
    rw [breakAt?, List.infix_cons_iff]
    split
    next rest hhere =>
      refine iff_of_false (Option.some_ne_none _) fun hnone => hnone (Or.inl ?_)
      exact ⟨rest, (startsWith?_eq_some_iff.1 hhere).symm⟩
    next hnot =>
      have hhere : ¬ word <+: c :: cs := by
        intro hprefix
        obtain ⟨rest, hrest⟩ := hprefix
        rw [startsWith?_eq_some_iff.2 hrest.symm] at hnot
        cases hnot
      rw [Option.map_eq_none_iff, ih, or_iff_right hhere]

theorem length_after_breakOn?_lt {word cs before rest : List Char} (hw : word ≠ [])
    (h : breakOn? word cs = some (before, rest)) : rest.length < cs.length := by
  have := congrArg List.length (breakOn?_append h)
  have := List.length_pos_iff.2 hw
  simp only [List.length_append] at *
  omega

/-- The text without the word, wherever it stands; the empty word stands nowhere. -/
def without (word cs : List Char) : List Char :=
  if hw : word = [] then cs
  else
    match h : breakOn? word cs with
    | none => cs
    | some (before, rest) =>
      have := length_after_breakOn?_lt hw h
      before ++ without word rest
termination_by cs.length

end AppletHost.Text
