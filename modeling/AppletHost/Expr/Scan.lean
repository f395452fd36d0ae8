import AppletHost.Expr.Token
import AppletHost.Number.Numeral
import AppletHost.Text.Blank
import AppletHost.Text.Search

/-!
# From text to tokens

`scan` cuts an expression into lexemes. Each token reader says which characters the token's text
consists of and that this text together with the rest is the text it was given (`Scanned`), so the
offsets follow from the texts.
-/

namespace AppletHost

/-- A token at the front of `cs`: its value, its text and what is left. -/
structure Scanned (cs : List Char) where
  token : Token
  text : List Char
  rest : List Char
  text_append_rest : text ++ rest = cs
  text_ne_nil : text ≠ []

theorem Scanned.rest_length_lt {cs : List Char} (s : Scanned cs) :
    s.rest.length < cs.length := by
  have h := congrArg List.length s.text_append_rest
  have := List.length_pos_iff.2 s.text_ne_nil
  rw [List.length_append] at h
  omega

/-- Characters that start a name. -/
def isNameStart (c : Char) : Bool := c.isAlpha || c == '_' || c == '$'

/-- Characters that go on with a name. -/
def isNameRest (c : Char) : Bool := c.isAlphanum || c == '_' || c == '$'

/-- Characters of a numeral. -/
def isNumeral (c : Char) : Bool := c.isDigit || c == '.'

/-- The character that `\` and this one stand for inside a string. -/
def unescape (c : Char) : Char :=
  if c = 'n' then '\n' else if c = 't' then '\t' else if c = 'r' then '\r' else c

/-- The value of a string after its opening quote, its text with the closing quote, and the rest. -/
def stringBody? (quote : Char) : List Char → Option (List Char × List Char × List Char)
  | [] => none
  | c :: cs =>
    if c = quote then some ([], [c], cs)
    else if c = '\\' then
      match cs with
      | [] => none
      | e :: cs =>
        (stringBody? quote cs).map fun (value, text, rest) =>
          (unescape e :: value, c :: e :: text, rest)
    else (stringBody? quote cs).map fun (value, text, rest) => (c :: value, c :: text, rest)

theorem stringBody?_append {quote : Char} {cs value text rest : List Char}
    (h : stringBody? quote cs = some (value, text, rest)) : text ++ rest = cs := by
  fun_induction stringBody? quote cs generalizing value text rest with
  | case1 => simp at h
  | case2 cs => simp at h; obtain ⟨-, rfl, rfl⟩ := h; rfl
  | case3 => simp at h
  | case4 _ e cs ih =>
    obtain ⟨⟨v, t, r⟩, hb, he⟩ := Option.map_eq_some_iff.1 h
    obtain ⟨-, rfl, rfl⟩ : _ ∧ _ ∧ _ := by simpa using he
    simp [ih hb]
  | case5 c cs _ _ ih =>
    obtain ⟨⟨v, t, r⟩, hb, he⟩ := Option.map_eq_some_iff.1 h
    obtain ⟨-, rfl, rfl⟩ : _ ∧ _ ∧ _ := by simpa using he
    simp [ih hb]

/-- The longest punctuation at the front of the text. -/
def punct? (cs : List Char) : Option (Punct × List Char) :=
  Punct.all.findSome? fun p => (Text.startsWith? p.text.toList cs).map fun rest => (p, rest)

theorem punct?_append {cs rest : List Char} {p : Punct} (h : punct? cs = some (p, rest)) :
    p.text.toList ++ rest = cs := by
  obtain ⟨q, -, hq⟩ := List.exists_of_findSome?_eq_some h
  obtain ⟨r, hr, he⟩ := Option.map_eq_some_iff.1 hq
  obtain ⟨rfl, rfl⟩ := Prod.mk.inj he
  exact (Text.startsWith?_eq_some_iff.1 hr).symm

theorem Punct.text_toList_ne_nil (p : Punct) : p.text.toList ≠ [] := by
  cases p <;> decide

/-- The token at the front of `c :: cs`, which stands at `offset`. -/
def token (offset : Nat) (c : Char) (cs : List Char) : Except ExprError (Scanned (c :: cs)) :=
  if c.isDigit then
    let text := c :: cs.takeWhile isNumeral
    match Number.magnitudeOf? text with
    | none => .error (.invalidNumber (String.ofList text))
    | some x =>
      .ok ⟨.num x, text, cs.dropWhile isNumeral,
        congrArg (c :: ·) List.takeWhile_append_dropWhile, by simp [text]⟩
  else if c = '"' ∨ c = '\'' then
    match h : stringBody? c cs with
    | none => .error (.unterminatedString offset)
    | some (value, text, rest) =>
      .ok ⟨.str (String.ofList value), c :: text, rest,
        congrArg (c :: ·) (stringBody?_append h), by simp⟩
  else if isNameStart c then
    let text := c :: cs.takeWhile isNameRest
    .ok ⟨.ident (String.ofList text), text, cs.dropWhile isNameRest,
      congrArg (c :: ·) List.takeWhile_append_dropWhile, by simp [text]⟩
  else
    match h : punct? (c :: cs) with
    | none => .error (.unexpectedChar c offset)
    | some (p, rest) =>
      .ok ⟨.punct p, p.text.toList, rest, punct?_append h, p.text_toList_ne_nil⟩

/-- The lexemes of a text that starts at `offset`. -/
def scanFrom (offset : Nat) : List Char → Except ExprError (List Lexeme)
  | [] => .ok []
  | c :: cs =>
    if Text.isAsciiBlank c then scanFrom (offset + c.utf8Size) cs
    else
      match token offset c cs with
      | .error e => .error e
      | .ok t =>
        have : t.rest.length < cs.length + 1 := t.rest_length_lt
        match scanFrom (offset + Text.byteLength t.text) t.rest with
        | .error e => .error e
        | .ok ts => .ok (⟨offset, t.token⟩ :: ts)
termination_by cs => cs.length

/-- The lexemes of a whole text. -/
def scan (source : String) : Except ExprError (List Lexeme) := scanFrom 0 source.toList

end AppletHost
