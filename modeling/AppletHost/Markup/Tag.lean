import AppletHost.Markup.Basic
import AppletHost.Text.Blank
import AppletHost.Text.Taken

/-!
# Start tags

Where a start tag ends, its name, and its attributes. A `>` inside quotes does not end the tag, and a
value may be quoted with either quote or stand bare up to the next blank.
-/

namespace AppletHost.Markup

/-- Either quote. -/
def isQuote (c : Char) : Bool := c == '"' || c == '\''

/-- The inside of a tag up to the `>` that ends it, and what follows; `quote` is the open quote. -/
def tagEnd? (quote : Option Char) : List Char → Option (List Char × List Char)
  | [] => none
  | c :: cs =>
    match quote with
    | some q =>
      (tagEnd? (if c = q then none else some q) cs).map fun (inside, rest) => (c :: inside, rest)
    | none =>
      if c = '>' then some ([], cs)
      else
        (tagEnd? (if isQuote c then some c else none) cs).map fun (inside, rest) =>
          (c :: inside, rest)

/-- The name of a start tag, the text of its attributes, and whether a `/` closes it at once. -/
structure StartTag where
  name : List Char
  attributes : List Char
  selfClosing : Bool
deriving DecidableEq, Repr

/-- Takes the inside of a start tag apart. -/
def splitStartTag (inside : List Char) : StartTag :=
  let trimmed := Text.trim inside
  let selfClosing := trimmed.getLast? == some '/'
  let core := if selfClosing then Text.trimRight trimmed.dropLast else trimmed
  { name := core.takeWhile fun c => !Text.isBlank c
    attributes := Text.trimLeft (core.dropWhile fun c => !Text.isBlank c)
    selfClosing }

/-- Characters of an attribute name. -/
def isNameChar (c : Char) : Bool := !Text.isAsciiBlank c && c != '=' && c != '/'

/-- The text from the next character on that is not blank. -/
def skipAscii (cs : List Char) : List Char := cs.dropWhile Text.isAsciiBlank

theorem length_skipAscii_le (cs : List Char) : (skipAscii cs).length ≤ cs.length :=
  Text.length_dropWhile_le _ _

/-- The value after `=` and blanks, and what follows it. -/
def attributeValue : List Char → List Char × List Char
  | [] => ([], [])
  | c :: cs =>
    if isQuote c then (cs.takeWhile (· != c), (cs.dropWhile (· != c)).drop 1)
    else
      ((c :: cs).takeWhile fun d => !Text.isAsciiBlank d,
        (c :: cs).dropWhile fun d => !Text.isAsciiBlank d)

theorem length_attributeValue_le (cs : List Char) :
    (attributeValue cs).2.length ≤ cs.length := by
  cases cs with
  | nil => simp [attributeValue]
  | cons c cs =>
    rw [attributeValue]
    split
    · have := Text.length_dropWhile_le (· != c) cs
      simp only [List.length_drop, List.length_cons]; omega
    · exact Text.length_dropWhile_le _ _

theorem length_lt_of_skipAscii {cs rest : List Char} {c : Char} (h : skipAscii cs = c :: rest) :
    rest.length < cs.length := by
  have := length_skipAscii_le cs
  rw [h, List.length_cons] at this
  omega

theorem length_afterName_le {cs after : List Char} (p : Char → Bool)
    (h : skipAscii (cs.dropWhile p) = after) : after.length ≤ cs.length :=
  h ▸ Nat.le_trans (length_skipAscii_le _) (Text.length_dropWhile_le p cs)

/-- The attributes of a start tag, in order. -/
def attributes (cs : List Char) : List Attribute :=
  match h : skipAscii cs with
  | [] => []
  | c :: rest =>
    have rest_lt := length_lt_of_skipAscii h
    if isNameChar c then
      let name := String.ofList (c :: rest.takeWhile isNameChar)
      match h' : skipAscii (rest.dropWhile isNameChar) with
      | '=' :: afterEquals =>
        have := Nat.lt_of_le_of_lt
          (Nat.le_trans (length_attributeValue_le _) (length_skipAscii_le afterEquals))
          (Nat.lt_trans (Nat.lt_of_succ_le (length_afterName_le _ h')) rest_lt)
        ⟨name, some (String.ofList (attributeValue (skipAscii afterEquals)).1)⟩
          :: attributes (attributeValue (skipAscii afterEquals)).2
      | after =>
        have := Nat.lt_of_le_of_lt (length_afterName_le _ h') rest_lt
        ⟨name, none⟩ :: attributes after
    else attributes rest
termination_by cs.length

end AppletHost.Markup
