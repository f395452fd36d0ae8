import AppletHost.Number.Numeral
import AppletHost.Number.Word
import AppletHost.Text.Search
import AppletHost.Text.Taken
import AppletHost.Value.Basic

/-!
# Reading JSON

`Json.read?` reads one whole text. Numbers without fraction and exponent that fit 64 bits, signed or
unsigned, are integers; all others, and `-0`, are doubles, and a number beyond the doubles is
refused. Of two fields with one name the later stays. Arrays and objects may nest at most `maxDepth`
levels.

The reader for one level takes the reader for the level below as its argument, so the depth bounds
the recursion and the length of the text bounds every loop.
-/

namespace AppletHost.Json

open Text (Taken)

/-- Deepest nesting of arrays and objects in a text from outside. -/
def maxDepth : Nat := 127

/-- The four blanks between the tokens of a JSON text. -/
def isBlank (c : Char) : Bool := c == ' ' || c == '\n' || c == '\r' || c == '\t'

/-- The text from the next token on. -/
def skipBlanks (cs : List Char) : List Char := cs.dropWhile isBlank

theorem length_skipBlanks_le (cs : List Char) : (skipBlanks cs).length ≤ cs.length :=
  Text.length_dropWhile_le _ _

/-! ## Numbers -/

/-- Smallest integer that is kept as one. -/
def minInt : Int := -Number.signedLimit

/-- Largest integer that is kept as one. -/
def maxInt : Int := Number.limit64 - 1

/-- Appends decimal digits to `n` while the result fits 64 bits, and gives the digits left over. -/
def absorb (n : Nat) : List Char → Nat × List Char
  | [] => (n, [])
  | c :: cs =>
    let next := 10 * n + Number.digitValue c
    if next < Number.limit64 then absorb next cs else (n, c :: cs)

/-- The power of ten as a double. -/
def power (e : Nat) : Float := Float.ofScientific 1 false e

/--
`n · 10 ^ e`, computed with one rounded multiplication or division by a power of ten (two divisions
below `10 ^ -308`); `none` beyond the doubles.
-/
def scale? (n : Nat) (e : Int) : Option Float :=
  let x := Float.ofNat n
  if n = 0 then some x
  else if 308 < e then none
  else if 0 ≤ e then
    let y := x * power e.toNat
    if Number.isFinite y then some y else none
  else if -308 ≤ e then some (x / power (-e).toNat)
  else if -616 ≤ e then some (x / power 308 / power (-e - 308).toNat)
  else some 0.0

/-- The double with these digits before and after the point, times `10 ^ e`. -/
def double? (whole places : List Char) (e : Int) : Option Float :=
  let (n, wholeLeft) := absorb 0 whole
  let (n, placesLeft) := absorb n places
  scale? n (e + wholeLeft.length - (places.length - placesLeft.length : Nat))

/-- The value of a numeral without fraction and exponent. -/
def whole? (negative : Bool) (digits : List Char) : Option Value :=
  let n := Number.ofDigits digits
  let i : Int := if negative then -(n : Int) else n
  if minInt ≤ i ∧ i ≤ maxInt ∧ ¬ (negative ∧ n = 0) then some (.int i)
  else (double? digits [] 0).map fun x => .float (if negative then -x else x)

/-- The fraction of a numeral, if there is one: its digits and the rest. -/
def fraction? : List Char → Option (List Char × List Char)
  | '.' :: cs =>
    let places := cs.takeWhile Char.isDigit
    if places = [] then none else some (places, cs.dropWhile Char.isDigit)
  | cs => some ([], cs)

/-- The exponent of a numeral, if there is one: `none` when it has no digits. -/
def exponent? (cs : List Char) : Option (Option Int × List Char) :=
  let digits (negative : Bool) (cs : List Char) : Option (Option Int × List Char) :=
    let ds := cs.takeWhile Char.isDigit
    let n : Int := Number.ofDigits ds
    if ds = [] then none
    else some (some (if negative then -n else n), cs.dropWhile Char.isDigit)
  match cs with
  | [] => some (none, [])
  | c :: rest =>
    if c = 'e' ∨ c = 'E' then
      match rest with
      | '-' :: ds => digits true ds
      | '+' :: ds => digits false ds
      | ds => digits false ds
    else some (none, c :: rest)

/-- The digits before the point: a single zero, or a run that starts with another digit. -/
def wholeDigits? : List Char → Option (List Char × List Char)
  | '0' :: cs => some (['0'], cs)
  | cs =>
    let ds := cs.takeWhile Char.isDigit
    if ds = [] then none else some (ds, cs.dropWhile Char.isDigit)

/-- A number at the front of the text, after its sign. -/
def magnitude? (negative : Bool) (cs : List Char) : Option (Value × List Char) := do
  let (whole, afterWhole) ← wholeDigits? cs
  let (places, afterPlaces) ← fraction? afterWhole
  let (e, rest) ← exponent? afterPlaces
  if places = [] ∧ e = none then
    let v ← whole? negative whole
    some (v, rest)
  else
    let x ← double? whole places (e.getD 0)
    some (.float (if negative then -x else x), rest)

/-- A number at the front of the text. -/
def number? : List Char → Option (Value × List Char)
  | '-' :: cs => magnitude? true cs
  | cs => magnitude? false cs

/-! ## Strings -/

/-- The value of a digit of a `\u` escape. -/
def hexValue? (c : Char) : Option Nat :=
  if '0' ≤ c ∧ c ≤ '9' then some (c.toNat - '0'.toNat)
  else if 'a' ≤ c ∧ c ≤ 'f' then some (c.toNat - 'a'.toNat + 10)
  else if 'A' ≤ c ∧ c ≤ 'F' then some (c.toNat - 'A'.toNat + 10)
  else none

/-- Four hexadecimal digits. -/
def unit? : List Char → Option (Nat × List Char)
  | a :: b :: c :: d :: rest => do
    let a ← hexValue? a
    let b ← hexValue? b
    let c ← hexValue? c
    let d ← hexValue? d
    some (((a * 16 + b) * 16 + c) * 16 + d, rest)
  | _ => none

/--
The character of a `\u` escape, from what follows the `u`. A leading surrogate needs the escape of a
trailing one behind it, and a trailing one never stands alone.
-/
def unicode? (cs : List Char) : Option (Char × List Char) := do
  let (high, rest) ← unit? cs
  if 0xd800 ≤ high ∧ high < 0xdc00 then
    match rest with
    | '\\' :: 'u' :: rest => do
      let (low, rest) ← unit? rest
      if 0xdc00 ≤ low ∧ low < 0xe000 then
        some (Char.ofNat (0x10000 + (high - 0xd800) * 0x400 + (low - 0xdc00)), rest)
      else none
    | _ => none
  else if 0xdc00 ≤ high ∧ high < 0xe000 then none
  else some (Char.ofNat high, rest)

/-- The character that an escape stands for, from what follows the backslash. -/
def escape? : List Char → Option (Char × List Char)
  | '"' :: cs => some ('"', cs)
  | '\\' :: cs => some ('\\', cs)
  | '/' :: cs => some ('/', cs)
  | 'b' :: cs => some ('\x08', cs)
  | 'f' :: cs => some ('\x0c', cs)
  | 'n' :: cs => some ('\n', cs)
  | 'r' :: cs => some ('\r', cs)
  | 't' :: cs => some ('\t', cs)
  | 'u' :: cs => unicode? cs
  | _ => none

/-- What follows the opening quote of a string, up to and with the closing one. -/
def string? (cs : List Char) : Option (Taken (List Char) cs) :=
  match cs with
  | [] => none
  | '"' :: rest => some ⟨[], rest, by simp⟩
  | '\\' :: escaped =>
    match escape? escaped with
    | none => none
    | some (c, rest) =>
      if h : rest.length < escaped.length then
        (string? rest).map fun t =>
          (t.map (c :: ·)).within (by simp only [List.length_cons]; omega)
      else none
  | c :: rest =>
    if c.toNat < 0x20 then none
    else (string? rest).map fun t => (t.map (c :: ·)).within (by simp)
termination_by cs.length

/-! ## Values -/

/-- A reader that takes a value off the front of any text. -/
abbrev ValueReader := (cs : List Char) → Option (Taken Value cs)

/-- The items of an array after `[`, at least one, up to and with the `]`. -/
def items? (inner : ValueReader) (cs : List Char) : Option (Taken (List Value) cs) :=
  match inner cs with
  | none => none
  | some v =>
    match h : skipBlanks v.rest with
    | ']' :: rest =>
      some ⟨[v.value], rest, by
        have := v.shorter; have := length_skipBlanks_le v.rest
        simp only [h, List.length_cons] at this; omega⟩
    | ',' :: rest =>
      have shorter : rest.length < cs.length := by
        have := v.shorter; have := length_skipBlanks_le v.rest
        simp only [h, List.length_cons] at this; omega
      (items? inner rest).map fun t => (t.map (v.value :: ·)).within (Nat.le_of_lt shorter)
    | _ => none
termination_by cs.length

/-- A field name with its colon. -/
def name? (cs : List Char) : Option (Taken String cs) :=
  match h : skipBlanks cs with
  | '"' :: quoted =>
    match string? quoted with
    | none => none
    | some name =>
      match h' : skipBlanks name.rest with
      | ':' :: rest =>
        some ⟨String.ofList name.value, rest, by
          have := name.shorter; have h1 := length_skipBlanks_le name.rest
          have h2 := length_skipBlanks_le cs
          simp only [h, h', List.length_cons] at h1 h2; omega⟩
      | _ => none
  | _ => none

/-- The fields of an object after its opening brace, at least one, up to and with the closing one. -/
def fields? (inner : ValueReader) (cs : List Char) : Option (Taken (List (String × Value)) cs) :=
  match name? cs with
  | none => none
  | some name =>
    match inner name.rest with
    | none => none
    | some v =>
      match h : skipBlanks v.rest with
      | '}' :: rest =>
        some ⟨[(name.value, v.value)], rest, by
          have := name.shorter; have := v.shorter; have := length_skipBlanks_le v.rest
          simp only [h, List.length_cons] at this; omega⟩
      | ',' :: rest =>
        have shorter : rest.length < cs.length := by
          have := name.shorter; have := v.shorter; have := length_skipBlanks_le v.rest
          simp only [h, List.length_cons] at this; omega
        (fields? inner rest).map fun t =>
          (t.map ((name.value, v.value) :: ·)).within (Nat.le_of_lt shorter)
      | _ => none
termination_by cs.length

/-- The literal `word` at the front of the text. -/
def literal? (word : List Char) (v : Value) (cs : List Char) : Option (Value × List Char) :=
  (Text.startsWith? word cs).map fun rest => (v, rest)

/-- A value at the front of the text that is no array and no object. -/
def scalar? (cs : List Char) : Option (Value × List Char) :=
  match cs with
  | '"' :: quoted => (string? quoted).map fun t => (.str (String.ofList t.value), t.rest)
  | 'n' :: _ => literal? "null".toList .null cs
  | 't' :: _ => literal? "true".toList (.bool true) cs
  | 'f' :: _ => literal? "false".toList (.bool false) cs
  | cs => number? cs

/-- A value at the front of the text, after blanks, with arrays and objects left to `inner`. -/
def container? (inner : ValueReader) (cs : List Char) : Option (Value × List Char) :=
  match cs with
  | '[' :: rest =>
    match skipBlanks rest with
    | ']' :: rest => some (.arr [], rest)
    | rest => (items? inner rest).map fun t => (.arr t.value, t.rest)
  | '{' :: rest =>
    match skipBlanks rest with
    | '}' :: rest => some (.obj [], rest)
    | rest => (fields? inner rest).map fun t => (.obj (Fields.ofList t.value), t.rest)
  | cs => scalar? cs

/-- Keeps a reading only if it used up some of the text. -/
def progressing (reader : List Char → Option (Value × List Char)) : ValueReader := fun cs =>
  match reader cs with
  | none => none
  | some (v, rest) => if h : rest.length < cs.length then some ⟨v, rest, h⟩ else none

/-- A value at the front of the text, after blanks, nested at most `depth` levels. -/
def value? : (depth : Nat) → ValueReader
  | 0 => progressing fun cs => match skipBlanks cs with
    | '[' :: _ => none
    | '{' :: _ => none
    | cs => scalar? cs
  | depth + 1 => progressing fun cs => container? (value? depth) (skipBlanks cs)

/-- The value of a whole text that nests at most `depth` levels. -/
def readWithin? (depth : Nat) (text : String) : Option Value := do
  let t ← value? depth text.toList
  if skipBlanks t.rest = [] then some t.value else none

/-- The value of a whole text from outside. -/
def read? (text : String) : Option Value := readWithin? maxDepth text

end AppletHost.Json
