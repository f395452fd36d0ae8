import AppletHost.Number.Word
import AppletHost.Toml.Table

/-!
# Reading TOML

`Toml.read?` reads a configuration file: comments, bare, quoted and dotted keys, all kinds of
strings, numbers, dates and times, arrays, inline tables, table headers and arrays of tables. What
the lines build is a `Table`; only at the end does it become a value.
-/

namespace AppletHost.Toml

/-- Deepest nesting of arrays and inline tables, and the most names of one key. -/
def maxDepth : Nat := 79

/-- Space or tab. -/
def isSpace (c : Char) : Bool := c == ' ' || c == '\t'

/-- The text after spaces and tabs. -/
def skipSpaces (cs : List Char) : List Char := cs.dropWhile isSpace

/-- A control character that may not stand in a comment or a string. -/
def isControl (c : Char) : Bool := (c.toNat < 0x20 && c != '\t') || c.toNat == 0x7f

/-- The text after a line break. -/
def lineBreak? : List Char → Option (List Char)
  | '\n' :: cs => some cs
  | '\r' :: '\n' :: cs => some cs
  | _ => none

/-- The text after a comment, if one starts here. -/
def skipComment (cs : List Char) : List Char :=
  match cs with
  | '#' :: rest => rest.dropWhile fun c => !isControl c
  | cs => cs

/-- The text after spaces, comments and line breaks, with at most `fuel` line breaks. -/
def skipLines : (fuel : Nat) → List Char → List Char
  | 0, cs => cs
  | fuel + 1, cs =>
    let cs := skipComment (skipSpaces cs)
    match lineBreak? cs with
    | some rest => skipLines fuel rest
    | none => cs

/-- The text after everything that may stand between the items of an array. -/
def skipBetween (cs : List Char) : List Char := skipLines (cs.length + 1) cs

/-! ## Strings -/

/-- So many hexadecimal digits as a character. -/
def hexChar? (count : Nat) (cs : List Char) : Option (Char × List Char) :=
  let digits := cs.take count
  let value? (c : Char) : Option Nat :=
    if c.isDigit then some (c.toNat - '0'.toNat)
    else if 'a' ≤ c.toLower ∧ c.toLower ≤ 'f' then some (c.toLower.toNat - 'a'.toNat + 10)
    else none
  if digits.length = count then
    (digits.foldlM (fun n c => (value? c).map fun d => 16 * n + d) 0).bind fun n =>
      if n.isValidChar then some (Char.ofNat n, cs.drop count) else none
  else none

/-- The character of an escape, from what follows the backslash. -/
def escape? : List Char → Option (Char × List Char)
  | 'b' :: cs => some ('\x08', cs)
  | 't' :: cs => some ('\t', cs)
  | 'n' :: cs => some ('\n', cs)
  | 'f' :: cs => some ('\x0c', cs)
  | 'r' :: cs => some ('\r', cs)
  | '"' :: cs => some ('"', cs)
  | '\\' :: cs => some ('\\', cs)
  | 'u' :: cs => hexChar? 4 cs
  | 'U' :: cs => hexChar? 8 cs
  | _ => none

/-- The rest of a string on one line, after its opening quote. -/
def lineString? (quote : Char) : (fuel : Nat) → List Char → Option (List Char × List Char)
  | 0, _ => none
  | _, [] => none
  | fuel + 1, c :: cs =>
    if c = quote then some ([], cs)
    else if c = '\\' ∧ quote = '"' then do
      let (d, rest) ← escape? cs
      let (text, rest) ← lineString? quote fuel rest
      some (d :: text, rest)
    else if isControl c then none
    else (lineString? quote fuel cs).map fun (text, rest) => (c :: text, rest)

/-- The text after spaces, tabs and line breaks. -/
def skipWhite : List Char → List Char
  | '\r' :: '\n' :: cs => skipWhite cs
  | c :: cs => if isSpace c || c == '\n' then skipWhite cs else c :: cs
  | [] => []

/-- The rest of a string over several lines, after its opening quotes. Every line break is `\n`. -/
def blockString? (quote : Char) : (fuel : Nat) → List Char → Option (List Char × List Char)
  | 0, _ => none
  | _, [] => none
  | fuel + 1, c :: cs =>
    let add (c : Char) (rest : List Char) : Option (List Char × List Char) :=
      (blockString? quote fuel rest).map fun (text, rest) => (c :: text, rest)
    if c = quote then
      let run := (c :: cs).takeWhile (· == quote)
      if run.length < 3 then add c cs
      else if 5 < run.length then none
      else some (run.drop 3, cs.drop (run.length - 1))
    else if c = '\\' ∧ quote = '"' then
      match escape? cs with
      | some (d, rest) => add d rest
      | none =>
        match lineBreak? (skipSpaces cs) with
        | some rest => blockString? quote fuel (skipWhite rest)
        | none => none
    else if c = '\r' then
      match cs with
      | '\n' :: rest => add '\n' rest
      | _ => none
    else if c = '\n' then add c cs
    else if isControl c then none
    else add c cs

/-- A string of any kind. -/
def string? (cs : List Char) : Option (String × List Char) :=
  let result (t : Option (List Char × List Char)) : Option (String × List Char) :=
    t.map fun (text, rest) => (String.ofList text, rest)
  let block (quote : Char) (cs : List Char) : Option (String × List Char) :=
    let cs := (lineBreak? cs).getD cs
    result (blockString? quote (cs.length + 1) cs)
  match cs with
  | '"' :: '"' :: '"' :: rest => block '"' rest
  | '\'' :: '\'' :: '\'' :: rest => block '\'' rest
  | '"' :: rest => result (lineString? '"' (rest.length + 1) rest)
  | '\'' :: rest => result (lineString? '\'' (rest.length + 1) rest)
  | _ => none

/-! ## Keys -/

/-- Characters of a key without quotes. -/
def isBare (c : Char) : Bool := c.isAlphanum || c == '_' || c == '-'

/-- One name of a key. -/
def name? (cs : List Char) : Option (String × List Char) :=
  match cs with
  | '"' :: rest => (lineString? '"' (rest.length + 1) rest).map fun (t, r) => (String.ofList t, r)
  | '\'' :: rest =>
    (lineString? '\'' (rest.length + 1) rest).map fun (t, r) => (String.ofList t, r)
  | cs =>
    let bare := cs.takeWhile isBare
    if bare = [] then none else some (String.ofList bare, cs.dropWhile isBare)

/-- At most so many names with dots between them, and the text after them and their spaces. -/
def names? : (count : Nat) → List Char → Option (List String × List Char)
  | 0, _ => none
  | count + 1, cs => do
    let (name, rest) ← name? (skipSpaces cs)
    match skipSpaces rest with
    | '.' :: rest => (names? count rest).map fun (names, rest) => (name :: names, rest)
    | rest => some ([name], rest)

/-- A key, and the text after it and its spaces. -/
def key? (cs : List Char) : Option (List String × List Char) := names? maxDepth cs

/-! ## Numbers and dates -/

/-- Digits with single underscores between them, without the underscores. -/
def plainDigits? (isDigit : Char → Bool) : List Char → Option (List Char)
  | [] => none
  | [c] => if isDigit c then some [c] else none
  | c :: '_' :: rest => if isDigit c then (plainDigits? isDigit rest).map (c :: ·) else none
  | c :: rest => if isDigit c then (plainDigits? isDigit rest).map (c :: ·) else none

/-- The number in base `base`. -/
def ofBase (base : Nat) (cs : List Char) : Nat :=
  cs.foldl (fun n c =>
    base * n + (if c.isDigit then c.toNat - '0'.toNat else c.toLower.toNat - 'a'.toNat + 10)) 0

/-- The sign and the rest of a number. -/
def sign : List Char → Bool × List Char
  | '-' :: cs => (true, cs)
  | '+' :: cs => (false, cs)
  | cs => (false, cs)

/-- An integer that fits 64 bits with its sign. -/
def fitted? (n : Int) : Option Value :=
  if Number.isSigned64 n then some (.int n) else none

/-- Digits without a leading zero, other than zero itself. -/
def decimalDigits? (cs : List Char) : Option (List Char) :=
  (plainDigits? Char.isDigit cs).bind fun ds =>
    match ds with
    | '0' :: _ :: _ => none
    | ds => some ds

/-- A whole token as an integer. -/
def integer? (cs : List Char) : Option Value :=
  let based (base : Nat) (isDigit : Char → Bool) (cs : List Char) : Option Value :=
    (plainDigits? isDigit cs).bind fun ds => fitted? (ofBase base ds)
  match cs with
  | '0' :: 'x' :: ds => based 16 (fun c => c.isDigit || ('a' ≤ c.toLower && c.toLower ≤ 'f')) ds
  | '0' :: 'o' :: ds => based 8 (fun c => '0' ≤ c && c ≤ '7') ds
  | '0' :: 'b' :: ds => based 2 (fun c => c == '0' || c == '1') ds
  | cs =>
    let (negative, ds) := sign cs
    (decimalDigits? ds).bind fun ds =>
      let n : Int := Number.ofDigits ds
      fitted? (if negative then -n else n)

/-- The magnitude of a double without its sign. -/
def magnitude? (cs : List Char) : Option Float := do
  let isE (c : Char) : Bool := c == 'e' || c == 'E'
  let mantissa := cs.takeWhile fun c => !isE c
  let exponent := (cs.dropWhile fun c => !isE c).drop 1
  let e ← if mantissa.length = cs.length then some 0
    else
      let (negative, ds) := sign exponent
      (plainDigits? Char.isDigit ds).map fun ds =>
        let n : Int := Number.ofDigits ds
        if negative then -n else n
  let whole ← decimalDigits? (mantissa.takeWhile (· != '.'))
  let places ← match mantissa.dropWhile (· != '.') with
    | _ :: ds => plainDigits? Char.isDigit ds
    | [] => if mantissa.length = cs.length then none else some []
  some (Number.scaled (Number.ofDigits (whole ++ places)) (e - places.length))

/-- A whole token as a double. Digits may be too many for a negative one, not for a positive one. -/
def double? (cs : List Char) : Option Value := do
  let (negative, cs) := sign cs
  let signed (x : Float) : Value := .float (if negative then -x else x)
  if cs = "inf".toList then return signed (1.0 / 0.0)
  if cs = "nan".toList then return signed Number.nan
  let x ← magnitude? cs
  if negative || Number.isFinite x then some (signed x) else none

/-- Characters of a number, a truth value or a name of one. -/
def isTokenChar (c : Char) : Bool :=
  c.isAlphanum || c == '+' || c == '-' || c == '_' || c == '.' || c == ':'

/-- A truth value, a number or a moment at the front of the text. -/
def scalar? (cs : List Char) : Option (Node × List Char) :=
  match moment? cs with
  | some (m, rest) => some (.moment m, rest)
  | none =>
    let token := cs.takeWhile isTokenChar
    let rest := cs.dropWhile isTokenChar
    let value :=
      if token = "true".toList then some (.bool true)
      else if token = "false".toList then some (.bool false)
      else (integer? token).orElse fun _ => double? token
    value.map fun v => (.leaf v, rest)

/-! ## Values -/

/-- Takes a value off the front of a text. -/
abbrev NodeReader := List Char → Option (Node × List Char)

/-- The items of an array after `[`, up to and with the `]`. -/
def items? (inner : NodeReader) : (fuel : Nat) → List Char → Option (List Node × List Char)
  | 0, _ => none
  | fuel + 1, cs =>
    match skipBetween cs with
    | ']' :: rest => some ([], rest)
    | cs => do
      let (node, rest) ← inner cs
      match skipBetween rest with
      | ']' :: rest => some ([node], rest)
      | ',' :: rest => (items? inner fuel rest).map fun (nodes, rest) => (node :: nodes, rest)
      | _ => none

/-- A key with its value. -/
def pair? (inner : NodeReader) (cs : List Char) : Option ((List String × Node) × List Char) := do
  let (key, rest) ← key? cs
  let rest ← Text.startsWith? ['='] rest
  let (node, rest) ← inner (skipSpaces rest)
  some ((key, node), rest)

/-- The pairs of an inline table after its opening brace, at least one. -/
def inline? (inner : NodeReader) (t : Table) : (fuel : Nat) → List Char →
    Option (Table × List Char)
  | 0, _ => none
  | fuel + 1, cs => do
    let ((key, node), rest) ← pair? inner cs
    let t ← t.setKey? node true key
    match skipSpaces rest with
    | ',' :: rest => inline? inner t fuel rest
    | '\x7d' :: rest => some (t, rest)
    | _ => none

/-- A value at the front of the text, nested at most `depth` levels. -/
def node? : (depth : Nat) → NodeReader
  | depth, cs =>
    match cs with
    | '"' :: _ => (string? cs).map fun (s, rest) => (.leaf (.str s), rest)
    | '\'' :: _ => (string? cs).map fun (s, rest) => (.leaf (.str s), rest)
    | '[' :: rest =>
      match depth with
      | 0 => none
      | depth + 1 =>
        (items? (node? depth) (rest.length + 1) rest).map fun (nodes, rest) => (.array nodes, rest)
    | '\x7b' :: rest =>
      match depth with
      | 0 => none
      | depth + 1 =>
        match skipSpaces rest with
        | '\x7d' :: rest => some (.closed [], rest)
        | rest =>
          (inline? (node? depth) [] (rest.length + 1) rest).map fun (t, rest) => (.closed t, rest)
    | cs => scalar? cs

/-! ## Files -/

/-- The tables read so far, and the path of the one that is open. -/
structure State where
  root : Table
  path : List String

/-- The key of a header, which ends with `closing`. -/
def headerKey? (closing cs : List Char) : Option (List String × List Char) := do
  let (key, rest) ← key? cs
  let rest ← Text.startsWith? closing rest
  some (key, rest)

/-- What stands on a line that is not blank. -/
def statement? (s : State) (cs : List Char) : Option (State × List Char) :=
  match cs with
  | '[' :: '[' :: rest => do
    let (key, rest) ← headerKey? [']', ']'] rest
    let root ← s.root.append? key
    some (⟨root, key⟩, rest)
  | '[' :: rest => do
    let (key, rest) ← headerKey? [']'] rest
    let root ← s.root.open? key
    some (⟨root, key⟩, rest)
  | cs => do
    let ((key, node), rest) ← pair? (node? maxDepth) cs
    let root ← s.root.setAt? key node s.path
    some ({ s with root }, rest)

/-- Reads lines to the end of the text. -/
def lines? : (fuel : Nat) → State → List Char → Option State
  | 0, _, _ => none
  | fuel + 1, s, cs =>
    match skipBetween cs with
    | [] => some s
    | cs => do
      let (s, rest) ← statement? s cs
      match skipComment (skipSpaces rest) with
      | [] => some s
      | rest => (lineBreak? rest).bind fun rest => lines? fuel s rest

/-- The tree of a whole file. A byte order mark in front of it is skipped. -/
def read? (text : String) : Option Value :=
  let cs := match text.toList with
    | '\ufeff' :: cs => cs
    | cs => cs
  (lines? (cs.length + 1) ⟨[], []⟩ cs).bind fun s => (Node.table .header s.root).value?

end AppletHost.Toml
