import AppletHost.Logging.Basic
import AppletHost.Number.Numeral
import AppletHost.Text.Blank

/-!
# Filter directives

A directive names a target, a span in brackets, or both, and perhaps a level after `=`; a level alone
is a directive too, and one comma may end it. A span may list fields in braces. The level of a
`LogConfig` is a list of directives with commas between them.

Blanks around a directive do not count for its shape. Its level, however, is looked up in the text
with the blanks, at the byte where it stands without them, so that blanks spoil it.
-/

namespace AppletHost.Logging

/-- Names of levels in a directive, other than numbers. -/
def levelNames : List String := ["trace", "debug", "info", "warn", "error", "off"]

/-- The number of a level: digits, perhaps after a plus sign, that denote at most five. -/
def isLevelNumber (cs : List Char) : Bool :=
  let digits := match cs with
    | '+' :: rest => rest
    | cs => cs
  digits != [] && digits.all Char.isDigit && decide (Number.ofDigits digits ≤ 5)

/-- The text after `=` names a level, or is empty. -/
def isLevel (cs : List Char) : Bool :=
  cs = [] || levelNames.contains (String.ofList (Text.lowercase cs)) || isLevelNumber cs

/-- Characters with which a target may start. -/
def isTargetStart (c : Char) : Bool :=
  c.isAlphanum || c == '-' || c == ':' || c == '_' || 0x80 ≤ c.toNat

/-- The pieces of a text between commas. -/
def commaPieces (cs : List Char) : List (List Char) :=
  cs.foldr (fun c pieces =>
    match pieces with
    | piece :: rest => if c = ',' then [] :: piece :: rest else (c :: piece) :: rest
    | [] => [[c]]) [[]]

/-- A directive that is being read: its text, and the same without the blanks around it. -/
structure Draft where
  text : List Char
  core : List Char

namespace Draft

/-- The text from the place on where `rest`, which ends the core, stands in the core. -/
def textAt (d : Draft) (rest : List Char) : List Char :=
  Text.dropBytes (Text.byteLength d.core - Text.byteLength rest) d.text

/-- What follows `=` is a level, or nothing. -/
def levelIsGood (d : Draft) (rest : List Char) : Bool :=
  match rest.dropWhile (· != ',') with
  | [] => isLevel (d.textAt rest)
  | [_] =>
    let length := Text.byteLength (rest.takeWhile (· != ','))
    isLevel (Text.takeBytes length (d.textAt rest))
  | _ => false

/-- What follows the span: nothing, or a level. -/
def isGoodAfterSpan (d : Draft) : List Char → Bool
  | [] => true
  | '=' :: rest => d.levelIsGood rest
  | _ => false

/-- What follows the opening bracket of a span: its name, perhaps fields, and the rest. -/
def spanIsGood (d : Draft) (cs : List Char) : Bool :=
  match cs.dropWhile fun c => c != ']' && c != '\x7b' with
  | ']' :: rest => d.isGoodAfterSpan rest
  | '\x7b' :: rest =>
    let fields := rest.takeWhile (· != '\x7d')
    match rest.dropWhile (· != '\x7d') with
    | '\x7d' :: ']' :: rest => (commaPieces fields).all (· != []) && d.isGoodAfterSpan rest
    | _ => false
  | _ => false

/-- What follows the first character of a target. -/
def targetIsGood (d : Draft) (cs : List Char) : Bool :=
  match cs.dropWhile fun c => c != '=' && c != '[' && c != ',' with
  | '=' :: rest => d.levelIsGood rest
  | '[' :: rest => d.spanIsGood rest
  | ',' :: rest => rest = []
  | _ => true

end Draft

/-- The text is a directive. -/
def isDirective (cs : List Char) : Bool :=
  let d : Draft := ⟨cs, Text.trim cs⟩
  match d.core with
  | [] => false
  | '[' :: rest => d.spanIsGood rest
  | c :: rest => isTargetStart c && d.targetIsGood rest

/-- The filter of the output can be built: every directive of its level and of its own is one. -/
def LogConfig.filterIsGood (c : LogConfig) : Bool :=
  ((commaPieces c.level.toList).all fun piece => piece = [] || isDirective piece)
    && c.directives.all fun d => isDirective d.toList

/--
Sets up the output where `alreadySetUp` tells whether another is in force: the directory that was
created for log files, if any, and the error. Nothing is created for a bad filter.
-/
def LogConfig.setUp (c : LogConfig) (alreadySetUp : Bool) : Option String × Except LogError Unit :=
  if c.filterIsGood then
    let created := match c.target with
      | .file dir => some dir
      | _ => none
    (created, if alreadySetUp then .error .alreadySetUp else .ok ())
  else (none, .error .badFilter)

end AppletHost.Logging
