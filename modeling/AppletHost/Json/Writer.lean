import AppletHost.Number.Shortest
import AppletHost.Value.Basic

/-!
# Writing JSON

`Json.write` gives the compact text of a value: no blanks, fields in the order of the object, and
only `"`, `\` and the characters below U+0020 escaped inside strings. A double always shows that it
is one (`1.0`, `1e+16`), so the text of a value tells integers and doubles apart.
-/

namespace AppletHost.Json

/--
A double beside integers: positional from `0.00001` up to sixteen digits, a tie to even, and both
kinds of exponents with a sign.
-/
def floatStyle : Number.MarkedStyle := ⟨.toEven, -5, 16, true⟩

/-- The text of a double; one that is not finite has none and becomes `null`. -/
def floatText (x : Float) : List Char :=
  match Number.Dyadic.ofFloat? x with
  | some d => d.marked floatStyle
  | none => "null".toList

/-- The text of an integer. -/
def intText (n : Int) : List Char := Number.signed (n < 0) (Number.natDigits n.natAbs)

/-- A digit of a `\u` escape. -/
def hexDigit (n : Nat) : Char := Nat.digitChar n

/-- How a character stands inside a string. -/
def escapeChar (c : Char) : List Char :=
  if c = '"' then ['\\', '"']
  else if c = '\\' then ['\\', '\\']
  else if c = '\n' then ['\\', 'n']
  else if c = '\r' then ['\\', 'r']
  else if c = '\t' then ['\\', 't']
  else if c = '\x08' then ['\\', 'b']
  else if c = '\x0c' then ['\\', 'f']
  else if c.toNat < 0x20 then
    ['\\', 'u', '0', '0', hexDigit (c.toNat / 16), hexDigit (c.toNat % 16)]
  else [c]

/-- A string in quotes. -/
def quote (s : String) : List Char := '"' :: (s.toList.flatMap escapeChar ++ ['"'])

mutual

/-- The compact text of a value. -/
def write : Value → List Char
  | .null => "null".toList
  | .bool true => "true".toList
  | .bool false => "false".toList
  | .int n => intText n
  | .float x => floatText x
  | .str s => quote s
  | .arr [] => ['[', ']']
  | .arr (v :: vs) => '[' :: (write v ++ writeItems vs)
  | .obj [] => ['{', '}']
  | .obj ((k, v) :: rest) => '{' :: (quote k ++ ':' :: (write v ++ writeFields rest))

/-- The items after the first, and the bracket that closes the array. -/
def writeItems : List Value → List Char
  | [] => [']']
  | v :: vs => ',' :: (write v ++ writeItems vs)

/-- The fields after the first, and the brace that closes the object. -/
def writeFields : List (String × Value) → List Char
  | [] => ['}']
  | (k, v) :: rest => ',' :: (quote k ++ ':' :: (write v ++ writeFields rest))

end

/-- The compact text of a value as a string. -/
def text (v : Value) : String := String.ofList (write v)

end AppletHost.Json
