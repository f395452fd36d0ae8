/-!
# Blank characters

Two classes of blank characters are in use: the White_Space characters of Unicode, at which text is
trimmed and tag names end, and the five ASCII blanks that separate the tokens of an expression.
-/

namespace AppletHost.Text

/-- The White_Space characters of Unicode. -/
def isBlank (c : Char) : Bool :=
  let n := c.toNat
  (9 ≤ n && n ≤ 13) || n == 0x20 || n == 0x85 || n == 0xa0 || n == 0x1680
    || (0x2000 ≤ n && n ≤ 0x200a) || n == 0x2028 || n == 0x2029 || n == 0x202f || n == 0x205f
    || n == 0x3000

/-- Space, tab, line feed, form feed and carriage return. -/
def isAsciiBlank (c : Char) : Bool :=
  c == ' ' || c == '\t' || c == '\n' || c == '\x0c' || c == '\r'

/-- The text without its leading blanks. -/
def trimLeft (cs : List Char) : List Char := cs.dropWhile isBlank

/-- The text without its trailing blanks. -/
def trimRight (cs : List Char) : List Char := (cs.reverse.dropWhile isBlank).reverse

/-- The text without the blanks on either side. -/
def trim (cs : List Char) : List Char := trimRight (trimLeft cs)

/-- A text of blanks only, or none at all. -/
def allBlank (cs : List Char) : Bool := cs.all isBlank

end AppletHost.Text
