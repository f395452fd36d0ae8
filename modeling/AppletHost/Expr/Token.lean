import AppletHost.Number.Shortest
import AppletHost.Text.Printable

/-!
# Tokens of an expression

Numbers, strings, names and punctuation. `Token.text` is how a token is named in a message; a
`Lexeme` is a token with the byte offset at which its text starts.
-/

namespace AppletHost

/-- The operators and brackets of the expression language. -/
inductive Punct where
  | strictEq | strictNe | looseEq | looseNe | le | ge | and | or | coalesce
  | lt | gt | plus | minus | star | slash | percent | bang
  | question | colon | dot | openBracket | closeBracket | openParen | closeParen | comma
deriving DecidableEq, Repr, Inhabited

namespace Punct

/-- How the punctuation is written. -/
def text : Punct → String
  | .strictEq => "===" | .strictNe => "!==" | .looseEq => "==" | .looseNe => "!="
  | .le => "<=" | .ge => ">=" | .and => "&&" | .or => "||" | .coalesce => "??"
  | .lt => "<" | .gt => ">" | .plus => "+" | .minus => "-" | .star => "*" | .slash => "/"
  | .percent => "%" | .bang => "!" | .question => "?" | .colon => ":" | .dot => "."
  | .openBracket => "[" | .closeBracket => "]" | .openParen => "(" | .closeParen => ")"
  | .comma => ","

/-- All punctuation, the longer texts first, so that `===` wins over `==`. -/
def all : List Punct :=
  [.strictEq, .strictNe, .looseEq, .looseNe, .le, .ge, .and, .or, .coalesce,
    .lt, .gt, .plus, .minus, .star, .slash, .percent, .bang, .question, .colon, .dot,
    .openBracket, .closeBracket, .openParen, .closeParen, .comma]

end Punct

/-- One token of an expression. -/
inductive Token where
  | num (x : Float)
  | str (s : String)
  | ident (name : String)
  | punct (p : Punct)
deriving DecidableEq, Repr, Inhabited

/-- How a message names the token. -/
def Token.text : Token → String
  | .num x => Number.plainText x
  | .str s => Text.quoted s
  | .ident name => name
  | .punct p => p.text

/-- A token and the byte offset at which its text starts. -/
structure Lexeme where
  offset : Nat
  token : Token
deriving DecidableEq, Repr, Inhabited

/-- Deepest expression tree, and deepest nesting of brackets and operators, that is accepted. -/
def maxExprDepth : Nat := 128

/-- Why a text is no expression. -/
inductive ExprError where
  | unexpectedChar (found : Char) (offset : Nat)
  | unterminatedString (offset : Nat)
  | invalidNumber (literal : String)
  | unexpectedToken (found : Token) (offset : Nat)
  | unexpectedEnd
  | callNotAllowed (offset : Nat)
  | tooDeep
  | empty
deriving DecidableEq, Repr, Inhabited

/-- The text of the error. -/
def ExprError.message : ExprError → String
  | .unexpectedChar c n => s!"unexpected character '{c}' at offset {n}"
  | .unterminatedString n => s!"unterminated string literal starting at offset {n}"
  | .invalidNumber literal => s!"invalid number literal '{literal}'"
  | .unexpectedToken found n => s!"unexpected token '{found.text}' at offset {n}"
  | .unexpectedEnd => "unexpected end of expression"
  | .callNotAllowed n => s!"function calls are not allowed (offset {n})"
  | .tooDeep => s!"expression nested deeper than {maxExprDepth} levels"
  | .empty => "empty expression"

end AppletHost
