import AppletHost.Expr.Basic
import AppletHost.Json.Writer
import AppletHost.Number.Shortest

/-!
# Expressions as trees

The shape of an expression as text: every operation in parentheses, the operator first.
-/

namespace AppletHost

/-- The sign of an operator. -/
def BinaryOp.sign : BinaryOp → String
  | .add => "+"
  | .sub => "-"
  | .mul => "*"
  | .div => "/"
  | .rem => "%"
  | .lt => "<"
  | .le => "<="
  | .gt => ">"
  | .ge => ">="
  | .looseEq => "=="
  | .looseNe => "!="
  | .strictEq => "==="
  | .strictNe => "!=="

/-- The sign of an operator. -/
def LogicalOp.sign : LogicalOp → String
  | .and => "&&"
  | .or => "||"
  | .coalesce => "??"

/-- The sign of an operator in front of its operand. -/
def UnaryOp.sign : UnaryOp → String
  | .not => "!"
  | .neg => "neg"

namespace Expr

/-- A literal: doubles in plain digits, all else as JSON. -/
def literalText : Value → String
  | .float x => Number.plainText x
  | v => Json.text v

mutual

/-- The expression with its operators first. -/
def treeText : Expr → String
  | .literal v => "(lit " ++ literalText v ++ ")"
  | .undefined => "undefined"
  | .ident name => "(id " ++ name ++ ")"
  | .member base name => "(. " ++ treeText base ++ " " ++ name ++ ")"
  | .index base key => "([] " ++ treeText base ++ " " ++ treeText key ++ ")"
  | .unary op x => "(" ++ op.sign ++ " " ++ treeText x ++ ")"
  | .binary op a b => "(" ++ op.sign ++ " " ++ treeText a ++ " " ++ treeText b ++ ")"
  | .logical op a b => "(" ++ op.sign ++ " " ++ treeText a ++ " " ++ treeText b ++ ")"
  | .conditional c a b =>
    "(? " ++ treeText c ++ " " ++ treeText a ++ " " ++ treeText b ++ ")"
  | .array items => "(array" ++ treeTexts items ++ ")"

/-- The expressions, each after a blank. -/
def treeTexts : List Expr → String
  | [] => ""
  | e :: es => " " ++ treeText e ++ treeTexts es

end

end Expr

end AppletHost
