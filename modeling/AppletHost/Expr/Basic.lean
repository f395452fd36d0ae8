import AppletHost.Value.Basic

/-!
# Expression trees

The expressions of placeholders and directives: literals, names, access, operators, the conditional
and array literals. There are no calls and no assignments, so evaluating one can change nothing.
-/

namespace AppletHost

/-- Operators before their operand. -/
inductive UnaryOp where
  | not
  | neg
deriving DecidableEq, Repr, Inhabited

/-- Operators that use both operands. -/
inductive BinaryOp where
  | add | sub | mul | div | rem
  | lt | le | gt | ge
  | looseEq | looseNe | strictEq | strictNe
deriving DecidableEq, Repr, Inhabited

/-- Operators that may leave their second operand alone. -/
inductive LogicalOp where
  | and | or | coalesce
deriving DecidableEq, Repr, Inhabited

/-- An expression. -/
inductive Expr where
  | literal (v : Value)
  | undefined
  | ident (name : String)
  | member (base : Expr) (name : String)
  | index (base key : Expr)
  | unary (op : UnaryOp) (operand : Expr)
  | binary (op : BinaryOp) (lhs rhs : Expr)
  | logical (op : LogicalOp) (lhs rhs : Expr)
  | conditional (cond yes no : Expr)
  | array (items : List Expr)
deriving Inhabited, Repr

namespace Expr

mutual

/-- Levels of the tree; a leaf has one. -/
def height : Expr → Nat
  | .literal _ => 1
  | .undefined => 1
  | .ident _ => 1
  | .member base _ => height base + 1
  | .index base key => max (height base) (height key) + 1
  | .unary _ operand => height operand + 1
  | .binary _ lhs rhs => max (height lhs) (height rhs) + 1
  | .logical _ lhs rhs => max (height lhs) (height rhs) + 1
  | .conditional cond yes no => max (max (height cond) (height yes)) (height no) + 1
  | .array items => tallest items + 1

/-- The height of the tallest tree of a list. -/
def tallest : List Expr → Nat
  | [] => 0
  | e :: es => max (height e) (tallest es)

end

mutual

/-- The names an expression looks up, in order of their first use in the text. -/
def identifiers : Expr → List String
  | .literal _ => []
  | .undefined => []
  | .ident name => [name]
  | .member base _ => identifiers base
  | .index base key => identifiers base ++ identifiers key
  | .unary _ operand => identifiers operand
  | .binary _ lhs rhs => identifiers lhs ++ identifiers rhs
  | .logical _ lhs rhs => identifiers lhs ++ identifiers rhs
  | .conditional cond yes no => identifiers cond ++ identifiers yes ++ identifiers no
  | .array items => identifiersOf items

/-- The names that a list of expressions looks up. -/
def identifiersOf : List Expr → List String
  | [] => []
  | e :: es => identifiers e ++ identifiersOf es

end

end Expr

end AppletHost
