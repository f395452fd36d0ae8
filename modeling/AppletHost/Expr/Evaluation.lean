import AppletHost.Expr.Basic
import AppletHost.Expr.Coercion

/-!
# Evaluating expressions

An expression is evaluated over a scope: the data at the root, and above it one frame for each loop
that is being rendered. `none` is the undefined value.
-/

namespace AppletHost

/-- Where names are looked up. -/
inductive Scope where
  | root (data : Value)
  | frame (parent : Scope) (itemName : String) (item : Value) (indexName : String) (index : Nat)
deriving Inhabited, Repr

/-- The value of a name: the position of the innermost loop first, then its item. -/
def Scope.lookup? : Scope → String → Option Value
  | .root data, name => data.get? name
  | .frame parent itemName item indexName index, name =>
    if name = indexName then some (.int index)
    else if name = itemName then some item
    else parent.lookup? name

/-- The value of an operator that uses both operands. -/
def BinaryOp.apply (op : BinaryOp) (a b : Option Value) : Option Value :=
  let x := Value.operandNumber a
  let y := Value.operandNumber b
  match op with
  | .add => Value.add a b
  | .sub => Value.ofNumber? (x - y)
  | .mul => Value.ofNumber? (x * y)
  | .div => Value.ofNumber? (x / y)
  | .rem => Value.ofNumber? (Number.remainder x y)
  | .lt => some (.bool (Value.order? a b == some .lt))
  | .le => some (.bool (Value.order? a b == some .lt || Value.order? a b == some .eq))
  | .gt => some (.bool (Value.order? a b == some .gt))
  | .ge => some (.bool (Value.order? a b == some .gt || Value.order? a b == some .eq))
  | .looseEq => some (.bool (Value.looseEq a b))
  | .looseNe => some (.bool (!Value.looseEq a b))
  | .strictEq => some (.bool (Value.strictEq a b))
  | .strictNe => some (.bool (!Value.strictEq a b))

/-- The first operand decides that the second one is the result. -/
def LogicalOp.takesSecond (op : LogicalOp) (a : Option Value) : Bool :=
  match op with
  | .and => Value.truthy a
  | .or => !Value.truthy a
  | .coalesce => Value.isNullish a

namespace Expr

mutual

/-- The value of an expression in a scope. -/
def eval (scope : Scope) : Expr → Option Value
  | .literal v => some v
  | .undefined => none
  | .ident name => scope.lookup? name
  | .member base name => (eval scope base).bind fun v => v.property? name
  | .index base key =>
    match eval scope base, eval scope key with
    | some v, some k => v.index? k
    | _, _ => none
  | .unary .not operand => some (.bool (!Value.truthy (eval scope operand)))
  | .unary .neg operand => Value.ofNumber? (-Value.operandNumber (eval scope operand))
  | .binary op lhs rhs => op.apply (eval scope lhs) (eval scope rhs)
  | .logical op lhs rhs =>
    let a := eval scope lhs
    if op.takesSecond a then eval scope rhs else a
  | .conditional cond yes no =>
    if Value.truthy (eval scope cond) then eval scope yes else eval scope no
  | .array items => some (.arr (evalItems scope items))

/-- The items of an array literal; an undefined one becomes `null`. -/
def evalItems (scope : Scope) : List Expr → List Value
  | [] => []
  | e :: es => (eval scope e).getD .null :: evalItems scope es

end

/-- The value of an expression over a data snapshot. -/
def evaluate (e : Expr) (data : Value) : Option Value := e.eval (.root data)

end Expr

end AppletHost
