import AppletHost.Expr.Coercion
import AppletHost.Expr.Basic
import AppletHost.Expr.Scan
import AppletHost.Text.Taken

/-!
# From tokens to trees

Operators are parsed by binding strength: a reader at strength `s` takes an operand and then every
operator that binds at least as strongly as `s`, its right operand being read one step tighter.

Two limits keep trees and recursion small: no tree is higher than `maxExprDepth`, and no more than
that many readers are active at once. The second one is the recursion: the reader with `levels`
levels left hands the reader with one level less to its brackets and operands.
-/

namespace AppletHost

open Text (Taken)

/-- An expression with its height. -/
structure Tree where
  expr : Expr
  height : Nat
deriving Inhabited

/-- Reads a tree off the front of any token list. -/
abbrev TreeReader := (ts : List Lexeme) → Except ExprError (Taken Tree ts)

/-- An operator between two operands. -/
inductive MiddleOp where
  | binary (op : BinaryOp)
  | logical (op : LogicalOp)
deriving DecidableEq, Repr, Inhabited

/-- The tree of an operator between two operands. -/
def MiddleOp.combine : MiddleOp → Expr → Expr → Expr
  | .binary op => .binary op
  | .logical op => .logical op

/-- The operator that punctuation between two operands stands for, and how strongly it binds. -/
def Punct.middle? : Punct → Option (MiddleOp × Nat)
  | .coalesce => some (.logical .coalesce, 3)
  | .or => some (.logical .or, 5)
  | .and => some (.logical .and, 7)
  | .looseEq => some (.binary .looseEq, 9)
  | .looseNe => some (.binary .looseNe, 9)
  | .strictEq => some (.binary .strictEq, 9)
  | .strictNe => some (.binary .strictNe, 9)
  | .lt => some (.binary .lt, 11)
  | .le => some (.binary .le, 11)
  | .gt => some (.binary .gt, 11)
  | .ge => some (.binary .ge, 11)
  | .plus => some (.binary .add, 13)
  | .minus => some (.binary .sub, 13)
  | .star => some (.binary .mul, 15)
  | .slash => some (.binary .div, 15)
  | .percent => some (.binary .rem, 15)
  | _ => none

/-- How strongly `? :` binds. -/
def conditionalStrength : Nat := 2

/-- How strongly an operator before its operand binds: more than any between two operands. -/
def unaryStrength : Nat := 17

/-- The height over children of which the tallest has height `child`. -/
def nest (child : Nat) : Except ExprError Nat :=
  if maxExprDepth < child + 1 then .error .tooDeep else .ok (child + 1)

/-- The error at a token that cannot stand where it does. -/
def Lexeme.unexpected (t : Lexeme) : ExprError := .unexpectedToken t.token t.offset

/-- Takes the punctuation `p`. -/
def expect (p : Punct) : (ts : List Lexeme) → Except ExprError (Taken Unit ts)
  | [] => .error .unexpectedEnd
  | t :: rest =>
    if t.token = .punct p then .ok ⟨(), rest, by simp⟩ else .error t.unexpected

/-- The literal or variable that a name stands for. -/
def nameExpr (name : String) : Expr :=
  if name = "true" then .literal (.bool true)
  else if name = "false" then .literal (.bool false)
  else if name = "null" then .literal .null
  else if name = "undefined" then .undefined
  else .ident name

/-- The items of an array literal after `[`, at least one, up to and with the `]`. -/
def arrayItems (inner : TreeReader) (ts : List Lexeme) :
    Except ExprError (Taken (List Tree) ts) :=
  match inner ts with
  | .error e => .error e
  | .ok item =>
    match h : item.rest with
    | [] => .error .unexpectedEnd
    | t :: rest =>
      have rest_lt : rest.length < ts.length := by
        have := item.shorter
        simp only [h, List.length_cons] at this; omega
      match t.token with
      | .punct .closeBracket => .ok ⟨[item.value], rest, rest_lt⟩
      | .punct .comma =>
        match h' : rest with
        | [] => (arrayItems inner []).map fun items =>
            (items.map (item.value :: ·)).within (Nat.le_of_lt rest_lt)
        | u :: rest' =>
          if u.token = .punct .closeBracket then
            .ok ⟨[item.value], rest', by simp only [List.length_cons] at rest_lt; omega⟩
          else
            (arrayItems inner (u :: rest')).map fun items =>
              (items.map (item.value :: ·)).within (Nat.le_of_lt rest_lt)
      | _ => .error t.unexpected
termination_by ts.length

/-- The tree of an array literal. -/
def arrayTree (items : List Tree) : Except ExprError Tree :=
  (nest ((items.map Tree.height).foldl max 0)).map fun height =>
    ⟨.array (items.map Tree.expr), height⟩

/-- An operand: a literal, a name, brackets, or an operator before its operand. -/
def operand (inner : Nat → TreeReader) : TreeReader
  | [] => .error .unexpectedEnd
  | t :: rest =>
    match t.token with
    | .num x => .ok ⟨⟨.literal ((Value.ofNumber? x).getD .null), 1⟩, rest, by simp⟩
    | .str s => .ok ⟨⟨.literal (.str s), 1⟩, rest, by simp⟩
    | .ident name => .ok ⟨⟨nameExpr name, 1⟩, rest, by simp⟩
    | .punct .openParen => do
      let tree ← inner 0 rest
      let close ← expect .closeParen tree.rest
      .ok ⟨tree.value, close.rest, by
        have := tree.shorter; have := close.shorter
        simp only [List.length_cons]; omega⟩
    | .punct .openBracket =>
      match rest with
      | [] => (inner 0 []).map fun tree => tree.within (by simp)
      | u :: rest' =>
        if u.token = .punct .closeBracket then
          .ok ⟨⟨.array [], 1⟩, rest', by simp only [List.length_cons]; omega⟩
        else do
          let items ← arrayItems (inner 0) (u :: rest')
          let tree ← arrayTree items.value
          .ok ⟨tree, items.rest, by
            have := items.shorter
            simp only [List.length_cons] at this ⊢; omega⟩
    | .punct .bang => unaryTree inner .not rest
    | .punct .minus => unaryTree inner .neg rest
    | .punct _ => .error t.unexpected
where
  /-- The tree of an operator before the operand that `rest` starts with. -/
  unaryTree (inner : Nat → TreeReader) (op : UnaryOp) {t : Lexeme} (rest : List Lexeme) :
      Except ExprError (Taken Tree (t :: rest)) := do
    let tree ← inner unaryStrength rest
    let height ← nest tree.value.height
    .ok ⟨⟨.unary op tree.value.expr, height⟩, tree.rest, by
      have := tree.shorter; simp only [List.length_cons]; omega⟩

/--
The tree that the next operator makes of `lhs`, or `none` where the expression at this strength ends.
An opening parenthesis after an operand would be a call.
-/
def continuation (inner : Nat → TreeReader) (strength : Nat) (lhs : Tree) :
    (ts : List Lexeme) → Except ExprError (Option (Taken Tree ts))
  | [] => .ok none
  | t :: rest =>
    match t.token with
    | .punct .dot =>
      match rest with
      | [] => .error .unexpectedEnd
      | u :: rest' =>
        match u.token with
        | .ident name => do
          let height ← nest lhs.height
          .ok (some ⟨⟨.member lhs.expr name, height⟩, rest', by
            simp only [List.length_cons]; omega⟩)
        | _ => .error u.unexpected
    | .punct .openBracket => do
      let key ← inner 0 rest
      let close ← expect .closeBracket key.rest
      let height ← nest (max lhs.height key.value.height)
      .ok (some ⟨⟨.index lhs.expr key.value.expr, height⟩, close.rest, by
        have := key.shorter; have := close.shorter
        simp only [List.length_cons]; omega⟩)
    | .punct .openParen => .error (.callNotAllowed t.offset)
    | .punct .question =>
      if conditionalStrength < strength then .ok none
      else do
        let yes ← inner 0 rest
        let colon ← expect .colon yes.rest
        let no ← inner conditionalStrength colon.rest
        let height ← nest (max (max lhs.height yes.value.height) no.value.height)
        .ok (some ⟨⟨.conditional lhs.expr yes.value.expr no.value.expr, height⟩, no.rest, by
          have := yes.shorter; have := colon.shorter; have := no.shorter
          simp only [List.length_cons]; omega⟩)
    | .punct p =>
      match p.middle? with
      | none => .ok none
      | some (op, opStrength) =>
        if opStrength < strength then .ok none
        else do
          let rhs ← inner (opStrength + 1) rest
          let height ← nest (max lhs.height rhs.value.height)
          .ok (some ⟨⟨op.combine lhs.expr rhs.value.expr, height⟩, rhs.rest, by
            have := rhs.shorter; simp only [List.length_cons]; omega⟩)
    | _ => .ok none

/-- Applies operators of at least the given strength to `lhs` as long as there are any. -/
def operators (inner : Nat → TreeReader) (strength : Nat) {ts : List Lexeme}
    (lhs : Taken Tree ts) : Except ExprError (Taken Tree ts) :=
  match continuation inner strength lhs.value lhs.rest with
  | .error e => .error e
  | .ok none => .ok lhs
  | .ok (some next) =>
    have := next.shorter
    operators inner strength (next.within (Nat.le_of_lt lhs.shorter))
termination_by lhs.rest.length

/-- An expression of operators of at least the given strength, `levels` readers deep. -/
def exprAt : (levels : Nat) → (strength : Nat) → TreeReader
  | 0, _ => fun _ => .error .tooDeep
  | levels + 1, strength => fun ts => do
    let lhs ← operand (exprAt levels) ts
    operators (exprAt levels) strength lhs

/-- The expression that a whole token list is. -/
def Expr.ofTokens (ts : List Lexeme) : Except ExprError Expr :=
  if ts = [] then .error .empty
  else do
    let tree ← exprAt maxExprDepth 0 ts
    match tree.rest with
    | [] => .ok tree.value.expr
    | t :: _ => .error t.unexpected

/-- The expression that a text is. -/
def Expr.parse (source : String) : Except ExprError Expr := do
  let ts ← scan source
  Expr.ofTokens ts

end AppletHost
