import AppletHost.Expr.Parser
import Mathlib.Data.List.Chain

/-!
# The grammar of expressions

The grammar that the parser is measured against, one nonterminal for each
stratum. A stratum is contained in every looser one; the strata of the
operators between two operands associate to the left, because only the left
operand may be of the same stratum:

> expr := coalesce [`?` expr `:` expr], then `??`, `||`, `&&`, the equalities,
> the relations, `+ -`, `* / %`, then `!` and `-` before their operand, then
> `.NAME` and `[expr]` behind theirs, then literals, names, parentheses and
> array literals.

Nothing here knows of binding strengths. `Derivation n levels ws e` also
counts how deep the derivation nests where a reader would call another one
(brackets, and the operand of an operator); `Derives` forgets the count.

`not_derives_of_call` is the one fact about the words themselves: no derived
words hold a `(` right after an operand, so the grammar has no calls.
-/

namespace AppletHost.Grammar

/-- The strata of the grammar, from the loosest to the tightest. -/
inductive Nonterminal where
  | expr
  | coalesce | disjunction | conjunction | equality | relation | sum | product
  | unary
  | access
  | primary
deriving DecidableEq, Repr, Inhabited

namespace Nonterminal

/-- The next tighter stratum. -/
def tighter : Nonterminal → Nonterminal
  | .expr => .coalesce
  | .coalesce => .disjunction
  | .disjunction => .conjunction
  | .conjunction => .equality
  | .equality => .relation
  | .relation => .sum
  | .sum => .product
  | .product => .unary
  | .unary => .access
  | .access => .primary
  | .primary => .primary

/-- The operators between two operands of a stratum. -/
def operators : Nonterminal → List (Punct × MiddleOp)
  | .coalesce => [(.coalesce, .logical .coalesce)]
  | .disjunction => [(.or, .logical .or)]
  | .conjunction => [(.and, .logical .and)]
  | .equality =>
    [(.looseEq, .binary .looseEq), (.looseNe, .binary .looseNe),
      (.strictEq, .binary .strictEq), (.strictNe, .binary .strictNe)]
  | .relation =>
    [(.lt, .binary .lt), (.le, .binary .le), (.gt, .binary .gt), (.ge, .binary .ge)]
  | .sum => [(.plus, .binary .add), (.minus, .binary .sub)]
  | .product => [(.star, .binary .mul), (.slash, .binary .div), (.percent, .binary .rem)]
  | _ => []

end Nonterminal

/-- The operators before their operand. -/
def unaryOperators : List (Punct × UnaryOp) := [(.bang, .not), (.minus, .neg)]

/-- The names that are no variables, and what they stand for. -/
def keywords : List (String × Expr) :=
  [("true", .literal (.bool true)), ("false", .literal (.bool false)),
    ("null", .literal .null), ("undefined", .undefined)]

/-- The words of the items of an array literal from the second one on. -/
def furtherItems (items : List (List Token × Expr)) : List Token :=
  items.flatMap fun item => .punct .comma :: item.1

/-- `Derivation n levels ws e`: the words `ws` derive the tree `e` from the
nonterminal `n`, with at most `levels` readers nested inside the outermost one. -/
inductive Derivation : Nonterminal → Nat → List Token → Expr → Prop
  | tighter {n d ws e} (proper : n ≠ .primary) (inner : Derivation n.tighter d ws e) :
      Derivation n d ws e
  | conditional {d cs ys ns cond yes no} (condition : Derivation .coalesce (d + 1) cs cond)
      (first : Derivation .expr d ys yes) (second : Derivation .expr d ns no) :
      Derivation .expr (d + 1) (cs ++ .punct .question :: (ys ++ .punct .colon :: ns))
        (.conditional cond yes no)
  | operator {n d ls rs l r p op} (sign : (p, op) ∈ n.operators)
      (left : Derivation n (d + 1) ls l) (right : Derivation n.tighter d rs r) :
      Derivation n (d + 1) (ls ++ .punct p :: rs) (op.combine l r)
  | unary {d ws e p op} (sign : (p, op) ∈ unaryOperators) (operand : Derivation .unary d ws e) :
      Derivation .unary (d + 1) (.punct p :: ws) (.unary op e)
  | member {d ws e name} (base : Derivation .access d ws e) :
      Derivation .access d (ws ++ [.punct .dot, .ident name]) (.member e name)
  | index {d ws ks e k} (base : Derivation .access (d + 1) ws e) (key : Derivation .expr d ks k) :
      Derivation .access (d + 1) (ws ++ .punct .openBracket :: (ks ++ [.punct .closeBracket]))
        (.index e k)
  | number {d x} : Derivation .primary d [.num x] (.literal ((Value.ofNumber? x).getD .null))
  | string {d s} : Derivation .primary d [.str s] (.literal (.str s))
  | keyword {d name e} (known : (name, e) ∈ keywords) : Derivation .primary d [.ident name] e
  | ident {d name} (free : name ∉ keywords.map Prod.fst) :
      Derivation .primary d [.ident name] (.ident name)
  | parens {d ws e} (inner : Derivation .expr d ws e) :
      Derivation .primary (d + 1) (.punct .openParen :: (ws ++ [.punct .closeParen])) e
  | emptyArray {d} :
      Derivation .primary d [.punct .openBracket, .punct .closeBracket] (.array [])
  | array {d ws e items trailing} (first : Derivation .expr d ws e)
      (further : ∀ item ∈ items, Derivation .expr d item.1 item.2)
      (comma : trailing = [] ∨ trailing = [.punct .comma]) :
      Derivation .primary (d + 1)
        (.punct .openBracket ::
          (ws ++ (furtherItems items ++ (trailing ++ [.punct .closeBracket]))))
        (.array (e :: items.map Prod.snd))

/-- The words derive the tree from the nonterminal. -/
def Derives (n : Nonterminal) (ws : List Token) (e : Expr) : Prop := ∃ d, Derivation n d ws e

/-! ## The words of a derivation -/

/-- The token may be the last one of an operand. -/
def EndsOperand : Token → Prop
  | .num _ | .str _ | .ident _ => True
  | .punct p => p = .closeParen ∨ p = .closeBracket

/-- The second token is no `(` that follows the end of an operand. -/
def NoCall (t u : Token) : Prop := EndsOperand t → u ≠ .punct .openParen

/-- Words that end as an operand does and hold no call. -/
structure Callless (ws : List Token) : Prop where
  chain : ws.IsChain NoCall
  ends : ∃ front t, ws = front ++ [t] ∧ EndsOperand t

/-- Punctuation that neither ends an operand nor makes a call of one. -/
def joints (p : Punct) : Prop := p ≠ .openParen ∧ p ≠ .closeParen ∧ p ≠ .closeBracket

instance (p : Punct) : Decidable (joints p) := inferInstanceAs (Decidable (_ ∧ _))

theorem noCall_punct {p : Punct} (hp : p ≠ .openParen) (t : Token) : NoCall t (.punct p) := by
  intro _ h
  cases h
  exact hp rfl

theorem noCall_of_not_ends {p : Punct} (h₁ : p ≠ .closeParen) (h₂ : p ≠ .closeBracket)
    (t : Token) : NoCall (.punct p) t := by
  rintro (h | h)
  · exact absurd h h₁
  · exact absurd h h₂

theorem callless_singleton {t : Token} (ht : EndsOperand t) : Callless [t] :=
  ⟨List.isChain_singleton t, [], t, rfl, ht⟩

/-- Punctuation in front of callless words; it may be a `(`. -/
theorem Callless.cons {p : Punct} {ws : List Token} (h : Callless ws) (h₁ : p ≠ .closeParen)
    (h₂ : p ≠ .closeBracket) : Callless (.punct p :: ws) := by
  obtain ⟨front, t, rfl, ht⟩ := h.ends
  exact ⟨h.chain.cons fun u _ => noCall_of_not_ends h₁ h₂ u, .punct p :: front, t, rfl, ht⟩

/-- Callless words on either side of punctuation. -/
theorem Callless.join {p : Punct} {ls rs : List Token} (hl : Callless ls) (hp : joints p)
    (hr : Callless rs) : Callless (ls ++ .punct p :: rs) := by
  have hpr : Callless (.punct p :: rs) := hr.cons hp.2.1 hp.2.2
  obtain ⟨front, t, rfl, -⟩ := hl.ends
  obtain ⟨back, u, hu, hends⟩ := hpr.ends
  refine ⟨?_, front ++ [t] ++ back, u, by rw [hu]; simp, hends⟩
  rw [List.append_assoc]
  exact List.isChain_append_cons_cons.mpr ⟨hl.chain, noCall_punct hp.1 t, hpr.chain⟩

/-- A closing bracket behind callless words. -/
theorem Callless.close {p : Punct} {ws : List Token} (h : Callless ws)
    (hp : p = .closeParen ∨ p = .closeBracket) : Callless (ws ++ [.punct p]) := by
  have hne : p ≠ .openParen := by rcases hp with rfl | rfl <;> decide
  refine ⟨?_, ws, .punct p, rfl, hp⟩
  obtain ⟨front, t, rfl, -⟩ := h.ends
  rw [List.append_assoc]
  exact List.isChain_append_cons_cons.mpr
    ⟨h.chain, noCall_punct hne t, List.isChain_singleton _⟩

theorem Callless.furtherItems {ws : List Token} (h : Callless ws)
    {items : List (List Token × Expr)} (hs : ∀ item ∈ items, Callless item.1) :
    Callless (ws ++ furtherItems items) := by
  induction items generalizing ws with
  | nil => simpa [Grammar.furtherItems] using h
  | cons item items ih =>
    have hjoin : Callless (ws ++ .punct .comma :: item.1) :=
      h.join (by decide) (hs item List.mem_cons_self)
    have := ih hjoin fun i hi => hs i (List.mem_cons_of_mem _ hi)
    simpa [Grammar.furtherItems] using this

theorem joints_of_mem_operators {n : Nonterminal} {x : Punct × MiddleOp} (h : x ∈ n.operators) :
    joints x.1 := by
  have hall : ∀ x ∈ n.operators, joints x.1 := by cases n <;> decide
  exact hall x h

/-- No call is derived, at whatever stratum. -/
theorem callless_of_derivation {n : Nonterminal} {d : Nat} {ws : List Token} {e : Expr}
    (h : Derivation n d ws e) : Callless ws := by
  induction h with
  | tighter _ _ ih => exact ih
  | conditional _ _ _ ihc ihy ihn => exact ihc.join (by decide) (ihy.join (by decide) ihn)
  | operator sign _ _ ihl ihr => exact ihl.join (joints_of_mem_operators sign) ihr
  | unary sign _ ih =>
    rcases (by simpa [unaryOperators] using sign : _ ∨ _) with ⟨rfl, -⟩ | ⟨rfl, -⟩
    · exact ih.cons (by decide) (by decide)
    · exact ih.cons (by decide) (by decide)
  | member _ ih => exact ih.join (by decide) (callless_singleton trivial)
  | index _ _ ih ihk => exact ih.join (by decide) (ihk.close (Or.inr rfl))
  | number => exact callless_singleton trivial
  | string => exact callless_singleton trivial
  | keyword _ => exact callless_singleton trivial
  | ident _ => exact callless_singleton trivial
  | parens _ ih => exact (ih.close (Or.inl rfl)).cons (by decide) (by decide)
  | emptyArray =>
    exact (callless_singleton (t := .punct .closeBracket) (Or.inr rfl)).cons (by decide)
      (by decide)
  | @array d ws e items trailing _ _ comma ih ihs =>
    have hitems := ih.furtherItems ihs
    rcases comma with rfl | rfl
    · simpa using (hitems.close (Or.inr rfl)).cons (p := .openBracket) (by decide) (by decide)
    · simpa using (hitems.join (p := .comma) (by decide)
        (callless_singleton (t := .punct .closeBracket) (Or.inr rfl))).cons
          (p := .openBracket) (by decide) (by decide)

/-- No derived words are empty or begin with a `]`, so a `]` after a comma ends an array. -/
theorem head_of_derivation {n : Nonterminal} {d : Nat} {ws : List Token} {e : Expr}
    (h : Derivation n d ws e) : ∃ t ts, ws = t :: ts ∧ t ≠ .punct .closeBracket := by
  induction h with
  | tighter _ _ ih => exact ih
  | conditional _ _ _ ih _ _ =>
    obtain ⟨t, ts, rfl, ht⟩ := ih
    exact ⟨t, _, rfl, ht⟩
  | operator _ _ _ ih _ =>
    obtain ⟨t, ts, rfl, ht⟩ := ih
    exact ⟨t, _, rfl, ht⟩
  | @unary d ws e p op sign _ _ =>
    refine ⟨.punct p, ws, rfl, ?_⟩
    rcases (by simpa [unaryOperators] using sign : _ ∨ _) with ⟨rfl, -⟩ | ⟨rfl, -⟩ <;> decide
  | member _ ih =>
    obtain ⟨t, ts, rfl, ht⟩ := ih
    exact ⟨t, _, rfl, ht⟩
  | index _ _ ih _ =>
    obtain ⟨t, ts, rfl, ht⟩ := ih
    exact ⟨t, _, rfl, ht⟩
  | number => exact ⟨_, _, rfl, by simp⟩
  | string => exact ⟨_, _, rfl, by simp⟩
  | keyword _ => exact ⟨_, _, rfl, by simp⟩
  | ident _ => exact ⟨_, _, rfl, by simp⟩
  | parens _ _ => exact ⟨_, _, rfl, by decide⟩
  | emptyArray => exact ⟨_, _, rfl, by decide⟩
  | array _ _ _ _ _ => exact ⟨_, _, rfl, by decide⟩

/-- Words in which a `(` follows an operand, whatever its stratum, derive nothing. -/
theorem not_derives_of_call {n m : Nonterminal} {before operand after : List Token} {a e : Expr}
    (hoperand : Derives m operand a) :
    ¬ Derives n (before ++ operand ++ .punct .openParen :: after) e := by
  rintro ⟨d, h⟩
  obtain ⟨d', hop⟩ := hoperand
  obtain ⟨front, t, rfl, ht⟩ := (callless_of_derivation hop).ends
  have hchain := (callless_of_derivation h).chain
  have hshape : before ++ (front ++ [t]) ++ .punct .openParen :: after
      = (before ++ front) ++ t :: .punct .openParen :: after := by simp
  rw [hshape] at hchain
  exact (List.isChain_append_cons_cons.mp hchain).2.1 ht rfl

end AppletHost.Grammar
