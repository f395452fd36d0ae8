import AppletHost.Proofs.Expr.Soundness
import Mathlib

/-!
# What the grammar derives, the parser reads

The converse of `exprAt_sound`. The loop over the operators consumes a left
operand before it sees the operator, so the induction over derivations is not
about whole readers: `Complete n d ws e` says that a reader which meets the
words `ws` *arrives at its loop* with the tree `e` in hand, whatever its
strength, as long as that is no tighter than `n` and the words behind do not
pull at `e` harder than `n` holds. A whole reader is that followed by a loop
that ends at once (`Complete.gives`).

Two limits can intervene, and only they: a reader too many, or a tree too
high. Every statement carries the reason for a refusal along, so that

> `ofTokens_eq_ok_iff`: the accepted token lists are those that derive a tree
> with the levels there are and within the height there is.
-/

namespace AppletHost.Grammar

open Text (Taken)

/-! ## Outcomes -/

/-- The tree with the height that readers carry beside it. -/
def treeOf (e : Expr) : Tree := ⟨e, e.height⟩

/-- The result is `v` with `rest` left over, or it is refused as too deep, and then `why` holds. -/
def Gives {α : Type} {ts : List Lexeme} (r : Except ExprError (Taken α ts)) (v : α)
    (rest : List Lexeme) (why : Prop) : Prop :=
  (∃ h, r = .ok ⟨v, rest, h⟩) ∨ (r = .error .tooDeep ∧ why)

/-- A result that is given unless `why` holds is given unless something weaker does. -/
theorem Gives.imp {α : Type} {ts rest : List Lexeme} {r : Except ExprError (Taken α ts)} {v : α}
    {why why' : Prop} (h : Gives r v rest why) (hwhy : why → why') : Gives r v rest why' :=
  Or.imp id (fun h => ⟨h.1, hwhy h.2⟩) h

/-- The reader at strength `s` that meets `ts` comes to its loop with the tree `e` and `rest`. -/
def Arrives (levels s : Nat) (ts : List Lexeme) (e : Expr) (rest : List Lexeme) (why : Prop) :
    Prop :=
  (∃ h, exprAt (levels + 1) s ts = operators (exprAt levels) s ⟨treeOf e, rest, h⟩) ∨
    (exprAt (levels + 1) s ts = .error .tooDeep ∧ why)

/-- The same of a step of the loop. -/
def GivesNext {ts : List Lexeme} (r : Except ExprError (Option (Taken Tree ts))) (e : Expr)
    (rest : List Lexeme) (why : Prop) : Prop :=
  (∃ h, r = .ok (some ⟨treeOf e, rest, h⟩)) ∨ (r = .error .tooDeep ∧ why)

/-- An operand brings the reader to its loop: whatever follows is then read by going on from the
operand. -/
theorem arrives_of_operand {levels s : Nat} {ts rest : List Lexeme} {e : Expr} {why : Prop}
    (h : Gives (operand (exprAt levels) ts) (treeOf e) rest why) :
    Arrives levels s ts e rest why := by
  rcases h with ⟨hlt, h⟩ | ⟨h, hwhy⟩
  · refine Or.inl ⟨hlt, ?_⟩
    simp only [exprAt, h]
    rfl
  · refine Or.inr ⟨?_, hwhy⟩
    simp only [exprAt, h]
    rfl

/-- So does every step of the loop, from the tree before it to the one behind it. -/
theorem Arrives.step {levels s : Nat} {ts mid rest : List Lexeme} {e e' : Expr} {why why' : Prop}
    (h : Arrives levels s ts e mid why) (hwhy : why → why')
    (hnext : GivesNext (continuation (exprAt levels) s (treeOf e) mid) e' rest why') :
    Arrives levels s ts e' rest why' := by
  rcases h with ⟨hlt, h⟩ | ⟨h, hw⟩
  · rw [operators] at h
    rcases hnext with ⟨hlt', hnext⟩ | ⟨hnext, hw⟩
    · refine Or.inl ⟨Nat.lt_trans hlt' hlt, ?_⟩
      rw [h, hnext]
      rfl
    · refine Or.inr ⟨?_, hw⟩
      rw [h, hnext]
  · exact Or.inr ⟨h, hwhy hw⟩

/-- Where nothing pulls at its strength, there is no next step. -/
theorem continuation_of_stops {inner : Nat → TreeReader} {s : Nat} (hs : s ≤ unaryStrength)
    {lhs : Tree} {ts : List Lexeme} (h : Stops s ts) : continuation inner s lhs ts = .ok none := by
  cases ts with
  | nil => rfl
  | cons l rest =>
    obtain ⟨o, tok⟩ := l
    rw [stops_cons] at h
    cases tok with
    | punct p =>
      have hlow : ∀ u ∈ pull? (.punct p), u < unaryStrength :=
        fun u hu => Nat.lt_of_lt_of_le (h u hu) hs
      cases hp : p.middle? with
      | some x =>
        obtain ⟨op, u⟩ := x
        have hu : u < s := h u (pull?_of_middle hp)
        cases p <;> simp [Punct.middle?] at hp
        all_goals simp [continuation, Punct.middle?, hp, hu]
      | none =>
        cases p <;> simp [Punct.middle?] at hp
        case question => simp [continuation, h conditionalStrength rfl]
        case dot => exact absurd (hlow 19 rfl) (by decide)
        case openBracket => exact absurd (hlow 19 rfl) (by decide)
        case openParen => exact absurd (hlow 19 rfl) (by decide)
        all_goals rfl
    | _ => rfl

/-- Where nothing goes on at its strength, the loop ends with what it has. -/
theorem operators_of_stops {inner : Nat → TreeReader} {s : Nat} (hs : s ≤ unaryStrength)
    {ts : List Lexeme} {lhs : Taken Tree ts} (h : Stops s lhs.rest) :
    operators inner s lhs = .ok lhs := by
  rw [operators, continuation_of_stops hs h]

/-! ## Steps of the loop -/

/-- A node is built on what is in it, one higher, or is refused; and it is refused only past the limit
on trees. -/
theorem nest_cases (child : Nat) :
    nest child = .ok (child + 1) ∨ (nest child = .error .tooDeep ∧ maxExprDepth < child + 1) := by
  unfold nest
  split
  next h => exact Or.inr ⟨rfl, h⟩
  next => exact Or.inl rfl

/-- A derivation is complete if every reader that meets its words comes to its loop with its tree,
or has a reason not to. -/
def Complete (n : Nonterminal) (d : Nat) (w : List Token) (e : Expr) : Prop :=
  ∀ (levels s : Nat) (rest : List Lexeme) ⦃ws : List Lexeme⦄, ws.map Lexeme.token = w →
    s ≤ n.strength →
    Stops n.hold rest →
    Arrives levels s (ws ++ rest) e rest (levels < d ∨ maxExprDepth < e.height)

/-- A reader for a complete derivation, if nothing goes on behind its words. -/
theorem Complete.gives {n : Nonterminal} {d : Nat} {w : List Token} {e : Expr}
    (h : Complete n d w e) (levels s : Nat) (rest : List Lexeme) {ws : List Lexeme}
    (hws : ws.map Lexeme.token = w) (hn : s ≤ n.strength) (hs : s ≤ unaryStrength)
    (hhold : Stops n.hold rest) (hstops : Stops s rest) :
    Gives (exprAt levels s (ws ++ rest)) (treeOf e) rest
      (levels < d + 1 ∨ maxExprDepth < e.height) := by
  cases levels with
  | zero => exact Or.inr ⟨rfl, Or.inl (Nat.succ_pos d)⟩
  | succ levels =>
    rcases h levels s rest hws hn hhold with ⟨hlt, h⟩ | ⟨h, hwhy⟩
    · refine Or.inl ⟨hlt, ?_⟩
      rw [h, operators_of_stops hs hstops]
    · exact Or.inr ⟨h, hwhy.imp Nat.succ_lt_succ id⟩

/-- A token that is no operator pulls nothing, so an expression ends before it whatever strength is
asked for. -/
theorem stops_of_pull_none {l : Lexeme} (h : pull? l.token = none) (s : Nat)
    (rest : List Lexeme) : Stops s (l :: rest) := by
  rw [stops_cons, h]
  intro u hu
  cases hu

/-- The same in front of a token that ends an expression in brackets. -/
theorem Complete.gives_bracketed {d : Nat} {w : List Token} {e : Expr}
    (h : Complete .expr d w e) (levels : Nat) (l : Lexeme) (rest : List Lexeme)
    {ws : List Lexeme} (hws : ws.map Lexeme.token = w) (hl : pull? l.token = none) :
    Gives (exprAt levels 0 (ws ++ l :: rest)) (treeOf e) (l :: rest)
      (levels < d + 1 ∨ maxExprDepth < e.height) :=
  h.gives levels 0 _ hws (Nat.zero_le _) (Nat.zero_le _) (stops_of_pull_none hl _ rest)
    (stops_of_pull_none hl _ rest)

variable {inner : Nat → TreeReader} {s : Nat} {rest rest' : List Lexeme} {why : Prop}

/-- A dot and a name go on with what was read as a member of it. -/
theorem continuation_member {e : Expr} {o o' : Nat} {name : String}
    (hheight : maxExprDepth < (Expr.member e name).height → why) :
    GivesNext (continuation inner s (treeOf e) (⟨o, .punct .dot⟩ :: ⟨o', .ident name⟩ :: rest))
      (.member e name) rest why := by
  rcases nest_cases e.height with h | ⟨h, hlt⟩
  · refine Or.inl ⟨by simp only [List.length_cons]; omega, ?_⟩
    simp only [continuation, treeOf, h]
    rfl
  · refine Or.inr ⟨?_, hheight hlt⟩
    simp only [continuation, treeOf, h]
    rfl

/-- A bracketed key goes on with what was read as an index into it, if the key itself reads as its
tree. -/
theorem continuation_index {e k : Expr} {o o' : Nat}
    (hkey : Gives (inner 0 rest) (treeOf k) (⟨o', .punct .closeBracket⟩ :: rest') why)
    (hheight : maxExprDepth < (Expr.index e k).height → why) :
    GivesNext (continuation inner s (treeOf e) (⟨o, .punct .openBracket⟩ :: rest))
      (.index e k) rest' why := by
  rcases hkey with ⟨hlt, hkey⟩ | ⟨hkey, hwhy⟩
  · rcases nest_cases (max e.height k.height) with h | ⟨h, hh⟩
    · refine Or.inl ⟨by simp only [List.length_cons] at hlt ⊢; omega, ?_⟩
      simp only [continuation, hkey, bind, Except.bind, expect, if_true, treeOf, h]
      rfl
    · refine Or.inr ⟨?_, hheight hh⟩
      simp only [continuation, hkey, bind, Except.bind, expect, if_true, treeOf, h]
  · refine Or.inr ⟨?_, hwhy⟩
    simp only [continuation, hkey]
    rfl

/-- Behind a question mark stand both branches, with a colon between: the first reads like an
expression of its own, the second as far as a conditional reaches. -/
theorem continuation_conditional {c y n : Expr} {o o' : Nat} {rest'' : List Lexeme}
    (hs : s ≤ conditionalStrength)
    (hyes : Gives (inner 0 rest) (treeOf y) (⟨o', .punct .colon⟩ :: rest') why)
    (hno : Gives (inner conditionalStrength rest') (treeOf n) rest'' why)
    (hheight : maxExprDepth < (Expr.conditional c y n).height → why) :
    GivesNext (continuation inner s (treeOf c) (⟨o, .punct .question⟩ :: rest))
      (.conditional c y n) rest'' why := by
  have hs' : ¬ conditionalStrength < s := Nat.not_lt.mpr hs
  rcases hyes with ⟨hlt, hyes⟩ | ⟨hyes, hwhy⟩
  · rcases hno with ⟨hlt', hno⟩ | ⟨hno, hwhy⟩
    · rcases nest_cases (max (max c.height y.height) n.height) with h | ⟨h, hh⟩
      · refine Or.inl ⟨by simp only [List.length_cons] at hlt ⊢; omega, ?_⟩
        simp only [continuation, hs', if_false, hyes, hno, bind, Except.bind, expect, if_true,
          treeOf, h]
        rfl
      · refine Or.inr ⟨?_, hheight hh⟩
        simp only [continuation, hs', if_false, hyes, hno, bind, Except.bind, expect, if_true,
          treeOf, h]
    · refine Or.inr ⟨?_, hwhy⟩
      simp only [continuation, hs', if_false, hyes, hno, bind, Except.bind, expect, if_true]
  · refine Or.inr ⟨?_, hwhy⟩
    simp only [continuation, hs', if_false, hyes]
    rfl

/-- An operator of the level goes on with an operand that binds tighter, which is how operators of one
level group to the left. -/
theorem continuation_operator {n : Nonterminal} {l r : Expr} {o : Nat} {p : Punct} {op : MiddleOp}
    (hp : (p, op) ∈ n.operators) (hs : s ≤ n.strength)
    (hright : Gives (inner (n.strength + 1) rest) (treeOf r) rest' why)
    (hheight : maxExprDepth < (op.combine l r).height → why) :
    GivesNext (continuation inner s (treeOf l) (⟨o, .punct p⟩ :: rest))
      (op.combine l r) rest' why := by
  have hs' : ¬ n.strength < s := Nat.not_lt.mpr hs
  -- none of the tokens that are looked for before the operators is one
  have hstep : continuation inner s (treeOf l) (⟨o, .punct p⟩ :: rest)
      = (inner (n.strength + 1) rest).bind fun rhs =>
          (nest (max l.height rhs.value.height)).bind fun height =>
            .ok (some ⟨⟨op.combine l rhs.value.expr, height⟩, rhs.rest, by
              have := rhs.shorter; simp only [List.length_cons]; omega⟩) := by
    have hm := mem_operators_iff.mp hp
    cases p <;> simp [Punct.middle?] at hm
    all_goals
      obtain ⟨rfl, hu⟩ := hm
      simp only [continuation, Punct.middle?, hu, hs', if_false]
      rfl
  rw [height_combine] at hheight
  rcases hright with ⟨hlt, hright⟩ | ⟨hright, hwhy⟩
  · rcases nest_cases (max l.height r.height) with h | ⟨h, hh⟩
    · refine Or.inl ⟨by simp only [List.length_cons]; omega, ?_⟩
      rw [hstep]
      simp only [hright, Except.bind, treeOf, h, height_combine]
    · refine Or.inr ⟨?_, hheight hh⟩
      rw [hstep]
      simp only [hright, Except.bind, treeOf, h]
  · refine Or.inr ⟨?_, hwhy⟩
    simp only [hstep, hright, Except.bind]

/-! ## Operands -/

theorem operand_number {o : Nat} {x : Float} :
    Gives (operand inner (⟨o, .num x⟩ :: rest))
      (treeOf (.literal ((Value.ofNumber? x).getD .null))) rest why :=
  Or.inl ⟨by simp, rfl⟩

theorem operand_string {o : Nat} {x : String} :
    Gives (operand inner (⟨o, .str x⟩ :: rest)) (treeOf (.literal (.str x))) rest why :=
  Or.inl ⟨by simp, rfl⟩

/-- A name is an operand: a keyword stands for its literal, and any other name for a variable. -/
theorem operand_ident {o : Nat} {name : String} :
    Gives (operand inner (⟨o, .ident name⟩ :: rest)) (treeOf (nameExpr name)) rest why := by
  refine Or.inl ⟨by simp, ?_⟩
  simp only [operand, treeOf, height_nameExpr]

theorem operand_emptyArray {o o' : Nat} :
    Gives (operand inner (⟨o, .punct .openBracket⟩ :: ⟨o', .punct .closeBracket⟩ :: rest))
      (treeOf (.array [])) rest why :=
  Or.inl ⟨by simp only [List.length_cons]; omega, rfl⟩

/-- The names of the grammar are those of the parser: a keyword reads as its literal. -/
theorem nameExpr_of_keyword {name : String} {e : Expr} (h : (name, e) ∈ keywords) :
    nameExpr name = e := by
  simp only [keywords, List.mem_cons, Prod.mk.injEq, List.not_mem_nil, or_false] at h
  rcases h with ⟨rfl, rfl⟩ | ⟨rfl, rfl⟩ | ⟨rfl, rfl⟩ | ⟨rfl, rfl⟩ <;> simp [nameExpr]

theorem nameExpr_of_free {name : String} (h : name ∉ keywords.map Prod.fst) :
    nameExpr name = .ident name := by
  simp only [keywords, List.map_cons, List.map_nil, List.mem_cons, List.not_mem_nil, or_false,
    not_or] at h
  obtain ⟨h₁, h₂, h₃, h₄⟩ := h
  rw [nameExpr, if_neg h₁, if_neg h₂, if_neg h₃, if_neg h₄]

/-- Parentheses read as what stands in them and leave no trace in the tree. -/
theorem operand_parens {e : Expr} {o o' : Nat}
    (hinner : Gives (inner 0 rest) (treeOf e) (⟨o', .punct .closeParen⟩ :: rest') why) :
    Gives (operand inner (⟨o, .punct .openParen⟩ :: rest)) (treeOf e) rest' why := by
  rcases hinner with ⟨hlt, h⟩ | ⟨h, hwhy⟩
  · refine Or.inl ⟨by simp only [List.length_cons] at hlt ⊢; omega, ?_⟩
    simp only [operand, h, bind, Except.bind, expect, if_true]
  · refine Or.inr ⟨?_, hwhy⟩
    simp only [operand, h]
    rfl

/-- A prefix operator reads as its application to what follows, which is itself read at the strength
of prefix operators. The tree is refused only where it is too high. -/
theorem operand_unary {e : Expr} {o : Nat} {p : Punct} {op : UnaryOp}
    (hp : (p, op) ∈ unaryOperators)
    (hinner : Gives (inner unaryStrength rest) (treeOf e) rest' why)
    (hheight : maxExprDepth < (Expr.unary op e).height → why) :
    Gives (operand inner (⟨o, .punct p⟩ :: rest)) (treeOf (.unary op e)) rest' why := by
  have hstep : operand inner (⟨o, .punct p⟩ :: rest) = operand.unaryTree inner op rest := by
    rcases (by simpa [unaryOperators] using hp : _ ∨ _) with ⟨rfl, rfl⟩ | ⟨rfl, rfl⟩ <;> rfl
  rcases hinner with ⟨hlt, h⟩ | ⟨h, hwhy⟩
  · rcases nest_cases e.height with hn | ⟨hn, hh⟩
    · refine Or.inl ⟨by simp only [List.length_cons]; omega, ?_⟩
      simp only [hstep, operand.unaryTree, h, bind, Except.bind, treeOf, hn]
      rfl
    · refine Or.inr ⟨?_, hheight hh⟩
      simp only [hstep, operand.unaryTree, h, bind, Except.bind, treeOf, hn]
  · refine Or.inr ⟨?_, hwhy⟩
    simp only [hstep, operand.unaryTree, h]
    rfl

/-! ## Array literals -/

variable {item : TreeReader}

theorem arrayItems_error {e : ExprError} {ts : List Lexeme} (h : item ts = .error e) :
    arrayItems item ts = .error e := by
  rw [arrayItems, h]

/-- The bracket behind an item ends the array with it. -/
theorem arrayItems_last {tree : Tree} {o : Nat} {ts : List Lexeme}
    (h : Gives (item ts) tree (⟨o, .punct .closeBracket⟩ :: rest) why) :
    Gives (arrayItems item ts) [tree] rest why := by
  rcases h with ⟨hlt, h⟩ | ⟨h, hwhy⟩
  · refine Or.inl ⟨by simp only [List.length_cons] at hlt; omega, ?_⟩
    rw [arrayItems, h]
  · exact Or.inr ⟨arrayItems_error h, hwhy⟩

/-- So do a comma and then the bracket: one comma may trail behind the last item. -/
theorem arrayItems_trailing {tree : Tree} {o o' : Nat} {ts : List Lexeme}
    (h : Gives (item ts) tree (⟨o, .punct .comma⟩ :: ⟨o', .punct .closeBracket⟩ :: rest) why) :
    Gives (arrayItems item ts) [tree] rest why := by
  rcases h with ⟨hlt, h⟩ | ⟨h, hwhy⟩
  · refine Or.inl ⟨by simp only [List.length_cons] at hlt; omega, ?_⟩
    rw [arrayItems, h]
    simp
  · exact Or.inr ⟨arrayItems_error h, hwhy⟩

/-- A comma with anything but the bracket behind it asks for further items. -/
theorem arrayItems_further {tree : Tree} {trees : List Tree} {o : Nat} {l : Lexeme}
    {ts : List Lexeme} (h : Gives (item ts) tree (⟨o, .punct .comma⟩ :: l :: rest) why)
    (hl : l.token ≠ .punct .closeBracket)
    (hfurther : Gives (arrayItems item (l :: rest)) trees rest' why) :
    Gives (arrayItems item ts) (tree :: trees) rest' why := by
  rcases h with ⟨hlt, h⟩ | ⟨h, hwhy⟩
  · have hstep : arrayItems item ts = (arrayItems item (l :: rest)).map fun items =>
        (items.map (tree :: ·)).within (by simp only [List.length_cons] at hlt ⊢; omega) := by
      rw [arrayItems, h]
      simp [hl]
    rcases hfurther with ⟨hlt', hfurther⟩ | ⟨hfurther, hwhy⟩
    · refine Or.inl ⟨by simp only [List.length_cons] at hlt hlt'; omega, ?_⟩
      rw [hstep, hfurther]
      rfl
    · refine Or.inr ⟨?_, hwhy⟩
      rw [hstep, hfurther]
      rfl
  · exact Or.inr ⟨arrayItems_error h, hwhy⟩

/-- Items that are too high make too high an array, be it the first one or any behind it. -/
theorem height_lt_cons {k : Nat} {e : Expr} {es : List Expr}
    (h : k < e.height ∨ k < (Expr.array es).height) : k < (Expr.array (e :: es)).height := by
  simp only [Expr.height, Expr.tallest] at h ⊢
  omega

/-- Lexemes whose tokens begin with a given one begin with a lexeme of that token, at some offset. -/
theorem map_token_eq_cons {ws : List Lexeme} {t : Token} {ts : List Token}
    (h : ws.map Lexeme.token = t :: ts) :
    ∃ o ws', ws = ⟨o, t⟩ :: ws' ∧ ws'.map Lexeme.token = ts := by
  obtain ⟨l, ws', rfl, hl, hws'⟩ := List.map_eq_cons_iff.mp h
  subst hl
  exact ⟨l.offset, ws', rfl, hws'⟩

theorem map_token_eq_singleton {ws : List Lexeme} {t : Token} (h : ws.map Lexeme.token = [t]) :
    ∃ o, ws = [⟨o, t⟩] := by
  obtain ⟨o, ws', rfl, hws'⟩ := map_token_eq_cons h
  obtain rfl := List.map_eq_nil_iff.mp hws'
  exact ⟨o, rfl⟩

/-- The items of an array literal, each one of a complete derivation. -/
theorem arrayItems_complete (levels : Nat) (rest : List Lexeme) {d : Nat}
    {first trailing : List Token} {e : Expr} {items : List (List Token × Expr)}
    {ws : List Lexeme} (hfirst : Complete .expr d first e)
    (hitems : ∀ i ∈ items, Complete .expr d i.1 i.2 ∧ Derivation .expr d i.1 i.2)
    (hcomma : trailing = [] ∨ trailing = [.punct .comma])
    (hws : ws.map Lexeme.token = itemWords first items trailing) :
    Gives (arrayItems (exprAt levels 0) (ws ++ rest)) ((e :: items.map Prod.snd).map treeOf) rest
      (levels < d + 1 ∨ maxExprDepth < (Expr.array (e :: items.map Prod.snd)).height) := by
  induction items generalizing first e ws with
  | nil =>
    obtain ⟨wl, tl, rfl, hwl, htl⟩ := List.map_eq_append_iff.mp hws
    rw [List.append_assoc]
    rcases hcomma with rfl | rfl
    · obtain ⟨o, tl, rfl, hnil⟩ := map_token_eq_cons htl
      obtain rfl := List.map_eq_nil_iff.mp hnil
      have h := hfirst.gives_bracketed levels ⟨o, .punct .closeBracket⟩ rest hwl rfl
      exact arrayItems_last (h.imp (Or.imp id fun hh => height_lt_cons (Or.inl hh)))
    · obtain ⟨o, tl₁, rfl, htl₁⟩ := map_token_eq_cons htl
      obtain ⟨o', tl₂, rfl, hnil⟩ := map_token_eq_cons htl₁
      obtain rfl := List.map_eq_nil_iff.mp hnil
      have h := hfirst.gives_bracketed levels ⟨o, .punct .comma⟩
        (⟨o', .punct .closeBracket⟩ :: rest) hwl rfl
      exact arrayItems_trailing (h.imp (Or.imp id fun hh => height_lt_cons (Or.inl hh)))
  | cons i items ih =>
    obtain ⟨wl, tl, rfl, hwl, htl⟩ := List.map_eq_append_iff.mp hws
    have hcons : tl.map Lexeme.token = .punct .comma :: itemWords i.1 items trailing := by
      rw [htl]
      simp [furtherItems, itemWords]
    obtain ⟨o, tl₁, rfl, htl₁⟩ := map_token_eq_cons hcons
    obtain ⟨hi, hder⟩ := hitems i List.mem_cons_self
    -- the next item does not begin with the `]` that would end the literal here
    obtain ⟨t, ts, hhead, ht⟩ := head_of_derivation hder
    have hhead' := htl₁
    rw [itemWords, hhead] at hhead'
    obtain ⟨o', tl₂, rfl, -⟩ := map_token_eq_cons hhead'
    have hrest := ih hi (fun j hj => hitems j (List.mem_cons_of_mem _ hj)) htl₁
    rw [List.append_assoc]
    have h := hfirst.gives_bracketed levels ⟨o, .punct .comma⟩ (⟨o', t⟩ :: tl₂ ++ rest) hwl rfl
    exact arrayItems_further (h.imp (Or.imp id fun hh => height_lt_cons (Or.inl hh))) ht
      (hrest.imp (Or.imp id fun hh => height_lt_cons (Or.inr hh)))

/-- The tree of an array literal from the trees of its items. -/
theorem arrayTree_cases (es : List Expr) :
    arrayTree (es.map treeOf) = .ok (treeOf (.array es)) ∨
      (arrayTree (es.map treeOf) = .error .tooDeep ∧ maxExprDepth < (Expr.array es).height) := by
  have hexprs : (es.map treeOf).map Tree.expr = es := by
    rw [List.map_map]
    exact List.map_id _
  have hheights : ∀ t ∈ es.map treeOf, t.height = t.expr.height := by
    intro t ht
    obtain ⟨e, -, rfl⟩ := List.mem_map.mp ht
    rfl
  rw [arrayTree, foldl_max_heights _ hheights, Nat.zero_max, hexprs]
  rcases nest_cases (Expr.tallest es) with h | ⟨h, hlt⟩
  · refine Or.inl ?_
    rw [h]
    rfl
  · refine Or.inr ⟨?_, hlt⟩
    rw [h]
    rfl

/-- A bracket that is not closed at once reads as the array of its items, unless the array is too
deep. -/
theorem operand_array {es : List Expr} {o : Nat} {l : Lexeme}
    (hl : l.token ≠ .punct .closeBracket)
    (hitems : Gives (arrayItems (inner 0) (l :: rest)) (es.map treeOf) rest' why)
    (hheight : maxExprDepth < (Expr.array es).height → why) :
    Gives (operand inner (⟨o, .punct .openBracket⟩ :: l :: rest)) (treeOf (.array es)) rest'
      why := by
  rcases hitems with ⟨hlt, h⟩ | ⟨h, hwhy⟩
  · rcases arrayTree_cases es with ht | ⟨ht, hh⟩
    · refine Or.inl ⟨by simp only [List.length_cons] at hlt ⊢; omega, ?_⟩
      simp only [operand, hl, if_false, h, bind, Except.bind, ht]
    · refine Or.inr ⟨?_, hheight hh⟩
      simp only [operand, hl, if_false, h, bind, Except.bind, ht]
  · refine Or.inr ⟨?_, hwhy⟩
    simp only [operand, hl, if_false, h]
    rfl

/-! ## The induction -/

/-- Parts that are too high make too high a conditional. -/
theorem height_lt_conditional {k : Nat} {c y n : Expr}
    (h : k < c.height ∨ k < y.height ∨ k < n.height) : k < (Expr.conditional c y n).height := by
  simp only [Expr.height]
  omega

/-- Every derivation is complete. -/
theorem complete_of_derivation {n : Nonterminal} {d : Nat} {w : List Token} {e : Expr}
    (h : Derivation n d w e) : Complete n d w e := by
  induction h with
  | @tighter n d w e proper _ ih =>
    intro levels s rest ws hws hs hstops
    exact ih levels s rest hws (Nat.le_trans hs (Nat.le_of_lt (strength_lt_tighter proper)))
      (hstops.mono (hold_le_tighter proper))
  | @conditional d cs ys ns cond yes no _ _ _ ihc ihy ihn =>
    intro levels s rest ws hws hs hstops
    obtain ⟨wc, w₁, rfl, hwc, hw₁⟩ := List.map_eq_append_iff.mp hws
    obtain ⟨o, w₂, rfl, hw₂⟩ := map_token_eq_cons hw₁
    obtain ⟨wy, w₃, rfl, hwy, hw₃⟩ := List.map_eq_append_iff.mp hw₂
    obtain ⟨o', wn, rfl, hwn⟩ := map_token_eq_cons hw₃
    -- the question mark pulls less than the condition holds, so the condition ends before it
    have hpull : ∀ t, Stops (Nonterminal.hold .coalesce) (⟨o, .punct .question⟩ :: t) := by
      intro t
      rw [stops_cons]
      rintro u ⟨⟩
      decide
    have hcond := ihc levels s _ hwc (Nat.le_trans hs (by decide))
      (hpull (wy ++ ⟨o', .punct .colon⟩ :: (wn ++ rest)))
    have hyes := ihy.gives_bracketed levels ⟨o', .punct .colon⟩ (wn ++ rest) hwy rfl
    have hno := ihn.gives levels conditionalStrength rest hwn (Nat.le_refl _) (by decide)
      hstops hstops
    simp only [List.append_assoc, List.cons_append]
    refine hcond.step ?_ (continuation_conditional hs (hyes.imp ?_) (hno.imp ?_) Or.inr)
    · exact Or.imp id fun hh => height_lt_conditional (Or.inl hh)
    · exact Or.imp id fun hh => height_lt_conditional (Or.inr (Or.inl hh))
    · exact Or.imp id fun hh => height_lt_conditional (Or.inr (Or.inr hh))
  | @operator n d ls rs l r p op sign _ _ ihl ihr =>
    intro levels s rest ws hws hs hstops
    obtain ⟨wl, w₁, rfl, hwl, hw₁⟩ := List.map_eq_append_iff.mp hws
    obtain ⟨o, wr, rfl, hwr⟩ := map_token_eq_cons hw₁
    -- the left operand ends at the sign, and the right one where the whole expression does
    have hhold := hold_of_mem_operators sign
    have hunary := strength_lt_unary sign
    have hproper : n ≠ .primary := by
      rintro rfl
      cases sign
    have hleft := ihl levels s (⟨o, .punct p⟩ :: (wr ++ rest)) hwl hs (by
        rw [stops_cons, pull?_of_middle (mem_operators_iff.mp sign), hhold]
        rintro u ⟨⟩
        exact Nat.lt_succ_self _)
    have hright := ihr.gives levels (n.strength + 1) rest hwr
      (strength_lt_tighter hproper) hunary (hstops.mono (hold_le_tighter hproper))
      (hhold ▸ hstops)
    simp only [List.append_assoc, List.cons_append]
    refine hleft.step ?_ (continuation_operator sign hs (hright.imp ?_) Or.inr)
    · exact Or.imp id fun hh => by rw [height_combine]; omega
    · exact Or.imp id fun hh => by rw [height_combine]; omega
  | @unary d ws e p op sign _ ih =>
    intro levels s rest ws hws hs hstops
    obtain ⟨o, w₁, rfl, hw₁⟩ := map_token_eq_cons hws
    have hinner := ih.gives levels unaryStrength rest hw₁ (Nat.le_refl _)
      (Nat.le_refl _) hstops hstops.of_hold_unary
    refine arrives_of_operand (operand_unary sign (hinner.imp ?_) Or.inr)
    exact Or.imp id Nat.lt_succ_of_lt
  | @member d ws e name _ ih =>
    intro levels s rest ws hws hs _
    obtain ⟨wb, w₁, rfl, hwb, hw₁⟩ := List.map_eq_append_iff.mp hws
    obtain ⟨o, w₂, rfl, hw₂⟩ := map_token_eq_cons hw₁
    obtain ⟨o', rfl⟩ := map_token_eq_singleton hw₂
    -- nothing holds as much as an access pulls, so what it is made to ends before the dot
    have hbase := ih levels s _ hwb hs
      (stops_of_lt lt_hold_access (⟨o, .punct .dot⟩ :: ⟨o', .ident name⟩ :: rest))
    simp only [List.append_assoc, List.cons_append, List.nil_append]
    exact hbase.step (Or.imp id Nat.lt_succ_of_lt) (continuation_member Or.inr)
  | @index d ws ks e k _ _ ih ihk =>
    intro levels s rest ws hws hs _
    obtain ⟨wb, w₁, rfl, hwb, hw₁⟩ := List.map_eq_append_iff.mp hws
    obtain ⟨o, w₂, rfl, hw₂⟩ := map_token_eq_cons hw₁
    obtain ⟨wk, w₃, rfl, hwk, hw₃⟩ := List.map_eq_append_iff.mp hw₂
    obtain ⟨o', rfl⟩ := map_token_eq_singleton hw₃
    have hbase := ih levels s _ hwb hs (stops_of_lt lt_hold_access
      (⟨o, .punct .openBracket⟩ :: (wk ++ ⟨o', .punct .closeBracket⟩ :: rest)))
    have hkey := ihk.gives_bracketed levels ⟨o', .punct .closeBracket⟩ rest hwk rfl
    simp only [List.append_assoc, List.cons_append, List.nil_append]
    refine hbase.step ?_ (continuation_index (hkey.imp ?_) Or.inr)
    · exact Or.imp id fun hh => Nat.lt_succ_of_lt (Nat.lt_of_lt_of_le hh (Nat.le_max_left _ _))
    · exact Or.imp id fun hh => Nat.lt_succ_of_lt (Nat.lt_of_lt_of_le hh (Nat.le_max_right _ _))
  | number =>
    intro levels s rest ws hws _ _
    obtain ⟨o, rfl⟩ := map_token_eq_singleton hws
    exact arrives_of_operand operand_number
  | string =>
    intro levels s rest ws hws _ _
    obtain ⟨o, rfl⟩ := map_token_eq_singleton hws
    exact arrives_of_operand operand_string
  | keyword known =>
    intro levels s rest ws hws _ _
    obtain ⟨o, rfl⟩ := map_token_eq_singleton hws
    exact arrives_of_operand (nameExpr_of_keyword known ▸ operand_ident)
  | ident free =>
    intro levels s rest ws hws _ _
    obtain ⟨o, rfl⟩ := map_token_eq_singleton hws
    exact arrives_of_operand (nameExpr_of_free free ▸ operand_ident)
  | parens _ ih =>
    intro levels s rest ws hws _ _
    obtain ⟨o, w₁, rfl, hw₁⟩ := map_token_eq_cons hws
    obtain ⟨wi, w₂, rfl, hwi, hw₂⟩ := List.map_eq_append_iff.mp hw₁
    obtain ⟨o', rfl⟩ := map_token_eq_singleton hw₂
    have hinner := ih.gives_bracketed levels ⟨o', .punct .closeParen⟩ rest hwi rfl
    simp only [List.append_assoc, List.cons_append, List.nil_append]
    exact arrives_of_operand (operand_parens hinner)
  | emptyArray =>
    intro levels s rest ws hws _ _
    obtain ⟨o, w₁, rfl, hw₁⟩ := map_token_eq_cons hws
    obtain ⟨o', rfl⟩ := map_token_eq_singleton hw₁
    exact arrives_of_operand operand_emptyArray
  | @array d w e items trailing first further comma ih ihs =>
    intro levels s rest ws hws _ _
    obtain ⟨o, w₁, rfl, hw₁⟩ := map_token_eq_cons hws
    obtain ⟨t, ts, rfl, ht⟩ := head_of_derivation first
    obtain ⟨o', w₂, rfl, -⟩ := map_token_eq_cons hw₁
    have hitems := arrayItems_complete levels rest ih
      (fun i hi => ⟨ihs i hi, further i hi⟩) comma hw₁
    exact arrives_of_operand (operand_array ht hitems Or.inr)

/-! ## Whole token lists -/

/-- A whole token list that derives a tree in `d` levels is that tree, unless it is too deep: then
there are not `d` levels, or the tree is too high. -/
theorem ofTokens_of_derivation {d : Nat} {ts : List Lexeme} {e : Expr}
    (h : Derivation .expr d (ts.map Lexeme.token) e) :
    Expr.ofTokens ts = .ok e ∨
      (Expr.ofTokens ts = .error .tooDeep ∧ (maxExprDepth < d + 1 ∨ maxExprDepth < e.height)) := by
  have hne : ts ≠ [] := by
    rintro rfl
    obtain ⟨t, ws, hcons, -⟩ := head_of_derivation h
    cases hcons
  have hgives := (complete_of_derivation h).gives maxExprDepth 0 [] rfl (Nat.zero_le _)
    (Nat.zero_le _) (stops_nil _) (stops_nil _)
  rw [List.append_nil] at hgives
  rcases hgives with ⟨hlt, hread⟩ | ⟨hread, hwhy⟩
  · refine Or.inl ?_
    rw [Expr.ofTokens, if_neg hne, hread]
    rfl
  · refine Or.inr ⟨?_, hwhy⟩
    rw [Expr.ofTokens, if_neg hne, hread]
    rfl

/-- The accepted token lists are those that derive a tree with the levels there are and within the
height there is. -/
theorem ofTokens_eq_ok_iff {ts : List Lexeme} {e : Expr} :
    Expr.ofTokens ts = .ok e ↔
      Derivation .expr (maxExprDepth - 1) (ts.map Lexeme.token) e ∧ e.height ≤ maxExprDepth := by
  constructor
  · exact ofTokens_sound
  · rintro ⟨h, hheight⟩
    rcases ofTokens_of_derivation h with hok | ⟨-, hdeep | hhigh⟩
    · exact hok
    · exact absurd hdeep (by decide)
    · exact absurd hhigh (Nat.not_lt.mpr hheight)

/-- An expression is what its tokens parse to, and its tokens are what its text is scanned to. -/
theorem parse_eq_ok_iff {source : String} {e : Expr} :
    Expr.parse source = .ok e ↔ ∃ ts, scan source = .ok ts ∧ Expr.ofTokens ts = .ok e := by
  constructor
  · exact ok_of_bind
  · rintro ⟨ts, hts, h⟩
    rw [Expr.parse, hts]
    exact h

/--
The parser and the grammar agree. A token list that the parser accepts derives the parser's tree; a
token list that derives a tree is accepted with that tree or refused as too deep; a source is read
by way of its tokens; and no source in which a `(` follows an operand is accepted.
-/
theorem parser_agrees_with_grammar :
    (∀ ts e, Expr.ofTokens ts = .ok e → Derives .expr (ts.map Lexeme.token) e) ∧
    (∀ ts e, Derives .expr (ts.map Lexeme.token) e →
      Expr.ofTokens ts = .ok e ∨ Expr.ofTokens ts = .error .tooDeep) ∧
    (∀ source e, Expr.parse source = .ok e ↔
      ∃ ts, scan source = .ok ts ∧ Expr.ofTokens ts = .ok e) ∧
    (∀ source ts n before operand after tree, scan source = .ok ts →
      ts.map Lexeme.token = before ++ operand ++ .punct .openParen :: after →
      Derives n operand tree → ∀ e, Expr.parse source ≠ .ok e) := by
  refine ⟨?_, ?_, fun source e => parse_eq_ok_iff, ?_⟩
  · intro ts e h
    exact ⟨_, (ofTokens_sound h).1⟩
  · rintro ts e ⟨d, h⟩
    exact (ofTokens_of_derivation h).imp id And.left
  · intro source ts n before operand after tree hts hwords hoperand e h
    obtain ⟨ts', hts', hok⟩ := parse_eq_ok_iff.mp h
    obtain rfl : ts' = ts := Except.ok.inj (hts'.symm.trans hts)
    have hder : Derives .expr (ts'.map Lexeme.token) e := ⟨_, (ofTokens_sound hok).1⟩
    rw [hwords] at hder
    exact not_derives_of_call hoperand hder

/-- The lexemes of `f(x)`. -/
def callLexemes : List Lexeme :=
  [⟨0, .ident "f"⟩, ⟨1, .punct .openParen⟩, ⟨2, .ident "x"⟩, ⟨3, .punct .closeParen⟩]

/-- `f` is an operand and `(x)` an expression, but `f(x)` is none. -/
theorem call_refused :
    (Expr.ofTokens callLexemes.tail = .ok (.ident "x") ∧
      Derives .expr (callLexemes.tail.map Lexeme.token) (.ident "x")) ∧
    (Derives .expr (callLexemes.tail.map Lexeme.token) (.ident "x") ∧
      (Expr.ofTokens callLexemes.tail = .ok (.ident "x") ∨
        Expr.ofTokens callLexemes.tail = .error .tooDeep)) ∧
    (scan "f(x)" = .ok callLexemes ∧ Derives .primary [.ident "f"] (.ident "f") ∧
      ∀ e, Expr.parse "f(x)" ≠ .ok e) := by
  have hparens : Expr.ofTokens callLexemes.tail = .ok (.ident "x") := by cbv
  have hder := parser_agrees_with_grammar.1 _ _ hparens
  have hscan : scan "f(x)" = .ok callLexemes := by cbv
  have hf : Derives .primary [.ident "f"] (.ident "f") := ⟨0, .ident (by simp [keywords])⟩
  exact ⟨⟨hparens, hder⟩, ⟨hder, parser_agrees_with_grammar.2.1 _ _ hder⟩, hscan, hf,
    parser_agrees_with_grammar.2.2.2 _ _ _ [] [.ident "f"] _ _ hscan rfl hf⟩

end AppletHost.Grammar
