import AppletHost.Proofs.Expr.Grammar

/-!
# What the parser reads, the grammar derives

A reader at strength `s` is sound when the words it takes derive its tree from
some nonterminal at least as tight as `s`. The loop over the operators carries
one invariant, `Reads`: the words so far derive the tree from a nonterminal
`n`, *and the next token does not pull at the tree harder than `n`*. The second
half is what makes the grammar's levels come out right: an operator that pulls
at strength `u` finds `u ≤ n.strength`, so the tree may stand on its left.

> `exprAt_sound`: an expression that is read at strength `s` is derived from a
> nonterminal at least as tight, its height is the one the reader carries, and
> what is left does not go on at strength `s`.
-/

namespace AppletHost.Grammar

open Text (Taken)

/-! ## Strata and strengths -/

/-- How strongly what a stratum derives holds together. -/
def Nonterminal.strength : Nonterminal → Nat
  | .expr => conditionalStrength
  | .coalesce => 3
  | .disjunction => 5
  | .conjunction => 7
  | .equality => 9
  | .relation => 11
  | .sum => 13
  | .product => 15
  | .unary => unaryStrength
  | .access => 19
  | .primary => 20

/-- The least pull at an operand of the stratum that needs a tighter operand. A conditional is no
condition itself, so its own strength is too much already. -/
def Nonterminal.hold : Nonterminal → Nat
  | .expr => conditionalStrength
  | n => n.strength + 1

/-- The strength table of the parser and the strata of the grammar agree. -/
theorem mem_operators_iff {n : Nonterminal} {p : Punct} {op : MiddleOp} :
    (p, op) ∈ n.operators ↔ p.middle? = some (op, n.strength) := by
  cases n <;> cases p <;>
    simp [Nonterminal.operators, Punct.middle?, Nonterminal.strength, conditionalStrength,
      unaryStrength, eq_comm]

/-- Every operator between two operands belongs to a stratum of the grammar, whose strength is the one
the parser has for it. -/
theorem exists_mem_operators {p : Punct} {op : MiddleOp} {u : Nat}
    (h : p.middle? = some (op, u)) : ∃ n : Nonterminal, (p, op) ∈ n.operators ∧ u = n.strength := by
  have hu : ∃ n : Nonterminal, u = n.strength := by
    cases p <;> simp [Punct.middle?] at h <;> obtain ⟨-, rfl⟩ := h
    all_goals
      first
      | exact ⟨.coalesce, rfl⟩
      | exact ⟨.disjunction, rfl⟩
      | exact ⟨.conjunction, rfl⟩
      | exact ⟨.equality, rfl⟩
      | exact ⟨.relation, rfl⟩
      | exact ⟨.sum, rfl⟩
      | exact ⟨.product, rfl⟩
  obtain ⟨n, rfl⟩ := hu
  exact ⟨n, mem_operators_iff.mpr h, rfl⟩

/-- No stratum lies between one and the next tighter one. -/
theorem strength_tighter_le {m n : Nonterminal} (h : m.strength < n.strength) :
    m.tighter.strength ≤ n.strength := by
  revert h
  cases m <;> cases n <;> decide

/-- Each nonterminal but the last is looser than the next one; there is no other order among them. -/
theorem strength_lt_tighter {n : Nonterminal} (h : n ≠ .primary) :
    n.strength < n.tighter.strength := by
  revert h
  cases n <;> decide

theorem strength_le_primary (n : Nonterminal) : n.strength ≤ Nonterminal.primary.strength := by
  cases n <;> decide

theorem strength_injective {m n : Nonterminal} (h : m.strength = n.strength) : m = n := by
  revert h
  cases m <;> cases n <;> decide

theorem hold_le (n : Nonterminal) : n.hold ≤ n.strength + 1 := by
  cases n <;> decide

/-- A tighter nonterminal holds more of what follows it. -/
theorem hold_le_tighter {n : Nonterminal} (h : n ≠ .primary) : n.hold ≤ n.tighter.hold := by
  revert h
  cases n <;> decide

/-- A nonterminal with operators of its own holds its operands just tighter than itself, which makes
them group to the left. -/
theorem hold_of_mem_operators {n : Nonterminal} {x : Punct × MiddleOp} (h : x ∈ n.operators) :
    n.hold = n.strength + 1 := by
  cases n <;> first | rfl | cases h

/-- Every operator between two operands is looser than the prefix operators. -/
theorem strength_lt_unary {n : Nonterminal} {x : Punct × MiddleOp} (h : x ∈ n.operators) :
    n.strength < unaryStrength := by
  cases n <;> first | decide | cases h

theorem lt_hold_primary : 19 < Nonterminal.primary.hold := by decide

theorem lt_hold_access : 19 < Nonterminal.access.hold := by decide

/-- A stratum derives all that the tighter ones derive, in one step of the grammar for each stratum
between them. -/
theorem Derivation.loosen {m n : Nonterminal} {d : Nat} {ws : List Token} {e : Expr}
    (h : Derivation n d ws e) (hmn : m.strength ≤ n.strength) : Derivation m d ws e := by
  -- induction on how much looser `m` is
  induction hk : n.strength - m.strength using Nat.strong_induction_on generalizing m with
  | _ k ih =>
    rcases Nat.eq_or_lt_of_le hmn with heq | hlt
    · exact strength_injective heq ▸ h
    · have hm : m ≠ .primary := by
        rintro rfl
        exact absurd hlt (Nat.not_lt.mpr (strength_le_primary n))
      have hstep := strength_lt_tighter hm
      exact .tighter hm (ih _ (by omega) (strength_tighter_le hlt) rfl)

/-! ## What goes on after an operand -/

/-- How strongly a token pulls at the operand before it; `none` if it cannot follow one. -/
def pull? : Token → Option Nat
  | .punct .dot | .punct .openBracket | .punct .openParen => some 19
  | .punct .question => some conditionalStrength
  | .punct p => p.middle?.map Prod.snd
  | _ => none

/-- The tokens do not go on with an expression at strength `s`. -/
def Stops (s : Nat) (ts : List Lexeme) : Prop := ∀ t ∈ ts.head?, ∀ u ∈ pull? t.token, u < s

/-- Where a loose reader stops, a tighter one does too. -/
theorem Stops.mono {s s' : Nat} {ts : List Lexeme} (h : Stops s ts) (hs : s ≤ s') :
    Stops s' ts :=
  fun t ht u hu => Nat.lt_of_lt_of_le (h t ht u hu) hs

theorem stops_nil (s : Nat) : Stops s [] := by
  intro t ht
  cases ht

/-- Reading stops at a lexeme that pulls less than what holds. -/
theorem stops_cons {s : Nat} {t : Lexeme} {ts : List Lexeme} :
    Stops s (t :: ts) ↔ ∀ u ∈ pull? t.token, u < s := by
  simp [Stops]

theorem pull?_le {t : Token} {u : Nat} (h : u ∈ pull? t) : u ≤ 19 := by
  cases t with
  | punct p =>
    cases p <;> simp [pull?, Punct.middle?, conditionalStrength] at h <;> omega
  | _ => simp [pull?] at h

/-- An operator between two operands pulls as hard as the table of operators says. -/
theorem pull?_of_middle {p : Punct} {op : MiddleOp} {u : Nat} (h : p.middle? = some (op, u)) :
    pull? (.punct p) = some u := by
  cases p <;> simp_all [pull?, Punct.middle?]

/-- Nothing pulls just as hard as an operator before its operand holds. -/
theorem Stops.of_hold_unary {ts : List Lexeme} (h : Stops Nonterminal.unary.hold ts) :
    Stops unaryStrength ts := by
  intro t ht u hu
  have hlt := h t ht u hu
  have hne : u ≠ unaryStrength := by
    rintro rfl
    cases htoken : t.token with
    | punct p =>
      rw [htoken] at hu
      cases p <;> simp [pull?, Punct.middle?, conditionalStrength, unaryStrength] at hu
    | _ => simp [htoken, pull?] at hu
  exact Nat.lt_of_le_of_ne (Nat.le_of_lt_succ hlt) hne

/-- Behind a primary expression anything may follow, because nothing pulls at it as hard as it
holds. -/
theorem stops_of_lt {s : Nat} (hs : 19 < s) (ts : List Lexeme) : Stops s ts :=
  fun _ _ _ hu => Nat.lt_of_le_of_lt (pull?_le hu) hs

/-! ## Sound readers -/

/-- A step of an expression that may fail did not fail. The readers are taken apart by this, one step
after the other. -/
theorem ok_of_bind {ε α β : Type} {x : Except ε α} {f : α → Except ε β} {b : β}
    (h : x >>= f = .ok b) : ∃ a, x = .ok a ∧ f a = .ok b := by
  cases x with
  | error e => cases h
  | ok a => exact ⟨a, rfl, h⟩

/-- A node that was built is one higher than what is in it, and within the limit. -/
theorem nest_eq_ok {child height : Nat} (h : nest child = .ok height) :
    height = child + 1 ∧ height ≤ maxExprDepth := by
  unfold nest at h
  split at h
  · cases h
  · cases h
    exact ⟨rfl, by omega⟩

/-- What was expected is what stood there, and the rest follows it. -/
theorem expect_eq_ok {p : Punct} {ts : List Lexeme} {t : Taken Unit ts}
    (h : expect p ts = .ok t) : ∃ l : Lexeme, l.token = .punct p ∧ ts = l :: t.rest := by
  cases ts with
  | nil => cases h
  | cons l rest =>
    simp only [expect] at h
    split at h
    next hl => cases h; exact ⟨l, hl, rfl⟩
    next => cases h

theorem one_le_maxExprDepth : 1 ≤ maxExprDepth := by decide

/-- `ts` is words that derive the tree, at least as tight as `s`, and then `rest`, which does not
pull harder at the tree than the tree holds together. The tree knows its height. -/
structure Reads (d s : Nat) (ts : List Lexeme) (tree : Tree) (rest : List Lexeme) : Prop where
  derived : ∃ ws n, ts = ws ++ rest ∧ s ≤ n.strength ∧ Stops n.hold rest ∧
    Derivation n d (ws.map Lexeme.token) tree.expr
  height_eq : tree.height = tree.expr.height
  height_le : tree.height ≤ maxExprDepth

/-- Whatever the reader reads at a strength, `Reads` says of it, with one level used up. -/
def Sound (inner : Nat → TreeReader) (d : Nat) : Prop :=
  ∀ ⦃s : Nat⦄ ⦃ts : List Lexeme⦄ ⦃t : Taken Tree ts⦄, s ≤ unaryStrength → inner s ts = .ok t →
    ∃ d', d = d' + 1 ∧ Reads d' s ts t.value t.rest ∧ Stops s t.rest

theorem expr_strength_le (n : Nonterminal) : Nonterminal.expr.strength ≤ n.strength := by
  cases n <;> decide

/-- A primary expression at the front is read by itself: the words are those of its derivation, and
its height is counted right. -/
theorem Reads.primary {d s : Nat} (ws : List Lexeme) {ts rest : List Lexeme} {tree : Tree}
    (hs : s ≤ unaryStrength) (hts : ts = ws ++ rest)
    (hder : Derivation .primary d (ws.map Lexeme.token) tree.expr)
    (heq : tree.height = tree.expr.height) (hle : tree.height ≤ maxExprDepth) :
    Reads d s ts tree rest :=
  ⟨⟨ws, .primary, hts, Nat.le_trans hs (by decide), stops_of_lt lt_hold_primary rest, hder⟩,
    heq, hle⟩

/-! ## Array literals -/

/-- The words of the items of an array literal with what ends it. -/
def itemWords (first : List Token) (items : List (List Token × Expr)) (trailing : List Token) :
    List Token :=
  first ++ (furtherItems items ++ (trailing ++ [.punct .closeBracket]))

/-- `ts` is the items of an array literal up to its `]`, and then `rest`. -/
structure ReadsItems (d : Nat) (ts : List Lexeme) (trees : List Tree) (rest : List Lexeme) :
    Prop where
  derived : ∃ ws first e items trailing, ts = ws ++ rest ∧
    ws.map Lexeme.token = itemWords first items trailing ∧ Derivation .expr d first e ∧
    (∀ item ∈ items, Derivation .expr d item.1 item.2) ∧
    (trailing = [] ∨ trailing = [.punct .comma]) ∧
    trees.map Tree.expr = e :: items.map Prod.snd
  heights : ∀ tree ∈ trees, tree.height = tree.expr.height

/-- The last item and the end of the literal, with a comma before the bracket or without one. -/
theorem ReadsItems.last {d : Nat} {ts ws : List Lexeme} (tail : List Lexeme)
    {rest : List Lexeme} {tree : Tree}
    (hts : ts = ws ++ (tail ++ rest)) (hder : Derivation .expr d (ws.map Lexeme.token) tree.expr)
    (hheight : tree.height = tree.expr.height) {trailing : List Token}
    (htail : tail.map Lexeme.token = trailing ++ [.punct .closeBracket])
    (hcomma : trailing = [] ∨ trailing = [.punct .comma]) :
    ReadsItems d ts [tree] rest := by
  refine ⟨⟨ws ++ tail, ws.map Lexeme.token, tree.expr, [], trailing, by simp [hts], ?_, hder, ?_,
    hcomma, rfl⟩, ?_⟩
  · rw [List.map_append, htail]
    rfl
  · intro item hitem
    cases hitem
  · intro t ht
    rw [List.mem_singleton.mp ht]
    exact hheight

/-- An item, a comma, and the items behind it; the row of all of them is again one of the grammar. -/
theorem ReadsItems.cons {d : Nat} {ts ws ts' rest : List Lexeme} {tree : Tree}
    {trees : List Tree} {l : Lexeme} (hts : ts = ws ++ l :: ts')
    (hder : Derivation .expr d (ws.map Lexeme.token) tree.expr)
    (hheight : tree.height = tree.expr.height) (hl : l.token = .punct .comma)
    (h : ReadsItems d ts' trees rest) : ReadsItems d ts (tree :: trees) rest := by
  obtain ⟨ws', first, e, items, trailing, rfl, hws, hfirst, hitems, hcomma, htrees⟩ := h.derived
  refine ⟨⟨ws ++ l :: ws', ws.map Lexeme.token, tree.expr, (first, e) :: items, trailing,
    by simp [hts], ?_, hder, ?_, hcomma, ?_⟩, ?_⟩
  · rw [List.map_append, List.map_cons, hws, hl]
    simp [itemWords, furtherItems]
  · intro item hitem
    rcases List.mem_cons.mp hitem with rfl | hitem
    · exact hfirst
    · exact hitems item hitem
  · rw [List.map_cons, htrees, List.map_cons]
  · intro t ht
    rcases List.mem_cons.mp ht with rfl | ht
    · exact hheight
    · exact h.heights t ht

/-- The items that the parser reads are items of the grammar, one level further in. -/
theorem arrayItems_sound {inner : Nat → TreeReader} {d : Nat} (hinner : Sound inner d)
    {ts : List Lexeme} {t : Taken (List Tree) ts} (h : arrayItems (inner 0) ts = .ok t) :
    ∃ d', d = d' + 1 ∧ ReadsItems d' ts t.value t.rest := by
  induction hk : ts.length using Nat.strong_induction_on generalizing ts with
  | _ k ih =>
    subst hk
    unfold arrayItems at h
    split at h
    next => cases h
    next item hitem =>
      obtain ⟨d, rfl, hreads, -⟩ := hinner (Nat.zero_le _) hitem
      obtain ⟨ws, n, hts, -, -, hder⟩ := hreads.derived
      replace hder := hder.loosen (expr_strength_le n)
      refine ⟨d, rfl, ?_⟩
      -- the items that a recursive call reads from what follows the comma
      have hfurther : ∀ {l : Lexeme} {rest : List Lexeme} {t' : Taken (List Tree) rest},
          item.rest = l :: rest → l.token = .punct .comma → arrayItems (inner 0) rest = .ok t' →
          ReadsItems d ts (item.value :: t'.value) t'.rest := by
        intro l rest t' hrest hl h'
        have hlt : rest.length < ts.length := by
          have := item.shorter
          rw [hrest, List.length_cons] at this
          omega
        obtain ⟨d', hd, hrec⟩ := ih _ hlt h' rfl
        obtain rfl : d = d' := by omega
        exact .cons (hts.trans (by rw [hrest])) hder hreads.height_eq hl hrec
      split at h
      next => cases h
      next l rest hrest =>
        have hts' : ts = ws ++ l :: rest := hts.trans (by rw [hrest])
        dsimp only at h
        split at h
        next hl =>
          cases h
          exact .last [l] hts' hder hreads.height_eq (by simp [hl]) (Or.inl rfl)
        next hl =>
          split at h
          next =>
            cases h' : arrayItems (inner 0) [] with
            | error e => rw [h'] at h; cases h
            | ok t' => rw [h'] at h; cases h; exact hfurther hrest hl h'
          next u rest' _ _ =>
            split at h
            next hu =>
              cases h
              exact .last [l, _] hts' hder hreads.height_eq (by simp [hl, hu]) (Or.inr rfl)
            next =>
              cases h' : arrayItems (inner 0) _ with
              | error e => rw [h'] at h; cases h
              | ok t' => rw [h'] at h; cases h; exact hfurther hrest hl h'
        next => cases h

/-- The tallest of the carried heights is the tallest height. -/
theorem foldl_max_heights (trees : List Tree) (h : ∀ t ∈ trees, t.height = t.expr.height)
    (k : Nat) :
    (trees.map Tree.height).foldl max k = max k (Expr.tallest (trees.map Tree.expr)) := by
  induction trees generalizing k with
  | nil => simp [Expr.tallest]
  | cons t trees ih =>
    rw [List.map_cons, List.foldl_cons, ih fun u hu => h u (List.mem_cons_of_mem _ hu),
      h t List.mem_cons_self, List.map_cons, Expr.tallest, Nat.max_assoc]

/-- The tree of an array is one higher than the highest of its items, and within the limit. -/
theorem arrayTree_eq_ok {trees : List Tree} {tree : Tree} (h : arrayTree trees = .ok tree)
    (hheights : ∀ t ∈ trees, t.height = t.expr.height) :
    tree.expr = .array (trees.map Tree.expr) ∧ tree.height = tree.expr.height ∧
      tree.height ≤ maxExprDepth := by
  unfold arrayTree at h
  cases hn : nest ((trees.map Tree.height).foldl max 0) with
  | error e => rw [hn] at h; cases h
  | ok height =>
    rw [hn] at h
    cases h
    obtain ⟨heq, hle⟩ := nest_eq_ok hn
    rw [foldl_max_heights trees hheights, Nat.zero_max] at heq
    exact ⟨rfl, heq, hle⟩

/-! ## Operands -/

/-- A name stands for what the grammar says: a keyword's value, or a variable. -/
theorem derivation_nameExpr (d : Nat) (name : String) :
    Derivation .primary d [.ident name] (nameExpr name) := by
  unfold nameExpr
  split
  next h => subst h; exact .keyword (by simp [keywords])
  next h₁ =>
    split
    next h => subst h; exact .keyword (by simp [keywords])
    next h₂ =>
      split
      next h => subst h; exact .keyword (by simp [keywords])
      next h₃ =>
        split
        next h => subst h; exact .keyword (by simp [keywords])
        next h₄ => exact .ident (by simp [keywords, h₁, h₂, h₃, h₄])

theorem height_nameExpr (name : String) : (nameExpr name).height = 1 := by
  unfold nameExpr
  split_ifs <;> rfl

/-- A prefix operator and its operand that the parser reads are an operand of the grammar. -/
theorem unaryTree_sound {inner : Nat → TreeReader} {d s : Nat} (hinner : Sound inner d)
    (hs : s ≤ unaryStrength) {l : Lexeme} {rest : List Lexeme} {p : Punct} {op : UnaryOp}
    (hl : l.token = .punct p) (hp : (p, op) ∈ unaryOperators)
    {t : Taken Tree (l :: rest)} (h : operand.unaryTree inner op rest = .ok t) :
    Reads d s (l :: rest) t.value t.rest := by
  obtain ⟨tree, htree, h⟩ := ok_of_bind h
  obtain ⟨height, hheight, h⟩ := ok_of_bind h
  cases h
  obtain ⟨heq, hle⟩ := nest_eq_ok hheight
  obtain ⟨d, rfl, hreads, hstops⟩ := hinner (Nat.le_refl _) htree
  obtain ⟨ws, n, hts, hn, -, hder⟩ := hreads.derived
  refine ⟨⟨l :: ws, .unary, congrArg (l :: ·) hts, hs, hstops.mono (Nat.le_succ _), ?_⟩, ?_, hle⟩
  · rw [List.map_cons, hl]
    exact .unary hp (hder.loosen hn)
  · rw [heq, hreads.height_eq]
    rfl

/-- What the parser reads before an operator is an operand of the grammar, whatever it begins with. -/
theorem operand_sound {inner : Nat → TreeReader} {d s : Nat} (hinner : Sound inner d)
    (hs : s ≤ unaryStrength) {ts : List Lexeme} {t : Taken Tree ts}
    (h : operand inner ts = .ok t) : Reads d s ts t.value t.rest := by
  cases ts with
  | nil => cases h
  | cons l rest =>
    simp only [operand] at h
    split at h
    next x hl =>
      cases h
      exact .primary [l] hs rfl (by simpa [hl] using .number) rfl one_le_maxExprDepth
    next x hl =>
      cases h
      exact .primary [l] hs rfl (by simpa [hl] using .string) rfl one_le_maxExprDepth
    next name hl =>
      cases h
      refine .primary [l] hs rfl (by simpa [hl] using derivation_nameExpr d name)
        (height_nameExpr name).symm one_le_maxExprDepth
    next hl =>
      obtain ⟨tree, htree, h⟩ := ok_of_bind h
      obtain ⟨close, hclose, h⟩ := ok_of_bind h
      cases h
      obtain ⟨d, rfl, hreads, -⟩ := hinner (Nat.zero_le _) htree
      obtain ⟨ws, n, hts, -, -, hder⟩ := hreads.derived
      obtain ⟨c, hc, hrest⟩ := expect_eq_ok hclose
      refine .primary (l :: (ws ++ [c])) hs ?_ ?_ hreads.height_eq hreads.height_le
      · exact (congrArg (l :: ·) (hts.trans (congrArg (ws ++ ·) hrest))).trans (by simp)
      · simpa [hl, hc] using Derivation.parens (hder.loosen (expr_strength_le n))
    next hl =>
      split at h
      next =>
        cases h' : inner 0 [] with
        | error e => rw [h'] at h; cases h
        | ok t' => exact absurd t'.shorter (Nat.not_lt_zero _)
      next u rest' =>
        split at h
        next hu =>
          cases h
          exact .primary [l, u] hs rfl (by simpa [hl, hu] using .emptyArray) rfl
            one_le_maxExprDepth
        next =>
          obtain ⟨items, hitems, h⟩ := ok_of_bind h
          obtain ⟨tree, htree, h⟩ := ok_of_bind h
          cases h
          obtain ⟨d, rfl, hread⟩ := arrayItems_sound hinner hitems
          obtain ⟨hexpr, heq, hle⟩ := arrayTree_eq_ok htree hread.heights
          obtain ⟨ws, first, e, items', trailing, hts, hws, hfirst, hfurther, hcomma, htrees⟩ :=
            hread.derived
          refine .primary (l :: ws) hs (congrArg (l :: ·) hts) ?_ heq hle
          rw [hexpr, htrees, List.map_cons, hws, hl]
          exact .array hfirst hfurther hcomma
    next hl => exact unaryTree_sound hinner hs hl (by decide) h
    next hl => exact unaryTree_sound hinner hs hl (by decide) h
    next => cases h

/-! ## Operators -/

/-- The tree so far may stand on the left of an operator of the stratum `m` that pulls at it. -/
theorem Reads.left {d s : Nat} {ts rest : List Lexeme} {tree : Tree} {l : Lexeme}
    (h : Reads d s ts tree (l :: rest)) {m : Nonterminal} (hpull : m.strength ∈ pull? l.token) :
    ∃ ws, ts = ws ++ l :: rest ∧ Derivation m d (ws.map Lexeme.token) tree.expr := by
  obtain ⟨ws, n, hts, -, hstops, hder⟩ := h.derived
  have hmn := stops_cons.mp hstops _ hpull
  have hhold := hold_le n
  exact ⟨ws, hts, hder.loosen (by omega)⟩

/-- The tree so far may be the condition of a `?` that pulls at it. -/
theorem Reads.condition {d s : Nat} {ts rest : List Lexeme} {tree : Tree} {l : Lexeme}
    (h : Reads d s ts tree (l :: rest)) (hl : l.token = .punct .question) :
    ∃ ws, ts = ws ++ l :: rest ∧ Derivation .coalesce d (ws.map Lexeme.token) tree.expr := by
  obtain ⟨ws, n, hts, -, hstops, hder⟩ := h.derived
  have hn : conditionalStrength < n.hold := by
    apply stops_cons.mp hstops
    rw [hl]
    rfl
  refine ⟨ws, hts, hder.loosen ?_⟩
  revert hn
  cases n <;> decide

/-- If the parser finds nothing to go on with, then what follows does not pull hard enough. -/
theorem continuation_none {inner : Nat → TreeReader} {s : Nat} {lhs : Tree} {ts : List Lexeme}
    (h : continuation inner s lhs ts = .ok none) : Stops s ts := by
  cases ts with
  | nil => exact stops_nil s
  | cons l rest =>
    rw [stops_cons]
    simp only [continuation] at h
    split at h
    next =>
      split at h
      · cases h
      · split at h
        · obtain ⟨_, _, h⟩ := ok_of_bind h
          cases h
        · cases h
    next =>
      obtain ⟨_, _, h⟩ := ok_of_bind h
      obtain ⟨_, _, h⟩ := ok_of_bind h
      obtain ⟨_, _, h⟩ := ok_of_bind h
      cases h
    next => cases h
    next hl =>
      split at h
      next hlt => simpa [hl, pull?] using hlt
      next =>
        obtain ⟨_, _, h⟩ := ok_of_bind h
        obtain ⟨_, _, h⟩ := ok_of_bind h
        obtain ⟨_, _, h⟩ := ok_of_bind h
        obtain ⟨_, _, h⟩ := ok_of_bind h
        cases h
    next p h₁ h₂ h₃ h₄ hl =>
      have hpull : pull? l.token = p.middle?.map Prod.snd := by
        rw [hl]
        cases p <;> simp_all [pull?]
      split at h
      next hm => simp [hpull, hm]
      next op strength hm =>
        split at h
        next hlt => simpa [hpull, hm] using hlt
        next =>
          obtain ⟨_, _, h⟩ := ok_of_bind h
          obtain ⟨_, _, h⟩ := ok_of_bind h
          cases h
    next h₁ =>
      cases htoken : l.token with
      | punct p => exact absurd htoken (h₁ p)
      | _ => simp [pull?]

/-- The words so far with more words behind them, as what an operator makes of them. -/
theorem Reads.grow {d s : Nat} {ts ws : List Lexeme} (more : List Lexeme) {rest : List Lexeme}
    {n : Nonterminal} {tree : Tree}
    (hts : ts = ws ++ (more ++ rest)) (hs : s ≤ n.strength) (hstops : Stops n.hold rest)
    (hder : Derivation n d (ws.map Lexeme.token ++ more.map Lexeme.token) tree.expr)
    (heq : tree.height = tree.expr.height) (hle : tree.height ≤ maxExprDepth) :
    Reads d s ts tree rest :=
  ⟨⟨ws ++ more, n, by rw [hts, List.append_assoc], hs, hstops, by rwa [List.map_append]⟩, heq, hle⟩

/-- A property of the tree so far: a dot and a name make the tree a member of what was read. -/
theorem Reads.member {d s height : Nat} {ts rest : List Lexeme} {tree : Tree} {l u : Lexeme}
    {name : String} (h : Reads d s ts tree (l :: u :: rest)) (hs : s ≤ unaryStrength)
    (hl : l.token = .punct .dot) (hu : u.token = .ident name)
    (hheight : nest tree.height = .ok height) :
    Reads d s ts ⟨.member tree.expr name, height⟩ rest := by
  obtain ⟨heq, hle⟩ := nest_eq_ok hheight
  obtain ⟨ws, hts, hder⟩ := h.left (m := .access) (by rw [hl]; rfl)
  refine .grow (n := .access) [l, u] hts (Nat.le_trans hs (by decide))
    (stops_of_lt (by decide) _) ?_ (by rw [heq, h.height_eq]; rfl) hle
  simpa [hl, hu] using Derivation.member hder

/-- An item of the tree so far, by a key that is read as an expression of its own one level further
in. -/
theorem Reads.index {d s height : Nat} {ts rest rest' : List Lexeme} {tree key : Tree}
    {l c : Lexeme} (h : Reads (d + 1) s ts tree (l :: rest)) (hs : s ≤ unaryStrength)
    (hl : l.token = .punct .openBracket) (hkey : Reads d 0 rest key (c :: rest'))
    (hc : c.token = .punct .closeBracket)
    (hheight : nest (max tree.height key.height) = .ok height) :
    Reads (d + 1) s ts ⟨.index tree.expr key.expr, height⟩ rest' := by
  obtain ⟨heq, hle⟩ := nest_eq_ok hheight
  obtain ⟨ks, n, hks, -, -, hkder⟩ := hkey.derived
  obtain ⟨ws, hts, hder⟩ := h.left (m := .access) (by rw [hl]; rfl)
  have hmore : ts = ws ++ ((l :: (ks ++ [c])) ++ rest') := by
    rw [hts, hks]
    simp
  refine .grow (n := .access) _ hmore (Nat.le_trans hs (by decide)) (stops_of_lt (by decide) _)
    ?_ (by rw [heq, h.height_eq, hkey.height_eq]; rfl) hle
  simpa [hl, hc] using hder.index (hkder.loosen (expr_strength_le n))

/-- A conditional whose condition is the tree so far. Its branches are read one level further in, the
second one as far as conditionals reach. -/
theorem Reads.conditional {d s height : Nat} {ts rest rest' rest'' : List Lexeme}
    {tree yes no : Tree} {l c : Lexeme} (h : Reads (d + 1) s ts tree (l :: rest))
    (hs : s ≤ conditionalStrength) (hl : l.token = .punct .question)
    (hyes : Reads d 0 rest yes (c :: rest')) (hc : c.token = .punct .colon)
    (hno : Reads d conditionalStrength rest' no rest'') (hstops : Stops conditionalStrength rest'')
    (hheight : nest (max (max tree.height yes.height) no.height) = .ok height) :
    Reads (d + 1) s ts ⟨.conditional tree.expr yes.expr no.expr, height⟩ rest'' := by
  obtain ⟨heq, hle⟩ := nest_eq_ok hheight
  obtain ⟨ys, n, hys, -, -, hyder⟩ := hyes.derived
  obtain ⟨ns, m, hns, -, -, hnder⟩ := hno.derived
  obtain ⟨ws, hts, hder⟩ := h.condition hl
  have hmore : ts = ws ++ ((l :: (ys ++ c :: ns)) ++ rest'') := by
    rw [hts, hys, hns]
    simp
  refine .grow (n := .expr) _ hmore hs hstops ?_
    (by rw [heq, h.height_eq, hyes.height_eq, hno.height_eq]; rfl) hle
  simpa [hl, hc] using hder.conditional (hyder.loosen (expr_strength_le n))
    (hnder.loosen (expr_strength_le m))

/-- An operator between two operands makes a tree that is one higher than the higher of them. -/
theorem height_combine (op : MiddleOp) (l r : Expr) :
    (op.combine l r).height = max l.height r.height + 1 := by
  cases op <;> rfl

/-- An operator of the stratum `n` whose left operand is the tree so far. -/
theorem Reads.operator {d s height : Nat} {ts rest rest' : List Lexeme} {tree rhs : Tree}
    {l : Lexeme} {n : Nonterminal} {p : Punct} {op : MiddleOp}
    (h : Reads (d + 1) s ts tree (l :: rest)) (hs : s ≤ n.strength) (hl : l.token = .punct p)
    (hp : (p, op) ∈ n.operators) (hrhs : Reads d (n.strength + 1) rest rhs rest')
    (hstops : Stops (n.strength + 1) rest')
    (hheight : nest (max tree.height rhs.height) = .ok height) :
    Reads (d + 1) s ts ⟨op.combine tree.expr rhs.expr, height⟩ rest' := by
  obtain ⟨heq, hle⟩ := nest_eq_ok hheight
  obtain ⟨rs, m, hrs, hm, -, hrder⟩ := hrhs.derived
  have hpull : pull? l.token = some n.strength := by
    rw [hl, pull?_of_middle (mem_operators_iff.mp hp)]
  obtain ⟨ws, hts, hder⟩ := h.left (m := n) hpull
  have hmore : ts = ws ++ ((l :: rs) ++ rest') := by
    rw [hts, hrs]
    simp
  refine .grow (n := n) _ hmore hs (by rwa [hold_of_mem_operators hp]) ?_
    (by rw [heq, h.height_eq, hrhs.height_eq, height_combine]) hle
  simpa [hl] using Derivation.operator hp hder (hrder.loosen (strength_tighter_le hm))

/-- Every step of the loop over the operators keeps the invariant. -/
theorem continuation_sound {inner : Nat → TreeReader} {d s : Nat} (hinner : Sound inner d)
    (hs : s ≤ unaryStrength) {ts rest : List Lexeme} {lhs : Tree} {t : Taken Tree rest}
    (hreads : Reads d s ts lhs rest) (h : continuation inner s lhs rest = .ok (some t)) :
    Reads d s ts t.value t.rest := by
  cases rest with
  | nil => cases h
  | cons l rest =>
    -- one case for each kind of token that can go on with an operand: a dot, a bracket, a
    -- question mark, an operator
    simp only [continuation] at h
    split at h
    next hl =>
      split at h
      next => cases h
      next u rest' =>
        split at h
        next name hu =>
          obtain ⟨height, hheight, h⟩ := ok_of_bind h
          cases h
          exact hreads.member hs hl hu hheight
        next => cases h
    next hl =>
      obtain ⟨key, hkey, h⟩ := ok_of_bind h
      obtain ⟨close, hclose, h⟩ := ok_of_bind h
      obtain ⟨height, hheight, h⟩ := ok_of_bind h
      cases h
      obtain ⟨d, rfl, hkeyReads, -⟩ := hinner (Nat.zero_le _) hkey
      obtain ⟨c, hc, hrest⟩ := expect_eq_ok hclose
      exact hreads.index hs hl (by rwa [← hrest]) hc hheight
    next => cases h
    next hl =>
      split at h
      next => cases h
      next hle =>
        obtain ⟨yes, hyes, h⟩ := ok_of_bind h
        obtain ⟨colon, hcolon, h⟩ := ok_of_bind h
        obtain ⟨no, hno, h⟩ := ok_of_bind h
        obtain ⟨height, hheight, h⟩ := ok_of_bind h
        cases h
        obtain ⟨d, rfl, hyesReads, -⟩ := hinner (Nat.zero_le _) hyes
        obtain ⟨d', hd, hnoReads, hnoStops⟩ := hinner (by decide) hno
        obtain rfl : d = d' := by omega
        obtain ⟨c, hc, hrest⟩ := expect_eq_ok hcolon
        exact hreads.conditional (Nat.not_lt.mp hle) hl (by rwa [← hrest]) hc hnoReads hnoStops
          hheight
    next p _ _ _ _ hl =>
      split at h
      next => cases h
      next op strength hm =>
        split at h
        next => cases h
        next hle =>
          obtain ⟨rhs, hrhs, h⟩ := ok_of_bind h
          obtain ⟨height, hheight, h⟩ := ok_of_bind h
          cases h
          obtain ⟨n, hp, rfl⟩ := exists_mem_operators hm
          obtain ⟨d, rfl, hrhsReads, hrhsStops⟩ := hinner (strength_lt_unary hp) hrhs
          exact hreads.operator (Nat.not_lt.mp hle) hl hp hrhsReads hrhsStops hheight
    next => cases h

/-- The loop ends where nothing pulls at the tree hard enough. -/
theorem operators_sound {inner : Nat → TreeReader} {d s : Nat} (hinner : Sound inner d)
    (hs : s ≤ unaryStrength) {ts : List Lexeme} {lhs t : Taken Tree ts}
    (hreads : Reads d s ts lhs.value lhs.rest) (h : operators inner s lhs = .ok t) :
    Reads d s ts t.value t.rest ∧ Stops s t.rest := by
  induction hk : lhs.rest.length using Nat.strong_induction_on generalizing lhs with
  | _ k ih =>
    subst hk
    unfold operators at h
    split at h
    next => cases h
    next hc =>
      cases h
      exact ⟨hreads, continuation_none hc⟩
    next next hc =>
      have hnext : Reads d s ts next.value next.rest := continuation_sound hinner hs hreads hc
      refine ih next.rest.length next.shorter ?_ h rfl
      exact hnext

/-- What is read `levels` readers deep is derived, with its height, and the reader stops where
nothing goes on at its strength. -/
theorem exprAt_sound (levels : Nat) : Sound (exprAt levels) levels := by
  induction levels with
  | zero =>
    intro s ts t _ h
    cases h
  | succ levels ih =>
    intro s ts t hs h
    obtain ⟨lhs, hlhs, h⟩ := ok_of_bind h
    exact ⟨levels, rfl, operators_sound ih hs (operand_sound ih hs hlhs) h⟩

/-- All tokens read with so many levels derive the tree, with one level less to nest in. -/
theorem derivation_of_exprAt {levels : Nat} {ts : List Lexeme} {tree : Taken Tree ts}
    (h : exprAt levels 0 ts = .ok tree) (hrest : tree.rest = []) :
    ∃ d, levels = d + 1 ∧ Derivation .expr d (ts.map Lexeme.token) tree.value.expr ∧
      tree.value.expr.height ≤ maxExprDepth := by
  obtain ⟨d, rfl, hreads, -⟩ := exprAt_sound levels (Nat.zero_le _) h
  obtain ⟨ws, n, hts, -, -, hder⟩ := hreads.derived
  obtain rfl : ts = ws := hts.trans (by rw [hrest, List.append_nil])
  exact ⟨d, rfl, hder.loosen (expr_strength_le n), hreads.height_eq ▸ hreads.height_le⟩

/-- An accepted token list is one that the outermost reader takes whole. -/
theorem ofTokens_eq_ok {ts : List Lexeme} {e : Expr} (h : Expr.ofTokens ts = .ok e) :
    ∃ tree : Taken Tree ts, exprAt maxExprDepth 0 ts = .ok tree ∧ tree.rest = [] ∧
      tree.value.expr = e := by
  unfold Expr.ofTokens at h
  split at h
  next => cases h
  next =>
    obtain ⟨tree, htree, h⟩ := ok_of_bind h
    split at h
    next hrest => exact ⟨tree, htree, hrest, Except.ok.inj h⟩
    next => cases h

/-- A whole token list that is an expression derives it, in so many levels and no higher tree. -/
theorem ofTokens_sound {ts : List Lexeme} {e : Expr} (h : Expr.ofTokens ts = .ok e) :
    Derivation .expr (maxExprDepth - 1) (ts.map Lexeme.token) e ∧ e.height ≤ maxExprDepth := by
  obtain ⟨tree, htree, hrest, rfl⟩ := ofTokens_eq_ok h
  obtain ⟨d, hd, hder, hheight⟩ := derivation_of_exprAt htree hrest
  obtain rfl : d = maxExprDepth - 1 := by omega
  exact ⟨hder, hheight⟩

end AppletHost.Grammar
