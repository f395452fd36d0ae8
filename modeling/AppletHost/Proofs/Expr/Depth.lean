import AppletHost.Proofs.Expr.Completeness

/-!
# How deep the parser goes

The parser has its limit on nested readers as a number that every reader hands on, one less. Here the
same parser keeps one counter instead: a reader counts itself in, reads, and counts itself out again,
whatever came of it (`guarded`). The counter also remembers the most that it was.

The two are the same parser, and `Gauges` is the reason: for a computation that counts, and the same one
with a number of levels, it says that they answer alike, that the counter is back where it was, that it
never exceeds the limit, and that what succeeds needs a certain number of levels, neither more nor
fewer, which is what the counter rose by at most. All of it is closed under sequence, so each reader is
gauged as soon as the readers that it calls are.

The trees carry their height along, and it is right wherever a reader returns (`Tree.Exact`). Chains of
operators grow a tree without nesting readers, and parentheses nest readers without growing a tree, so
neither limit follows from the other.

> `depth_limits`: an accepted tree is no higher than the limit; at every return the carried height is
> right, the counter is back, and it was within the limit; and what derives a tree within both limits is
> accepted, with as many readers at once as the shallowest derivation nests.
-/

namespace AppletHost

open Text (Taken)

/-- The tree knows its height, and is not too high. -/
def Tree.Exact (t : Tree) : Prop := t.height = t.expr.height ∧ t.height ≤ maxExprDepth

namespace Grammar

/-! ## A counter of active readers -/

/-- How many readers are active, and how many were at most. -/
structure Gauge where
  active : Nat
  peak : Nat
  active_le : active ≤ peak

namespace Gauge

/-- Before the first reader. -/
def idle : Gauge := ⟨0, 0, Nat.le_refl 0⟩

/-- One more reader is active. -/
def enter (g : Gauge) : Gauge := ⟨g.active + 1, max g.peak (g.active + 1), Nat.le_max_right _ _⟩

/-- One reader is done. -/
def leave (g : Gauge) : Gauge := ⟨g.active - 1, g.peak, Nat.le_trans (Nat.sub_le _ _) g.active_le⟩

end Gauge

/-- A computation that counts its readers. -/
abbrev Counted (α : Type) := ExceptT ExprError (StateM Gauge) α

/-- Runs a reader unless as many as may be are active already. It is counted out again on errors too. -/
def guarded {α : Type} (body : Counted α) : Counted α := fun g =>
  if maxExprDepth ≤ g.active then (.error .tooDeep, g)
  else ((body g.enter).1, (body g.enter).2.leave)

/-- A reader for token lists shorter than `n`. -/
abbrev ShorterReader (n : Nat) :=
  (strength : Nat) → (ts : List Lexeme) → ts.length < n → Counted (Taken Tree ts)

variable {n : Nat}

/-! ### Shorter rests -/

section Rests

variable {α β γ : Type} {rest ts : List Lexeme}

/-- What is left behind a lexeme is shorter, which is what makes each reading below end. -/
theorem lt_cons (t : Lexeme) (rest : List Lexeme) : rest.length < (t :: rest).length :=
  Nat.lt_succ_self _

theorem lt_cons_cons (t u : Lexeme) (rest : List Lexeme) : rest.length < (t :: u :: rest).length :=
  Nat.lt_succ_of_lt (Nat.lt_succ_self _)

theorem tail_lt (h : rest.length < ts.length) : rest.tail.length < ts.length := by
  rw [List.length_tail]
  omega

theorem tail_lt_cons (t : Lexeme) (rest : List Lexeme) : rest.tail.length < (t :: rest).length :=
  tail_lt (lt_cons t rest)

/-- What is left behind an item is shorter than what the item was read from. -/
theorem rest_lt (item : Taken α ts) {t : Lexeme} (h : item.rest = t :: rest) :
    rest.length < ts.length :=
  Nat.lt_of_succ_lt (by have := item.shorter; rwa [h] at this)

/-- What is left behind a lexeme and one reading; the readings that follow one another below need two
and three of them. -/
theorem lt_one (t : Lexeme) (a : Taken α rest) : a.rest.length < (t :: rest).length :=
  Nat.lt_succ_of_lt a.shorter

theorem lt_two (t : Lexeme) (a : Taken α rest) (b : Taken β a.rest) :
    b.rest.length < (t :: rest).length :=
  Nat.lt_trans b.shorter (lt_one t a)

theorem lt_three (t : Lexeme) (a : Taken α rest) (b : Taken β a.rest) (c : Taken γ b.rest) :
    c.rest.length < (t :: rest).length :=
  Nat.lt_trans c.shorter (lt_two t a b)

/-- The same against a bound that the lexemes keep, as the counted readers carry it along. -/
theorem lt_bound {t : Lexeme} (h : (t :: rest).length ≤ n) (a : Taken α rest) (b : Taken β a.rest) :
    b.rest.length < n :=
  Nat.lt_of_lt_of_le (lt_two t a b) h

end Rests

/-! ### Readers -/

/-- What follows an item of an array literal: the `]`, or a comma and, unless that is the last one, the
items that `further` reads. -/
def itemsAfter {m : Type → Type} [Monad m] [MonadExceptOf ExprError m] {ts : List Lexeme}
    (further : (us : List Lexeme) → us.length < ts.length → m (Taken (List Tree) us))
    (item : Taken Tree ts) : m (Taken (List Tree) ts) :=
  match h : item.rest with
  | [] => throw .unexpectedEnd
  | t :: rest =>
    have hlt := rest_lt item h
    if t.token = .punct .closeBracket then pure ⟨[item.value], rest, hlt⟩
    else if t.token ≠ .punct .comma then throw t.unexpected
    else if rest.head?.map Lexeme.token = some (.punct .closeBracket) then
      pure ⟨[item.value], rest.tail, tail_lt hlt⟩
    else do
      let items ← further rest hlt
      pure ((items.map (item.value :: ·)).within (Nat.le_of_lt hlt))

/-- The items of an array literal after `[`, as `arrayItems` reads them. -/
def countedItems (inner : ShorterReader n) (ts : List Lexeme) (h : ts.length < n) :
    Counted (Taken (List Tree) ts) := do
  let item ← inner 0 ts h
  itemsAfter (fun us hus => countedItems inner us (Nat.lt_trans hus h)) item
termination_by ts.length

/-- The tree of an operator before its operand. -/
def countedUnary (inner : ShorterReader n) (op : UnaryOp) {t : Lexeme} (rest : List Lexeme)
    (h : (t :: rest).length ≤ n) : Counted (Taken Tree (t :: rest)) := do
  let tree ← inner unaryStrength rest h
  let height ← liftM (nest tree.value.height)
  pure ⟨⟨.unary op tree.value.expr, height⟩, tree.rest, lt_one t tree⟩

/-- An operand, as `operand` reads it. -/
def countedOperand (inner : ShorterReader n) :
    (ts : List Lexeme) → ts.length ≤ n → Counted (Taken Tree ts)
  | [], _ => throw .unexpectedEnd
  | t :: rest, h =>
    match t.token with
    | .num x => pure ⟨⟨.literal ((Value.ofNumber? x).getD .null), 1⟩, rest, lt_cons t rest⟩
    | .str s => pure ⟨⟨.literal (.str s), 1⟩, rest, lt_cons t rest⟩
    | .ident name => pure ⟨⟨nameExpr name, 1⟩, rest, lt_cons t rest⟩
    | .punct p =>
      if p = .openParen then do
        let tree ← inner 0 rest h
        let close ← liftM (expect .closeParen tree.rest)
        pure ⟨tree.value, close.rest, lt_two t tree close⟩
      else if p = .openBracket then
        if rest.head?.map Lexeme.token = some (.punct .closeBracket) then
          pure ⟨⟨.array [], 1⟩, rest.tail, tail_lt_cons t rest⟩
        else do
          let items ← countedItems inner rest h
          let tree ← liftM (arrayTree items.value)
          pure ⟨tree, items.rest, lt_one t items⟩
      else if p = .bang then countedUnary inner .not rest h
      else if p = .minus then countedUnary inner .neg rest h
      else throw t.unexpected

/-- A property of `lhs`, by the name behind the dot. -/
def countedMember (lhs : Tree) {t : Lexeme} :
    (rest : List Lexeme) → Counted (Option (Taken Tree (t :: rest)))
  | [] => throw .unexpectedEnd
  | u :: rest =>
    match u.token with
    | .ident name => do
      let height ← liftM (nest lhs.height)
      pure (some ⟨⟨.member lhs.expr name, height⟩, rest, lt_cons_cons t u rest⟩)
    | .num _ => throw u.unexpected
    | .str _ => throw u.unexpected
    | .punct _ => throw u.unexpected

/-- The tree of an operator between `lhs` and the operand behind it. -/
def countedMiddle (inner : ShorterReader n) (lhs : Tree) (op : MiddleOp) (opStrength : Nat)
    {t : Lexeme} (rest : List Lexeme) (h : (t :: rest).length ≤ n) :
    Counted (Option (Taken Tree (t :: rest))) := do
  let rhs ← inner (opStrength + 1) rest h
  let height ← liftM (nest (max lhs.height rhs.value.height))
  pure (some ⟨⟨op.combine lhs.expr rhs.value.expr, height⟩, rhs.rest, lt_one t rhs⟩)

/-- The tree that the next operator makes of `lhs`, as `continuation` does. -/
def countedContinuation (inner : ShorterReader n) (strength : Nat) (lhs : Tree) :
    (ts : List Lexeme) → ts.length ≤ n → Counted (Option (Taken Tree ts))
  | [], _ => pure none
  | t :: rest, h =>
    match t.token with
    | .num _ => pure none
    | .str _ => pure none
    | .ident _ => pure none
    | .punct p =>
      if p = .dot then countedMember lhs rest
      else if p = .openBracket then do
        let key ← inner 0 rest h
        let close ← liftM (expect .closeBracket key.rest)
        let height ← liftM (nest (max lhs.height key.value.height))
        pure (some ⟨⟨.index lhs.expr key.value.expr, height⟩, close.rest, lt_two t key close⟩)
      else if p = .openParen then throw (.callNotAllowed t.offset)
      else if p = .question then
        if conditionalStrength < strength then pure none
        else do
          let yes ← inner 0 rest h
          let colon ← liftM (expect .colon yes.rest)
          let no ← inner conditionalStrength colon.rest (lt_bound h yes colon)
          let height ← liftM (nest (max (max lhs.height yes.value.height) no.value.height))
          pure (some ⟨⟨.conditional lhs.expr yes.value.expr no.value.expr, height⟩, no.rest,
            lt_three t yes colon no⟩)
      else match p.middle? with
        | none => pure none
        | some (op, opStrength) =>
          if opStrength < strength then pure none
          else countedMiddle inner lhs op opStrength rest h

/-- The loop over the operators, as `operators` runs it. -/
def countedOperators (inner : ShorterReader n) (strength : Nat) {ts : List Lexeme}
    (h : ts.length ≤ n) (lhs : Taken Tree ts) : Counted (Taken Tree ts) := do
  match ← countedContinuation inner strength lhs.value lhs.rest
      (Nat.le_trans (Nat.le_of_lt lhs.shorter) h) with
  | none => pure lhs
  | some next =>
    have := next.shorter
    countedOperators inner strength h (next.within (Nat.le_of_lt lhs.shorter))
termination_by lhs.rest.length

/-- An expression, by readers that count themselves. -/
def countedExpr (strength : Nat) (ts : List Lexeme) : Counted (Taken Tree ts) :=
  guarded do
    let inner : ShorterReader ts.length := fun s us _ => countedExpr s us
    let lhs ← countedOperand inner ts (Nat.le_refl _)
    countedOperators inner strength (Nat.le_refl _) lhs
termination_by ts.length

/-! ## Counting against levels -/

/-- The counting `c` and the same with levels, `r`, are one computation: they answer alike, the counter
is back at the end and stays within the limit. What succeeds has the property `P`, and needs so many
levels. -/
structure Gauges {α : Type} (c : Counted α) (r : Nat → Except ExprError α) (P : α → Prop) : Prop where
  answer : ∀ g, (c g).1 = r (maxExprDepth - g.active)
  active : ∀ g, (c g).2.active = g.active
  peak_le : ∀ g, (c g).2.peak ≤ max g.peak maxExprDepth
  needs : ∀ g v, (c g).1 = .ok v → ∃ k, (c g).2.peak = max g.peak (g.active + k) ∧
    ∀ levels, r levels = if k ≤ levels then .ok v else .error .tooDeep
  holds : ∀ levels v, r levels = .ok v → P v

/-- Two computations that count, one after the other: the second starts with the gauge that the first
has left, or not at all. -/
theorem Counted.bind_apply {α β : Type} (c : Counted α) (f : α → Counted β) (g : Gauge) :
    (c >>= f) g = match (c g).1 with
      | .ok v => f v (c g).2
      | .error e => (.error e, (c g).2) := by
  show (ExceptT.bindCont f (c g).1 : StateM Gauge (Except ExprError β)) (c g).2 = _
  cases (c g).1 <;> rfl

namespace Gauges

variable {α β : Type} {P : α → Prop} {Q : β → Prop}

/-- A computation measures another reader as well if the two agree at every depth that is left. -/
theorem congr {c : Counted α} {r r' : Nat → Except ExprError α} (h : Gauges c r P)
    (heq : ∀ levels, r' levels = r levels) : Gauges c r' P :=
  (funext heq : r' = r) ▸ h

/-- What calls no reader needs no level, and gives the same answer however many are left. -/
theorem lift {x : Except ExprError α} (h : ∀ v, x = .ok v → P v) :
    Gauges (liftM x) (fun _ => x) P := by
  cases x with
  | error e => exact ⟨fun _ => rfl, fun _ => rfl, fun g => Nat.le_max_left _ _, nofun, nofun⟩
  | ok v =>
    refine ⟨fun _ => rfl, fun _ => rfl, fun g => Nat.le_max_left _ _, fun g w hw => ?_, fun _ => h⟩
    cases hw
    exact ⟨0, (Nat.max_eq_left g.active_le).symm, fun _ => rfl⟩

/-- A value that is there without reading costs nothing. -/
theorem pure {v : α} (h : P v) : Gauges (Pure.pure v) (fun _ => .ok v) P :=
  lift (x := .ok v) fun w hw => by cases hw; exact h

theorem refuse (e : ExprError) : Gauges (throw e) (fun _ => .error e) P :=
  lift (x := .error e) nofun

/-- What is said of a result holds of every one that comes out, whatever the gauge stood at. -/
theorem holds_of_ok {c : Counted α} {r : Nat → Except ExprError α} (h : Gauges c r P) {g : Gauge}
    {v : α} (hv : (c g).1 = .ok v) : P v :=
  h.holds _ v ((h.answer g).symm.trans hv)

/-- One after the other they need as many levels as the one that needs more. -/
theorem bind {c : Counted α} {f : α → Counted β} {r : Nat → Except ExprError α}
    {r' : α → Nat → Except ExprError β} (hc : Gauges c r P)
    (hf : ∀ v, P v → Gauges (f v) (r' v) Q) :
    Gauges (c >>= f) (fun levels => r levels >>= fun v => r' v levels) Q := by
  have hfailed : ∀ {g e}, (c g).1 = .error e → (c >>= f) g = (.error e, (c g).2) := by
    intro g e h
    rw [Counted.bind_apply, h]
  have hdone : ∀ {g v}, (c g).1 = .ok v → (c >>= f) g = f v (c g).2 := by
    intro g v h
    rw [Counted.bind_apply, h]
  constructor
  case answer =>
    intro g
    rw [← hc.answer g]
    cases h : (c g).1 with
    | error e => rw [hfailed h]; rfl
    | ok v =>
      rw [hdone h, (hf v (hc.holds_of_ok h)).answer, hc.active]
      rfl
  case active =>
    intro g
    cases h : (c g).1 with
    | error e => rw [hfailed h]; exact hc.active g
    | ok v => rw [hdone h, (hf v (hc.holds_of_ok h)).active, hc.active]
  case peak_le =>
    intro g
    have hpeak := hc.peak_le g
    cases h : (c g).1 with
    | error e => rw [hfailed h]; exact hpeak
    | ok v =>
      rw [hdone h]
      have hnext := (hf v (hc.holds_of_ok h)).peak_le (c g).2
      omega
  case needs =>
    intro g w hw
    cases h : (c g).1 with
    | error e => rw [hfailed h] at hw; cases hw
    | ok v =>
      rw [hdone h] at hw ⊢
      -- both parts are read at the same depth, so what they need together is the greater need
      obtain ⟨k, hk, hlevels⟩ := hc.needs g v h
      obtain ⟨k', hk', hlevels'⟩ := (hf v (hc.holds_of_ok h)).needs _ w hw
      refine ⟨max k k', ?_, fun levels => ?_⟩
      · rw [hk', hk, hc.active]
        omega
      · rw [hlevels]
        by_cases hle : k ≤ levels
        · rw [if_pos hle]
          show r' v levels = _
          rw [hlevels']
          congr 1
          exact propext ⟨fun h => Nat.max_le.2 ⟨hle, h⟩, fun h => (Nat.max_le.1 h).2⟩
        · rw [if_neg hle, if_neg fun h => hle (Nat.max_le.1 h).1]
          rfl
  case holds =>
    intro levels w hw
    obtain ⟨v, hv, hw⟩ := ok_of_bind hw
    exact (hf v (hc.holds levels v hv)).holds levels w hw

/-- A guarded reader needs one level more, and has none of its own where none is left. -/
theorem guarded {c : Counted α} {r r' : Nat → Except ExprError α} (h : Gauges c r P)
    (hzero : r' 0 = .error .tooDeep) (hsucc : ∀ levels, r' (levels + 1) = r levels) :
    Gauges (guarded c) r' P := by
  -- a reader at the limit is refused, which is what a reader without levels left is
  have hfull : ∀ {g : Gauge}, maxExprDepth ≤ g.active →
      Grammar.guarded c g = (.error .tooDeep, g) := fun hle => if_pos hle
  have hfree : ∀ {g : Gauge}, ¬ maxExprDepth ≤ g.active →
      Grammar.guarded c g = ((c g.enter).1, (c g.enter).2.leave) := fun hlt => if_neg hlt
  constructor
  case answer =>
    intro g
    by_cases hle : maxExprDepth ≤ g.active
    · rw [hfull hle, Nat.sub_eq_zero_of_le hle, hzero]
    · obtain ⟨left, hleft⟩ : ∃ left, maxExprDepth - g.active = left + 1 :=
        ⟨maxExprDepth - g.active - 1, by omega⟩
      rw [hfree hle, hleft, hsucc, h.answer]
      congr 1
      simp only [Gauge.enter]
      omega
  case active =>
    intro g
    by_cases hle : maxExprDepth ≤ g.active
    · rw [hfull hle]
    · rw [hfree hle]
      show (c g.enter).2.active - 1 = g.active
      rw [h.active]
      rfl
  case peak_le =>
    intro g
    by_cases hle : maxExprDepth ≤ g.active
    · rw [hfull hle]
      exact Nat.le_max_left _ _
    · rw [hfree hle]
      have hpeak := h.peak_le g.enter
      simp only [Gauge.enter, Gauge.leave] at hpeak ⊢
      omega
  case needs =>
    intro g v hv
    by_cases hle : maxExprDepth ≤ g.active
    · rw [hfull hle] at hv
      cases hv
    · rw [hfree hle] at hv ⊢
      obtain ⟨k, hk, hlevels⟩ := h.needs g.enter v hv
      refine ⟨k + 1, ?_, fun levels => ?_⟩
      · simp only [Gauge.enter, Gauge.leave] at hk ⊢
        omega
      · cases levels with
        | zero => rw [hzero, if_neg (Nat.not_succ_le_zero k)]
        | succ levels =>
          rw [hsucc, hlevels]
          simp only [Nat.add_le_add_iff_right]
  case holds =>
    intro levels v hv
    cases levels with
    | zero => rw [hzero] at hv; cases hv
    | succ levels => exact h.holds levels v (hsucc levels ▸ hv)

end Gauges

/-! ## Every reader -/

/-- The height of a node is checked against the limit of trees and not against the depth of readers,
so no level is used up. -/
theorem gauges_nest (child : Nat) : Gauges (liftM (nest child)) (fun _ => nest child)
    (fun height => height = child + 1 ∧ height ≤ maxExprDepth) :=
  .lift fun _ => nest_eq_ok

/-- A lexeme that is expected is there or not, at every depth alike. -/
theorem gauges_expect (p : Punct) (ts : List Lexeme) :
    Gauges (liftM (expect p ts)) (fun _ => expect p ts) (fun _ => True) :=
  .lift fun _ _ => trivial

/-- The items of an array are one, and what comes after it; that is how the counted reader takes them,
too. -/
theorem arrayItems_eq (inner : TreeReader) (ts : List Lexeme) :
    arrayItems inner ts = inner ts >>= itemsAfter fun us _ => arrayItems inner us := by
  rw [arrayItems]
  cases inner ts with
  | error e => rfl
  | ok item =>
    obtain ⟨value, rest, shorter⟩ := item
    rcases rest with _ | ⟨⟨o, token⟩, rest⟩
    · rfl
    · cases token with
      | punct p =>
        cases p
        case comma =>
          rcases rest with _ | ⟨u, rest⟩
          · rfl
          · show (if u.token = .punct .closeBracket then _ else _) =
              (if some u.token = some (.punct .closeBracket) then _ else _)
            simp only [Option.some.injEq]
            rfl
        all_goals rfl
      | _ => rfl

/-- The readers that are called are gauged. -/
def InnerGauges (inner : ShorterReader n) : Prop :=
  ∀ s us h, Gauges (inner s us h) (fun levels => exprAt levels s us) fun t => t.value.Exact

variable {inner : ShorterReader n}

/-- If the first item is measured, and so are the items further on, the row of both is. -/
theorem gauges_itemsAfter {ts : List Lexeme} {item : Taken Tree ts} (hitem : item.value.Exact)
    {further : (us : List Lexeme) → us.length < ts.length → Counted (Taken (List Tree) us)}
    {further' : Nat → (us : List Lexeme) → Except ExprError (Taken (List Tree) us)}
    (hfurther : ∀ us h, Gauges (further us h) (fun levels => further' levels us)
      fun t => ∀ tree ∈ t.value, tree.Exact) :
    Gauges (itemsAfter further item) (fun levels => itemsAfter (fun us _ => further' levels us) item)
      fun t => ∀ tree ∈ t.value, tree.Exact := by
  obtain ⟨value, rest, shorter⟩ := item
  have hone : ∀ tree ∈ [value], tree.Exact := by simpa using hitem
  rcases rest with _ | ⟨⟨o, token⟩, rest⟩
  · exact .refuse _
  · cases token with
    | punct p =>
      cases p
      case closeBracket => exact .pure hone
      case comma =>
        by_cases hlast : rest.head?.map Lexeme.token = some (.punct .closeBracket)
        · simp only [itemsAfter, hlast, if_true]
          exact .pure hone
        · simp only [itemsAfter, hlast, if_false]
          exact .bind (hfurther rest _) fun items hitems =>
            .pure (List.forall_mem_cons.2 ⟨hitem, hitems⟩)
      all_goals exact .refuse _
    | _ => exact .refuse _

/-- Items are read one level further in, and the levels are given back between one item and the
next. -/
theorem gauges_items (hinner : InnerGauges inner) (ts : List Lexeme) (h : ts.length < n) :
    Gauges (countedItems inner ts h) (fun levels => arrayItems (exprAt levels 0) ts)
      fun t => ∀ tree ∈ t.value, tree.Exact := by
  induction hk : ts.length using Nat.strong_induction_on generalizing ts with
  | _ k ih =>
    subst hk
    rw [countedItems]
    refine .congr (.bind (hinner 0 ts h) fun item hitem => gauges_itemsAfter hitem ?_)
      fun levels => arrayItems_eq _ ts
    exact fun us hus => ih us.length hus us _ rfl

/-- The operand of a prefix operator is read one level further in, at the strength of prefix
operators. -/
theorem gauges_unary (hinner : InnerGauges inner) (op : UnaryOp) {t : Lexeme} (rest : List Lexeme)
    (h : (t :: rest).length ≤ n) :
    Gauges (countedUnary (t := t) inner op rest h)
      (fun levels => operand.unaryTree (t := t) (exprAt levels) op rest) fun t => t.value.Exact := by
  refine .bind (hinner _ _ h) fun tree htree => .bind (gauges_nest _) fun height hheight => .pure ?_
  exact ⟨by rw [hheight.1, htree.1]; rfl, hheight.2⟩

/-- An array literal that is not empty, also where nothing follows its `[`. -/
theorem operand_openBracket (inner : Nat → TreeReader) {o : Nat} {rest : List Lexeme}
    (h : rest.head?.map Lexeme.token ≠ some (.punct .closeBracket)) :
    operand inner (⟨o, .punct .openBracket⟩ :: rest) =
      arrayItems (inner 0) rest >>= fun items => arrayTree items.value >>= fun tree =>
        .ok ⟨tree, items.rest, Nat.lt_succ_of_lt items.shorter⟩ := by
  rcases rest with _ | ⟨u, rest⟩
  · -- no item is read from no tokens
    show Except.map _ (inner 0 []) = _
    cases hnone : inner 0 [] with
    | error e => rw [arrayItems_error hnone]; rfl
    | ok t => exact absurd t.shorter (Nat.not_lt_zero _)
  · have hu : u.token ≠ .punct .closeBracket := fun hu => h (congrArg some hu)
    simp only [operand, hu, if_false]

/-- What may stand before an operator: names and literals cost no level, brackets, arrays and prefixes
one for what is in them. -/
theorem gauges_operand (hinner : InnerGauges inner) (ts : List Lexeme) (h : ts.length ≤ n) :
    Gauges (countedOperand inner ts h) (fun levels => operand (exprAt levels) ts)
      fun t => t.value.Exact := by
  rcases ts with _ | ⟨⟨o, token⟩, rest⟩
  · exact .refuse _
  · cases token with
    | num x => exact .pure ⟨rfl, one_le_maxExprDepth⟩
    | str s => exact .pure ⟨rfl, one_le_maxExprDepth⟩
    | ident name => exact .pure ⟨(height_nameExpr name).symm, one_le_maxExprDepth⟩
    | punct p =>
      cases p
      case openParen =>
        exact .bind (hinner 0 rest h) fun tree htree =>
          .bind (gauges_expect _ _) fun close _ => .pure htree
      case openBracket =>
        by_cases hclose : rest.head?.map Lexeme.token = some (.punct .closeBracket)
        · obtain ⟨u, rest, rfl⟩ : ∃ u rest', rest = u :: rest' := by
            cases rest with
            | nil => cases hclose
            | cons u rest => exact ⟨u, rest, rfl⟩
          have hu : u.token = .punct .closeBracket := Option.some.inj hclose
          simp only [countedOperand, operand, hu, hclose, if_true]
          exact .pure ⟨rfl, one_le_maxExprDepth⟩
        · refine .congr ?_ fun levels => operand_openBracket (exprAt levels) hclose
          simp only [countedOperand, hclose, if_false]
          refine .bind (gauges_items hinner _ h) fun items hitems =>
            .bind (P := Tree.Exact) (.lift fun tree htree => ?_) fun tree htree => .pure htree
          exact (arrayTree_eq_ok htree fun t ht => (hitems t ht).1).2
      case bang => exact gauges_unary hinner .not rest h
      case minus => exact gauges_unary hinner .neg rest h
      all_goals exact .refuse _

/-- The tree of a step of the loop is one level higher than the tallest tree under it. -/
theorem exact_of_nest {e : Expr} {child height : Nat}
    (h : height = child + 1 ∧ height ≤ maxExprDepth) (he : e.height = child + 1) :
    Tree.Exact ⟨e, height⟩ :=
  ⟨h.1.trans he.symm, h.2⟩

/-- The right side of an operator between two operands is read one level further in, if the operator
binds here at all. -/
theorem gauges_middle (hinner : InnerGauges inner) (strength : Nat) {lhs : Tree} (hlhs : lhs.Exact)
    (op : MiddleOp) (opStrength : Nat) {t : Lexeme} (rest : List Lexeme)
    (h : (t :: rest).length ≤ n) :
    Gauges (if opStrength < strength then pure none
        else countedMiddle (t := t) inner lhs op opStrength rest h)
      (fun levels => if opStrength < strength then .ok none
        else do
          let rhs ← exprAt levels (opStrength + 1) rest
          let height ← nest (max lhs.height rhs.value.height)
          .ok (some ⟨⟨op.combine lhs.expr rhs.value.expr, height⟩, rhs.rest,
            Nat.lt_succ_of_lt rhs.shorter⟩))
      fun o => ∀ next ∈ o, next.value.Exact := by
  by_cases hlow : opStrength < strength
  · simp only [hlow, if_true]
    exact .pure nofun
  · simp only [hlow, if_false]
    refine .bind (hinner _ rest h) fun rhs hrhs => .bind (gauges_nest _) fun height hheight =>
      .pure ?_
    rintro next ⟨⟩
    exact exact_of_nest hheight (by rw [height_combine, hlhs.1, hrhs.1])

/-- What may follow an operand: an operator and its right side, an access, a condition, or nothing. -/
theorem gauges_continuation (hinner : InnerGauges inner) (strength : Nat) {lhs : Tree}
    (hlhs : lhs.Exact) (ts : List Lexeme) (h : ts.length ≤ n) :
    Gauges (countedContinuation inner strength lhs ts h)
      (fun levels => continuation (exprAt levels) strength lhs ts)
      fun o => ∀ next ∈ o, next.value.Exact := by
  have hsome : ∀ {next : Taken Tree ts}, next.value.Exact →
      ∀ t ∈ some next, t.value.Exact := by
    rintro next hnext _ ⟨⟩
    exact hnext
  have hnone : ∀ t ∈ (none : Option (Taken Tree ts)), t.value.Exact := by simp
  rcases ts with _ | ⟨⟨o, token⟩, rest⟩
  · exact .pure hnone
  · cases token with
    | punct p =>
      cases p
      case dot =>
        rcases rest with _ | ⟨⟨o', token⟩, rest⟩
        · exact .refuse _
        · cases token with
          | ident name =>
            exact .bind (gauges_nest _) fun height hheight =>
              .pure (hsome (exact_of_nest hheight (by rw [hlhs.1]; rfl)))
          | _ => exact .refuse _
      case openBracket =>
        exact .bind (hinner 0 rest h) fun key hkey => .bind (gauges_expect _ _) fun close _ =>
          .bind (gauges_nest _) fun height hheight =>
            .pure (hsome (exact_of_nest hheight (by rw [hlhs.1, hkey.1]; rfl)))
      case openParen => exact .refuse _
      case question =>
        by_cases hlow : conditionalStrength < strength
        · simp only [countedContinuation, continuation, hlow, if_true]
          exact .pure hnone
        · simp only [countedContinuation, continuation, hlow, if_false]
          exact .bind (hinner 0 rest h) fun yes hyes => .bind (gauges_expect _ _) fun colon _ =>
            .bind (hinner _ _ _) fun no hno => .bind (gauges_nest _) fun height hheight =>
              .pure (hsome (exact_of_nest hheight (by rw [hlhs.1, hyes.1, hno.1]; rfl)))
      all_goals
        first
        | exact .pure hnone
        | exact gauges_middle hinner strength hlhs _ _ rest h
    | _ => exact .pure hnone

/-- The operators behind an operand are read in a loop, which gives the levels of each back before it
goes on. -/
theorem gauges_operators (hinner : InnerGauges inner) (strength : Nat) {ts : List Lexeme}
    (h : ts.length ≤ n) (lhs : Taken Tree ts) (hlhs : lhs.value.Exact) :
    Gauges (countedOperators inner strength h lhs)
      (fun levels => operators (exprAt levels) strength lhs) fun t => t.value.Exact := by
  induction hk : lhs.rest.length using Nat.strong_induction_on generalizing lhs with
  | _ k ih =>
    subst hk
    rw [countedOperators]
    refine .congr (r := fun levels =>
        continuation (exprAt levels) strength lhs.value lhs.rest >>= fun o => match o with
          | none => .ok lhs
          | some next => operators (exprAt levels) strength (next.within (Nat.le_of_lt lhs.shorter)))
      (.bind (gauges_continuation hinner strength hlhs _ _) fun o ho => ?_) fun levels => ?_
    · cases o with
      | none => exact .pure hlhs
      | some next => exact ih next.rest.length next.shorter _ (ho next rfl) rfl
    · rw [operators]
      cases continuation (exprAt levels) strength lhs.value lhs.rest with
      | error e => rfl
      | ok o => cases o <;> rfl

/-- The parser that counts is the parser with levels. The induction is on what is left to read, since
every reader that is called reads less. -/
theorem gauges_expr (strength : Nat) (ts : List Lexeme) :
    Gauges (countedExpr strength ts) (fun levels => exprAt levels strength ts)
      fun t => t.value.Exact := by
  induction hk : ts.length using Nat.strong_induction_on generalizing strength ts with
  | _ k ih =>
    subst hk
    rw [countedExpr]
    have hinner : InnerGauges fun s us (_ : us.length < ts.length) => countedExpr s us :=
      fun s us hus => ih us.length hus s us rfl
    refine .guarded (r := fun levels => operand (exprAt levels) ts >>=
      operators (exprAt levels) strength) ?_ rfl fun _ => rfl
    exact .bind (gauges_operand hinner ts _) fun lhs hlhs =>
      gauges_operators hinner strength _ lhs hlhs

/-! ## The limits -/

/-- A tree that derives in so many levels is read with one level more. -/
theorem exprAt_of_derivation {d : Nat} {ts : List Lexeme} {e : Expr}
    (h : Derivation .expr d (ts.map Lexeme.token) e) (hheight : e.height ≤ maxExprDepth) :
    ∃ t, exprAt (d + 1) 0 ts = .ok t := by
  have hgives := (complete_of_derivation h).gives (d + 1) 0 [] rfl (Nat.zero_le _) (Nat.zero_le _)
    (stops_nil _) (stops_nil _)
  rw [List.append_nil] at hgives
  rcases hgives with ⟨hlt, hread⟩ | ⟨-, hfew | hhigh⟩
  · exact ⟨_, hread⟩
  · exact absurd hfew (Nat.lt_irrefl _)
  · exact absurd hhigh (Nat.not_lt.2 hheight)

/-- An accepted token list is read by as many readers at once as its shallowest derivation nests. -/
theorem peak_eq_of_ofTokens {ts : List Lexeme} {e : Expr} (h : Expr.ofTokens ts = .ok e) :
    ∃ d, Derivation .expr d (ts.map Lexeme.token) e ∧ (countedExpr 0 ts .idle).2.peak = d + 1 ∧
      ∀ d', Derivation .expr d' (ts.map Lexeme.token) e → d ≤ d' := by
  obtain ⟨tree, htree, hrest, rfl⟩ := ofTokens_eq_ok h
  have hgauges := gauges_expr 0 ts
  obtain ⟨k, hpeak, hlevels⟩ := hgauges.needs .idle tree ((hgauges.answer .idle).trans htree)
  have hk : exprAt k 0 ts = .ok tree := (hlevels k).trans (if_pos (Nat.le_refl k))
  obtain ⟨d, rfl, hder, hheight⟩ := derivation_of_exprAt hk hrest
  refine ⟨d, hder, hpeak.trans (by simp [Gauge.idle]), fun d' hder' => ?_⟩
  obtain ⟨t, ht⟩ := exprAt_of_derivation hder' hheight
  by_contra hlt
  rw [hlevels, if_neg (by omega)] at ht
  cases ht

/--
The two limits of the parser.

* A text that is an expression has no higher tree than the limit.
* Wherever a reader returns, with whatever strength and levels, the height that it carries is the
  height of its tree.
* The parser that counts its readers answers as the one with levels does. Its counter is back after
  every call, also if that failed, and never exceeds the limit.
* Tokens that derive a tree are accepted if the tree and the nesting of its readers are within the limit,
* and whatever is accepted has as many readers active at once, at most, as its shallowest derivation
  nests.
-/
theorem depth_limits :
    (∀ source e, Expr.parse source = .ok e → e.height ≤ maxExprDepth) ∧
    (∀ levels strength ts t, exprAt levels strength ts = .ok t →
      t.value.height = t.value.expr.height ∧ t.value.height ≤ maxExprDepth) ∧
    (∀ strength ts g, (countedExpr strength ts g).1 = exprAt (maxExprDepth - g.active) strength ts ∧
      (countedExpr strength ts g).2.active = g.active ∧
      (countedExpr strength ts g).2.peak ≤ max g.peak maxExprDepth) ∧
    (∀ d ts e, Derivation .expr d (ts.map Lexeme.token) e → d + 1 ≤ maxExprDepth →
      e.height ≤ maxExprDepth → Expr.ofTokens ts = .ok e) ∧
    (∀ ts e, Expr.ofTokens ts = .ok e →
      ∃ d, Derivation .expr d (ts.map Lexeme.token) e ∧ (countedExpr 0 ts .idle).2.peak = d + 1 ∧
        ∀ d', Derivation .expr d' (ts.map Lexeme.token) e → d ≤ d') := by
  refine ⟨fun source e h => ?_, fun levels strength ts t h => ?_, fun strength ts g => ?_,
    fun d ts e hder hlevels hheight => ?_, fun ts e h => peak_eq_of_ofTokens h⟩
  · obtain ⟨ts, -, hts⟩ := parse_eq_ok_iff.1 h
    exact (ofTokens_sound hts).2
  · exact (gauges_expr strength ts).holds levels t h
  · have hgauges := gauges_expr strength ts
    exact ⟨hgauges.answer g, hgauges.active g, hgauges.peak_le g⟩
  · rcases ofTokens_of_derivation hder with hok | ⟨-, hfew | hhigh⟩
    · exact hok
    · exact absurd hfew (Nat.not_lt.2 hlevels)
    · exact absurd hhigh (Nat.not_lt.2 hheight)

/-- So many `!` before a name. -/
def nots (n : Nat) : List Lexeme := List.replicate n ⟨0, .punct .bang⟩ ++ [⟨0, .ident "x"⟩]

/-- What `nots` is. -/
def notsExpr : Nat → Expr
  | 0 => .ident "x"
  | n + 1 => .unary .not (notsExpr n)

theorem height_notsExpr (n : Nat) : (notsExpr n).height = n + 1 := by
  induction n with
  | zero => rfl
  | succ n ih => exact congrArg (· + 1) ih

/-- So many negations of a name are an expression of the grammar, and take one level of nesting
each. -/
theorem derivation_nots (n : Nat) : Derivation .expr n ((nots n).map Lexeme.token) (notsExpr n) := by
  have hunary : Derivation .unary n ((nots n).map Lexeme.token) (notsExpr n) := by
    induction n with
    | zero => exact (Derivation.ident (by decide)).loosen (by decide)
    | succ n ih => exact .unary (by decide) ih
  exact hunary.loosen (by decide)

/-- The limit is exact: one `!` fewer than the limit is accepted, and one more is not. -/
theorem ofTokens_nots (n : Nat) :
    Expr.ofTokens (nots n) = if n < maxExprDepth then .ok (notsExpr n) else .error .tooDeep := by
  have hheight := height_notsExpr n
  split
  next hlt =>
    rcases ofTokens_of_derivation (derivation_nots n) with hok | ⟨-, hfew | hhigh⟩
    · exact hok
    · omega
    · omega
  next hle =>
    rcases ofTokens_of_derivation (derivation_nots n) with hok | ⟨hdeep, -⟩
    · have := (ofTokens_sound hok).2
      omega
    · exact hdeep

/-- The highest tree and the most readers: 127 times `!`. -/
theorem depth_limits_nots :
    (Expr.parse "!x" = .ok (notsExpr 1) ∧ (notsExpr 1).height ≤ maxExprDepth) ∧
    (∃ t, exprAt 128 0 (nots 127) = .ok t ∧ t.value.height = t.value.expr.height ∧
      t.value.height ≤ maxExprDepth) ∧
    (Derivation .expr 127 ((nots 127).map Lexeme.token) (notsExpr 127) ∧ 127 + 1 ≤ maxExprDepth ∧
      (notsExpr 127).height ≤ maxExprDepth ∧ Expr.ofTokens (nots 127) = .ok (notsExpr 127)) ∧
    (∃ d, Derivation .expr d ((nots 127).map Lexeme.token) (notsExpr 127) ∧
      (countedExpr 0 (nots 127) .idle).2.peak = d + 1 ∧
      ∀ d', Derivation .expr d' ((nots 127).map Lexeme.token) (notsExpr 127) → d ≤ d') := by
  have hparse : Expr.parse "!x" = .ok (notsExpr 1) := by cbv
  have hlevels : 127 + 1 ≤ maxExprDepth := by decide
  have hheight : (notsExpr 127).height ≤ maxExprDepth := by rw [height_notsExpr]; decide
  have hok : Expr.ofTokens (nots 127) = .ok (notsExpr 127) :=
    depth_limits.2.2.2.1 127 (nots 127) _ (derivation_nots 127) hlevels hheight
  obtain ⟨t, ht⟩ := exprAt_of_derivation (derivation_nots 127) hheight
  exact ⟨⟨hparse, depth_limits.1 _ _ hparse⟩, ⟨t, ht, depth_limits.2.1 128 0 _ t ht⟩,
    ⟨derivation_nots 127, hlevels, hheight, hok⟩, depth_limits.2.2.2.2 _ _ hok⟩

end Grammar

end AppletHost
