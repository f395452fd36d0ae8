import AppletHost.Proofs.Template.Dependence
import Mathlib.Algebra.Order.Floor.Ring
import Mathlib.Data.Rat.Floor

/-!
# Loops without frames

While loops are rendered, names are looked up in a chain of frames above the data. The chain is only a
way to write one object: the data, with the item and then the position of every loop set in it, from
the outside in (`Scope.flatten`). What a template gives is a matter of the values under names, so it
cannot tell the two apart:

> `render_flatten`: rendering in a scope is rendering over the object that the scope amounts to.

An element with a loop is then its own body, rendered over one object for each value. The condition
belongs to the element and not to the repetition: it is asked once, outside the frames.

> `render_loop`: a loop repeats the element without its directives over the values of its list, or
> over `0, 1, …` below the whole part of its count.
-/

namespace AppletHost

/-! ## Scopes as objects -/

/-- The object that a scope amounts to. The position is set last: it wins over an item of that name. -/
def Scope.flatten : Scope → Fields
  | .root data => data.obj?.getD []
  | .frame parent itemName item indexName index =>
    (parent.flatten.set itemName item).set indexName (.int index)

theorem Scope.lookup?_eq_get?_flatten (scope : Scope) (name : String) :
    scope.lookup? name = scope.flatten.get? name := by
  induction scope with
  | root data => cases data <;> rfl
  | frame parent itemName item indexName index ih =>
    rw [lookup?, flatten, Fields.get?_set, Fields.get?_set, ih]
    simp only [eq_comm]

/-- A scope and its object agree on all names. -/
theorem Scope.agreeOn_flatten (names : List String) (scope : Scope) :
    Scope.AgreeOn names scope (.root (.obj scope.flatten)) :=
  fun name _ => scope.lookup?_eq_get?_flatten name

/-! ## Counts -/

namespace Number.Dyadic

/-- The exact value. -/
def toRat (d : Dyadic) : ℚ := (if d.negative then -1 else 1) * (d.mantissa * 2 ^ d.exponent)

/-- Below zero rounding down and rounding toward zero differ, but neither leaves a count. -/
theorem toNat_floor_toRat (d : Dyadic) : ⌊d.toRat⌋.toNat = d.trunc.toNat := by
  obtain ⟨negative, mantissa, exponent⟩ := d
  cases negative with
  | true =>
    have hnonneg : (0 : ℚ) ≤ mantissa * 2 ^ exponent :=
      mul_nonneg (Nat.cast_nonneg mantissa) (zpow_nonneg (by decide) exponent)
    have hfloor : ⌊toRat ⟨true, mantissa, exponent⟩⌋ ≤ 0 := by
      refine Int.floor_nonpos ?_
      simpa [toRat] using hnonneg
    have htrunc : trunc ⟨true, mantissa, exponent⟩ ≤ 0 := by simp [trunc]
    rw [Int.toNat_of_nonpos hfloor, Int.toNat_of_nonpos htrunc]
  | false =>
    have hfloor : ⌊(mantissa : ℚ) * 2 ^ exponent⌋ = (truncNat ⟨false, mantissa, exponent⟩ : Int) := by
      unfold truncNat
      -- the exponent scales the mantissa up, or divides it
      split
      next hexponent =>
        obtain ⟨n, rfl⟩ := Int.eq_ofNat_of_zero_le hexponent
        have hcast : (mantissa : ℚ) * 2 ^ (n : Int) = ((mantissa * 2 ^ n : Nat) : ℚ) := by
          push_cast
          rw [zpow_natCast]
        rw [hcast, Int.floor_natCast]
        rfl
      next hexponent =>
        obtain ⟨n, rfl⟩ := Int.exists_eq_neg_ofNat (Int.le_of_lt (Int.not_le.1 hexponent))
        have hcast : (mantissa : ℚ) * 2 ^ (-(n : Int)) = (mantissa : ℚ) / ((2 ^ n : Nat) : ℚ) := by
          rw [zpow_neg, zpow_natCast, Nat.cast_pow, Nat.cast_ofNat, div_eq_mul_inv]
        rw [hcast, Rat.floor_natCast_div_natCast]
        simp
    simp [toRat, trunc, hfloor]

end Number.Dyadic

/-- The number that a value is, exactly; the infinities and not-a-number are none. -/
def Value.toRat? : Value → Option ℚ
  | .int n => some n
  | .float x => (Number.Dyadic.ofFloat? x).map Number.Dyadic.toRat
  | _ => none

namespace Template

/-- What a loop goes through: the items of an array, or the numbers from zero on below a count, which
is cut off at 10000. There is no loop over anything else. -/
def loopValues? : Option Value → Option (List Value)
  | some (.arr items) => some items
  | some v => v.toRat?.map fun m =>
    (List.range (min ⌊m⌋.toNat 10000)).map fun (k : Nat) => Value.int k
  | none => none

theorem loopItems_eq_loopValues? (v : Option Value) : loopItems v = (loopValues? v).getD [] := by
  match v with
  | none | some .null | some (.bool _) | some (.str _) | some (.arr _) | some (.obj _) => rfl
  | some (.int n) =>
    rw [loopItems, loopValues?, Value.toRat?, Option.map_some, Int.floor_intCast]
    · rfl
    · nofun
  | some (.float x) =>
    rw [loopItems, repetitions, Number.trunc?, loopValues?, Value.toRat?]
    · cases Number.Dyadic.ofFloat? x with
      | none => rfl
      | some d =>
        simp only [Option.map_some, Option.getD_some, d.toNat_floor_toRat]
        rfl
    · nofun

/-! ## Rendering -/

/-- Rendering in a scope is rendering over its object. -/
theorem render_flatten (nodes : List Node) (scope : Scope) :
    Node.renderAll nodes scope = (render nodes (.obj scope.flatten)).toList := by
  rw [render, String.toList_ofList]
  exact Node.renderAll_congr nodes (scope.agreeOn_flatten _)

/-- An element is repeated as it is without its directives. -/
theorem Node.render_element (head : Head) (children : List Node) (scope : Scope) :
    Node.render (.element head children) scope = (head.scopes scope).flatMap
      (Node.render (.element ⟨head.tag, head.attributes, none, none⟩ children)) := by
  rw [Node.render]
  refine List.flatMap_congr fun inner _ => ?_
  rw [Node.render]
  simp [Head.scopes, Head.shows, Head.renderStart, Head.renderInside, Head.renderClose, Head.isVoid]

/--
An element with a loop gives nothing if it has a condition that is not true in the enclosing scope, or
if its list is neither an array nor a number. Otherwise it gives, for each value in order, what the
same element without condition and loop gives over the object of the enclosing scope in which the name
of the item is set to the value, and then the name of the position to the position. And what holds of
these bodies holds of all that stands in a scope: it is rendered over the object of the scope.
-/
theorem render_loop (tag : String) (attributes : List Attribute) (condition : Option Binding)
    (loop : Loop) (children : List Node) (scope : Scope) :
    let element := Node.element ⟨tag, attributes, condition, some loop⟩ children
    let body := Node.element ⟨tag, attributes, none, none⟩ children
    (element.render scope =
      if condition.any fun c => !Value.truthy (c.eval scope) then []
      else
        match loopValues? (loop.list.eval scope) with
        | none => []
        | some values => values.zipIdx.flatMap fun (v, k) =>
          (render [body]
            (.obj ((scope.flatten.set loop.item v).set loop.index (.int k)))).toList) ∧
    ∀ nodes, Node.renderAll nodes scope = (render nodes (.obj scope.flatten)).toList := by
  intro element body
  refine ⟨?_, fun nodes => render_flatten nodes scope⟩
  have hshows : Head.shows scope ⟨tag, attributes, condition, some loop⟩ =
      !(condition.any fun c => !Value.truthy (c.eval scope)) := by
    cases condition <;> simp [Head.shows]
  have hbody : ∀ inner : Scope,
      body.render inner = (render [body] (.obj inner.flatten)).toList := by
    intro inner
    rw [← render_flatten, Node.renderAll, Node.renderAll, List.append_nil]
  rw [Node.render_element, Head.scopes, hshows]
  -- the condition is asked in the enclosing scope, before there is a frame
  by_cases hfalse : condition.any fun c => !Value.truthy (c.eval scope)
  · simp [hfalse]
  · simp only [hfalse, Bool.not_false, if_true, if_false, Bool.false_eq_true, Loop.scopes,
      loopItems_eq_loopValues?, List.flatMap_map]
    cases loopValues? (loop.list.eval scope) with
    | none => rfl
    | some values =>
      refine List.flatMap_congr fun position _ => ?_
      obtain ⟨v, k⟩ := position
      exact hbody (.frame scope loop.item v loop.index k)

/-- Where the two names of a loop are one, it is that of the position; the condition does not see it. -/
example :
    render (compile "<text if='n' for='xs' for-item='n' for-index='n'>\x7b\x7bn\x7d\x7d</text>")
      (.obj [("n", .bool true), ("xs", .arr [.str "a", .str "b"])]) =
        "<span>0</span><span>1</span>" := by
  decide +kernel

end Template

end AppletHost
