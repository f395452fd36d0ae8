import AppletHost.Template.Render
import Mathlib.Data.List.Basic

/-!
# What a template reads of the data

A template reads the data by name only, and the names it can ask for stand in its bindings: those of
its texts, attributes, conditions and loops. So two scopes that agree on these names cannot be told
apart:

> `Expr.eval_congr`: an expression has one value in all scopes that agree on its identifiers;
> `Node.render_congr`: a node has one HTML in all scopes that agree on its identifiers.

A loop asks for no name of its own, and the frames that it puts around two scopes hide the same names
in both (`Scope.AgreeOn.frame`), which is what the induction over nodes needs. The names are those of
the bindings, hidden or not, so the root may be asked for fewer.

> `render_eq_of_agree`: a template gives the same HTML over all data that agree on its identifiers.
-/

namespace AppletHost

/-! ## Scopes -/

/-- Two scopes have the same value, or both have none, under each of the names. -/
def Scope.AgreeOn (names : List String) (s t : Scope) : Prop :=
  ∀ name ∈ names, s.lookup? name = t.lookup? name

namespace Scope.AgreeOn

variable {names fewer : List String} {s t : Scope}

/-- Scopes that agree on names agree on fewer names. -/
theorem mono (h : AgreeOn names s t) (hsub : fewer ⊆ names) : AgreeOn fewer s t :=
  fun name hname => h name (hsub hname)

/-- The frame of a loop hides the same names on both sides. -/
theorem frame (h : AgreeOn names s t) (itemName : String) (item : Value) (indexName : String)
    (index : Nat) :
    AgreeOn names (.frame s itemName item indexName index)
      (.frame t itemName item indexName index) := by
  intro name hname
  rw [Scope.lookup?, Scope.lookup?, h name hname]

theorem left {others : List String} (h : AgreeOn (names ++ others) s t) : AgreeOn names s t :=
  h.mono (List.subset_append_left names others)

theorem right {others : List String} (h : AgreeOn (names ++ others) s t) : AgreeOn others s t :=
  h.mono (List.subset_append_right names others)

end Scope.AgreeOn

/-! ## Expressions -/

namespace Expr

variable {s t : Scope}

mutual

/-- The value of an expression is a matter of its identifiers. -/
theorem eval_congr : (e : Expr) → Scope.AgreeOn e.identifiers s t → e.eval s = e.eval t
  | .literal _, _ => rfl
  | .undefined, _ => rfl
  | .ident name, h => h name (List.mem_singleton_self name)
  | .member base _, h => by rw [eval, eval, eval_congr base h]
  | .index base key, h => by
    rw [identifiers] at h
    rw [eval, eval, eval_congr base h.left, eval_congr key h.right]
  | .unary .not operand, h => by rw [eval, eval, eval_congr operand h]
  | .unary .neg operand, h => by rw [eval, eval, eval_congr operand h]
  | .binary _ lhs rhs, h => by
    rw [identifiers] at h
    rw [eval, eval, eval_congr lhs h.left, eval_congr rhs h.right]
  | .logical _ lhs rhs, h => by
    rw [identifiers] at h
    rw [eval, eval, eval_congr lhs h.left, eval_congr rhs h.right]
  | .conditional cond yes no, h => by
    rw [identifiers] at h
    rw [eval, eval, eval_congr cond h.left.left, eval_congr yes h.left.right,
      eval_congr no h.right]
  | .array items, h => by rw [eval, eval, evalItems_congr items h]

/-- Items of an array are evaluated alike in scopes that agree on the names in them. -/
theorem evalItems_congr : (es : List Expr) → Scope.AgreeOn (identifiersOf es) s t →
    evalItems s es = evalItems t es
  | [], _ => rfl
  | e :: es, h => by
    rw [identifiersOf] at h
    rw [evalItems, evalItems, eval_congr e h.left, evalItems_congr es h.right]

end

end Expr

namespace Template

variable {s t : Scope}

/-! ## Bindings and segments -/

/-- The names that a binding looks up; one that does not parse looks up nothing. -/
def Binding.identifiers (b : Binding) : List String :=
  match b.expr with
  | none => []
  | some e => e.identifiers

/-- The names that a piece of a text looks up. -/
def Segment.identifiers : Segment → List String
  | .literal _ => []
  | .binding b => b.identifiers

theorem Binding.eval_congr {b : Binding} (h : Scope.AgreeOn b.identifiers s t) :
    b.eval s = b.eval t := by
  obtain ⟨source, expr⟩ := b
  cases expr with
  | none => rfl
  | some e => exact Expr.eval_congr e h

theorem Segment.render_congr {segment : Segment} (h : Scope.AgreeOn segment.identifiers s t) :
    segment.render s = segment.render t := by
  cases segment with
  | literal text => rfl
  | binding b => rw [Segment.render, Segment.render, Binding.eval_congr h]

theorem renderSegments_congr {segments : List Segment}
    (h : Scope.AgreeOn (segments.flatMap Segment.identifiers) s t) :
    renderSegments s segments = renderSegments t segments := by
  induction segments with
  | nil => rfl
  | cons segment rest ih =>
    rw [List.flatMap_cons] at h
    have hrest := ih h.right
    unfold renderSegments at hrest ⊢
    rw [List.flatMap_cons, List.flatMap_cons, Segment.render_congr h.left, hrest]

/-! ## Elements -/

/-- The names that the value of an attribute looks up. -/
def Attribute.identifiers (a : Attribute) : List String := a.value.flatMap Segment.identifiers

/-- The names that an element looks up, its children apart. -/
def Head.identifiers (head : Head) : List String :=
  head.attributes.flatMap Attribute.identifiers
    ++ head.condition.elim [] Binding.identifiers
    ++ head.loop.elim [] fun loop => loop.list.identifiers

namespace Head

variable {head : Head}

/-- A start tag is rendered alike, the names in its attributes being among those of its head. -/
theorem renderStart_congr (h : Scope.AgreeOn head.identifiers s t) :
    head.renderStart s = head.renderStart t := by
  have hattribute : ∀ a ∈ head.attributes, Attribute.render s a = Attribute.render t a := by
    intro a ha
    have hvalue : Scope.AgreeOn a.identifiers s t :=
      h.left.left.mono fun name hname => List.mem_flatMap.2 ⟨a, ha, hname⟩
    unfold Attribute.render
    rw [renderSegments_congr hvalue]
  have hattributes :
      head.attributes.flatMap (Attribute.render s) = head.attributes.flatMap (Attribute.render t) :=
    List.flatMap_congr hattribute
  rw [renderStart, renderStart, renderInside, renderInside, hattributes]

/-- Scopes that agree on the names in a head agree on whether its element is shown. -/
theorem shows_congr (h : Scope.AgreeOn head.identifiers s t) : head.shows s = head.shows t := by
  obtain ⟨tag, attributes, condition, loop⟩ := head
  cases condition with
  | none => rfl
  | some b =>
    have heval : b.eval s = b.eval t := Binding.eval_congr h.left.right
    unfold shows
    simp only [heval]

/-- An element gives the same over two scopes if what it gives in each of its own scopes is a matter
of names on which the two agree. -/
theorem flatMap_scopes_congr {names : List String} {f : Scope → List Char}
    (h : Scope.AgreeOn names s t) (hhead : head.identifiers ⊆ names)
    (hf : ∀ s t, Scope.AgreeOn names s t → f s = f t) :
    (head.scopes s).flatMap f = (head.scopes t).flatMap f := by
  have hown := h.mono hhead
  obtain ⟨tag, attributes, condition, loop⟩ := head
  unfold scopes
  rw [shows_congr hown]
  -- an element that does not show has no scopes on either side
  split
  · cases loop with
    | none => rw [List.flatMap_singleton, List.flatMap_singleton, hf s t h]
    | some loop =>
      -- the two loops go through the same values, so frames are compared pair by pair
      have hlist : loop.list.eval s = loop.list.eval t := Binding.eval_congr hown.right
      simp only [Loop.scopes, hlist, List.flatMap_map]
      exact List.flatMap_congr fun (item, k) _ => hf _ _ (h.frame loop.item item loop.index k)
  · rfl

end Head

/-! ## Nodes -/

mutual

/-- The names that the bindings of a node look up. -/
def Node.identifiers : Node → List String
  | .text segments => segments.flatMap Segment.identifiers
  | .element head children => head.identifiers ++ Node.identifiersAll children

/-- The names that the bindings of nodes look up. -/
def Node.identifiersAll : List Node → List String
  | [] => []
  | n :: ns => Node.identifiers n ++ Node.identifiersAll ns

end

mutual

/-- The HTML of a node is a matter of its identifiers. -/
theorem Node.render_congr : (n : Node) → ∀ {s t : Scope}, Scope.AgreeOn n.identifiers s t →
    n.render s = n.render t
  | .text _, s, t, h => by rw [Node.render, Node.render, renderSegments_congr h]
  | .element head children, s, t, h => by
    rw [Node.identifiers] at h
    rw [Node.render, Node.render]
    refine Head.flatMap_scopes_congr h (List.subset_append_left _ _) fun s t hinner => ?_
    rw [Head.renderStart_congr hinner.left, Node.renderAll_congr children hinner.right]

/-- Nodes in a row are rendered alike, one after another. -/
theorem Node.renderAll_congr : (ns : List Node) → ∀ {s t : Scope},
    Scope.AgreeOn (Node.identifiersAll ns) s t → Node.renderAll ns s = Node.renderAll ns t
  | [], _, _, _ => rfl
  | n :: ns, s, t, h => by
    rw [Node.identifiersAll] at h
    rw [Node.renderAll, Node.renderAll, Node.render_congr n h.left,
      Node.renderAll_congr ns h.right]

end

/-! ## Templates -/

/-- Data that agree on every name which occurs in the bindings of a template give the same HTML. -/
theorem render_eq_of_agree (template : List Node) (a b : Value)
    (h : ∀ name ∈ Node.identifiersAll template, a.get? name = b.get? name) :
    render template a = render template b := by
  have hroot : Scope.AgreeOn (Node.identifiersAll template) (.root a) (.root b) := h
  rw [render, render, Node.renderAll_congr template hroot]

/-- A list with a heading does not show who asks for it: the loop hides the `item` of the data. -/
theorem render_list_of_agree :
    let template := compile
      "<view title='\x7b\x7btitle\x7d\x7d' if='open' for='todos'>\x7b\x7bitem.text\x7d\x7d</view>"
    let data (user : String) : Value := .obj [("open", .bool true), ("title", .str "Today"),
      ("todos", .arr [.obj [("text", .str "a")]]), ("user", .str user)]
    Node.identifiersAll template = ["title", "open", "todos", "item"] ∧
      (∀ name ∈ Node.identifiersAll template, (data "ann").get? name = (data "bob").get? name) ∧
      render template (data "ann") = render template (data "bob") := by
  intro template data
  have hnames : Node.identifiersAll template = ["title", "open", "todos", "item"] := by
    decide +kernel
  have hagree : ∀ name ∈ Node.identifiersAll template,
      (data "ann").get? name = (data "bob").get? name := by
    rw [hnames]
    simp [data, Value.get?, Fields.get?]
  exact ⟨hnames, hagree, render_eq_of_agree template (data "ann") (data "bob") hagree⟩

end Template

end AppletHost
