import AppletHost.Template.Basic

/-!
# Rendering templates

A template and a data snapshot give an HTML text. An element whose condition is not true gives
nothing; one with a loop is repeated for every item; an attribute whose value is empty is left out.
Text is copied as it is, attribute values are escaped.
-/

namespace AppletHost.Template

/-- Largest number of repetitions for a loop over a number. -/
def maxCount : Nat := 10000

/-- How a character stands in an attribute value. -/
def escapeChar (c : Char) : List Char :=
  if c = '&' then "&amp;".toList
  else if c = '<' then "&lt;".toList
  else if c = '>' then "&gt;".toList
  else if c = '"' then "&quot;".toList
  else [c]

/-- A text as it stands in a quoted attribute value. -/
def escape (cs : List Char) : List Char := cs.flatMap escapeChar

/-- An attribute with the blank before it, or nothing if its value is empty. -/
def Attribute.render (scope : Scope) (a : Attribute) : List Char :=
  let value := renderSegments scope a.value
  if value = [] then []
  else ' ' :: (a.name.toList ++ ('=' :: '"' :: (escape value ++ ['"'])))

/-- The inside of the start tag of an element. -/
def Head.renderInside (scope : Scope) (head : Head) : List Char :=
  head.tag.toList ++ head.attributes.flatMap (Attribute.render scope)

/-- The start tag of an element. -/
def Head.renderStart (scope : Scope) (head : Head) : List Char :=
  '<' :: (head.renderInside scope ++ ['>'])

/-- The close tag of an element. -/
def Head.renderClose (head : Head) : List Char := '<' :: '/' :: (head.tag.toList ++ ['>'])

/-- How often a loop over the number `x` repeats. -/
def repetitions (x : Float) : Nat := min ((Number.trunc? x).getD 0).toNat maxCount

/-- The items a loop goes through. -/
def loopItems : Option Value → List Value
  | some (.arr items) => items
  | some (.int n) => (List.range (min n.toNat maxCount)).map fun (k : Nat) => Value.int k
  | some (.float x) => (List.range (repetitions x)).map fun (k : Nat) => Value.int k
  | _ => []

/-- The condition of an element, if it has one, is true. -/
def Head.shows (scope : Scope) (head : Head) : Bool :=
  match head.condition with
  | none => true
  | some b => Value.truthy (b.eval scope)

/-- The scopes in which an element with a loop is rendered, one for each item. -/
def Loop.scopes (scope : Scope) (loop : Loop) : List Scope :=
  (loopItems (loop.list.eval scope)).zipIdx.map fun (item, k) =>
    .frame scope loop.item item loop.index k

/-- The scopes in which an element is rendered. -/
def Head.scopes (scope : Scope) (head : Head) : List Scope :=
  if head.shows scope then
    match head.loop with
    | none => [scope]
    | some loop => loop.scopes scope
  else []

mutual

/-- The HTML of a node in a scope. -/
def Node.render : Node → Scope → List Char
  | .text segments, scope => renderSegments scope segments
  | .element head children, scope =>
    (head.scopes scope).flatMap fun inner =>
      head.renderStart inner ++
        (if head.isVoid then [] else Node.renderAll children inner ++ head.renderClose)

/-- The HTML of nodes in a scope. -/
def Node.renderAll : List Node → Scope → List Char
  | [], _ => []
  | n :: ns, scope => Node.render n scope ++ Node.renderAll ns scope

end

/-- The HTML of a template over a data snapshot. -/
def render (template : List Node) (data : Value) : String :=
  String.ofList (Node.renderAll template (.root data))

end AppletHost.Template
