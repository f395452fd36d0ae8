import AppletHost.Markup.Tree
import AppletHost.Template.Segment

/-!
# Compiled templates

A template is a tree of texts and elements with placeholders. The `if`, `for`, `for-item` and
`for-index` attributes of the source, under any namespace, are directives; all others are output
attributes under their local name. Compiling never fails.
-/

namespace AppletHost.Template

/-- An output attribute. -/
structure Attribute where
  name : String
  value : List Segment
deriving Repr, Inhabited

/-- A `for` directive: the list or count, and the names of the item and its position. -/
structure Loop where
  list : Binding
  item : String
  index : String
deriving Repr, Inhabited

/-- An element without its children. -/
structure Head where
  tag : String
  attributes : List Attribute
  condition : Option Binding
  loop : Option Loop
deriving Repr, Inhabited

/-- A node of a template. -/
inductive Node where
  | text (segments : List Segment)
  | element (head : Head) (children : List Node)
deriving Repr, Inhabited

/-- Output elements without a close tag. -/
def voidTags : List String := ["img", "br", "hr", "input", "meta", "link"]

/-- The element has no close tag and no content. -/
def Head.isVoid (head : Head) : Bool := voidTags.contains head.tag

/-- The output tag of a source element. -/
def outputTag (name : String) : String :=
  if name = "view" ∨ name = "container" then "div"
  else if name = "text" then "span"
  else if name = "image" then "img"
  else if name = "navigator" then "a"
  else name

/-- The part of a name after its last colon. -/
def localName (name : String) : String :=
  String.ofList (name.toList.reverse.takeWhile (· != ':')).reverse

/-- What the attributes of an element say. -/
structure Directives where
  attributes : List Attribute := []
  condition : Option Binding := none
  list : Option Binding := none
  item : Option String := none
  index : Option String := none
deriving Repr, Inhabited

/-- Takes in one source attribute; of two directives of a kind the later counts. -/
def Directives.step (d : Directives) (a : Markup.Attribute) : Directives :=
  let name := localName a.name
  let value := (a.value.getD "").toList
  if name = "if" then { d with condition := some (Binding.compile (unwrap value)) }
  else if name = "for" then { d with list := some (Binding.compile (unwrap value)) }
  else if name = "for-item" then { d with item := some (String.ofList (unwrap value)) }
  else if name = "for-index" then { d with index := some (String.ofList (unwrap value)) }
  else { d with attributes := d.attributes ++ [⟨name, segments value⟩] }

/-- A name, unless it is empty or missing. -/
def nameOr (name : Option String) (default : String) : String :=
  match name with
  | some s => if s = "" then default else s
  | none => default

/-- The element with these attributes, without its children. -/
def Head.compile (name : String) (attributes : List Markup.Attribute) : Head :=
  let d := attributes.foldl Directives.step {}
  { tag := outputTag name
    attributes := d.attributes
    condition := d.condition
    loop := d.list.map fun list => ⟨list, nameOr d.item "item", nameOr d.index "index"⟩ }

mutual

/-- The template node of a markup node. -/
def Node.compile : Markup.Node → Node
  | .text s => .text (segments s.toList)
  | .element name attributes children =>
    .element (Head.compile name attributes) (Node.compileAll children)

/-- The template nodes of markup nodes. -/
def Node.compileAll : List Markup.Node → List Node
  | [] => []
  | n :: ns => Node.compile n :: Node.compileAll ns

end

/-- The template that a markup text is. -/
def compile (source : String) : List Node := Node.compileAll (Markup.parse source)

end AppletHost.Template
