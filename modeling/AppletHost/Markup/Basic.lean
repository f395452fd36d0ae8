/-!
# Markup trees

What a markup text says: elements with attributes, and the text between them.
-/

namespace AppletHost.Markup

/-- An attribute as written; `value` is `none` when only the name stands there. -/
structure Attribute where
  name : String
  value : Option String
deriving DecidableEq, Repr, Inhabited

/-- A node of a markup tree. -/
inductive Node where
  | text (s : String)
  | element (name : String) (attributes : List Attribute) (children : List Node)
deriving Inhabited, Repr

/-- Deepest nesting of elements that is kept. -/
def maxDepth : Nat := 256

/-- Elements whose content is text, whatever it looks like. -/
def rawTextNames : List String := ["script", "style"]

/-- Elements without content. -/
def voidNames : List String := ["img", "image", "br", "hr", "input", "meta", "link"]

end AppletHost.Markup
