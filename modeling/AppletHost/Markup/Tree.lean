import AppletHost.Markup.Piece

/-!
# From pieces to trees

The pieces of a text are put into the innermost open element. A close tag closes the nearest open
element of its name together with those inside it, and does nothing if there is none; the end of the
text closes all. A start tag inside `maxDepth` open elements is dropped, so that its content joins
the deepest one.
-/

namespace AppletHost.Markup

/-- An element whose close tag has not come yet; the newest child comes first. -/
structure OpenElement where
  name : String
  attributes : List Attribute
  children : List Node
deriving Repr, Inhabited

/-- The element as it is closed. -/
def OpenElement.toNode (e : OpenElement) : Node :=
  .element e.name e.attributes e.children.reverse

/-- A tree under construction: finished roots, open elements from the inside out, and the text read
since the last tag; of each list the newest comes first. -/
structure Builder where
  roots : List Node := []
  stack : List OpenElement := []
  text : List Char := []
deriving Repr, Inhabited

namespace Builder

/-- Puts a node where the text stands. -/
def add (b : Builder) (node : Node) : Builder :=
  match b.stack with
  | [] => { b with roots := node :: b.roots }
  | top :: outer => { b with stack := { top with children := node :: top.children } :: outer }

/-- Puts the text read so far, if any, into the tree. -/
def flushText (b : Builder) : Builder :=
  if b.text = [] then b
  else ({ b with text := [] } : Builder).add (.text (String.ofList b.text.reverse))

/-- Closes the innermost open element. -/
def closeTop (b : Builder) : Builder :=
  match b.stack with
  | [] => b
  | top :: outer => ({ b with stack := outer } : Builder).add top.toNode

theorem length_stack_closeTop (b : Builder) :
    b.closeTop.stack.length = b.stack.length - 1 := by
  unfold closeTop
  split
  · next h => simp [h]
  · next top outer h =>
    unfold add
    cases outer <;> simp [h]

/-- Closes the innermost `n` open elements. -/
def closeMany (b : Builder) : Nat → Builder
  | 0 => b
  | n + 1 => b.closeTop.closeMany n

/-- Closes the nearest open element of that name and all inside it. -/
def close (b : Builder) (name : String) : Builder :=
  match b.stack.findIdx? fun e => e.name == name with
  | none => b
  | some depth => b.closeMany (depth + 1)

/-- Takes in one piece. -/
def step (b : Builder) : Piece → Builder
  | .char c => { b with text := c :: b.text }
  | .whole node => b.flushText.add node
  | .close name => b.flushText.close name
  | .start name attributes =>
    let b := b.flushText
    if maxDepth ≤ b.stack.length then b
    else { b with stack := ⟨name, attributes, []⟩ :: b.stack }

/-- The roots, once everything is closed. -/
def finish (b : Builder) : List Node :=
  let b := b.flushText
  (b.closeMany b.stack.length).roots.reverse

end Builder

/-- The tree of a sequence of pieces. -/
def ofPieces (ps : List Piece) : List Node := (ps.foldl Builder.step {}).finish

/-- The tree of a markup text. -/
def parse (source : String) : List Node := ofPieces (pieces source.toList)

end AppletHost.Markup
