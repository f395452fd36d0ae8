import AppletHost.Expr.Evaluation
import AppletHost.Expr.Parser

/-!
# Text with placeholders

A text is cut into literals and `\x7b\x7b expression \x7d\x7d` placeholders. A placeholder with nothing but
blanks inside is literal text, and so is one that never ends. A placeholder whose expression does
not parse stays as a binding that is always undefined.
-/

namespace AppletHost.Template

/-- An expression with its source text; `expr` is `none` when the source does not parse. -/
structure Binding where
  source : String
  expr : Option Expr
deriving Repr, Inhabited

/-- The binding of a text, without the blanks around it. -/
def Binding.compile (source : List Char) : Binding :=
  let trimmed := String.ofList (Text.trim source)
  ⟨trimmed, (Expr.parse trimmed).toOption⟩

/-- The value of a binding in a scope. -/
def Binding.eval (b : Binding) (scope : Scope) : Option Value :=
  b.expr.bind fun e => e.eval scope

/-- A piece of a text with placeholders. -/
inductive Segment where
  | literal (text : String)
  | binding (b : Binding)
deriving Repr, Inhabited

/-- What opens a placeholder. -/
def opening : List Char := ['\x7b', '\x7b']

/-- What ends a placeholder. -/
def closing : List Char := ['\x7d', '\x7d']

/-- Puts literal text in front of segments, joined to a literal that is there. -/
def consLiteral (text : List Char) (segments : List Segment) : List Segment :=
  if text = [] then segments
  else
    match segments with
    | .literal next :: rest => .literal (String.ofList text ++ next) :: rest
    | segments => .literal (String.ofList text) :: segments

theorem length_afterPlaceholder_lt {cs before afterOpen inner rest : List Char}
    (h : Text.breakOn? opening cs = some (before, afterOpen))
    (h' : Text.breakOn? closing afterOpen = some (inner, rest)) : rest.length < cs.length := by
  have h1 := congrArg List.length (Text.breakOn?_append h)
  have h2 := congrArg List.length (Text.breakOn?_append h')
  simp only [opening, closing, List.length_append, List.length_cons] at h1 h2
  omega

/-- The segments of a text. -/
def segments (cs : List Char) : List Segment :=
  match h : Text.breakOn? opening cs with
  | none => consLiteral cs []
  | some (before, afterOpen) =>
    match h' : Text.breakOn? closing afterOpen with
    | none => consLiteral cs []
    | some (inner, rest) =>
      have := length_afterPlaceholder_lt h h'
      if Text.allBlank inner then
        consLiteral (before ++ opening ++ inner ++ closing) (segments rest)
      else consLiteral before (.binding (Binding.compile inner) :: segments rest)
termination_by cs.length

/-- The text without a placeholder's braces around the whole of it, and without outer blanks. -/
def unwrap (value : List Char) : List Char :=
  let trimmed := Text.trim value
  match Text.startsWith? opening trimmed with
  | none => trimmed
  | some rest =>
    match Text.startsWith? closing.reverse rest.reverse with
    | none => trimmed
    | some reversed =>
      let inner := reversed.reverse
      if (Text.breakOn? opening inner).isSome || (Text.breakOn? closing inner).isSome then trimmed
      else Text.trim inner

/-- The text of a segment in a scope. -/
def Segment.render (scope : Scope) : Segment → List Char
  | .literal text => text.toList
  | .binding b => (Value.display (b.eval scope)).toList

/-- The text of segments in a scope. -/
def renderSegments (scope : Scope) (segments : List Segment) : List Char :=
  segments.flatMap (Segment.render scope)

end AppletHost.Template
