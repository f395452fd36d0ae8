import AppletHost.Template.Render

/-!
# Renderers

A renderer keeps the template of one app in compiled form, with the source it was compiled from, and
the latest render for viewers that join late. Setting the source that is already in force compiles
nothing.
-/

namespace AppletHost

/-- What is rendered for an app without a template. -/
def placeholderTemplate : String := "<div>(no template)</div>"

/-- A render: the HTML and the data it shows. -/
structure RenderOutput where
  html : String
  data : Value
deriving Repr, Inhabited

/-- The renderer of one app. -/
structure Renderer where
  source : Option String
  template : List Template.Node
  latest : Option RenderOutput
deriving Inhabited

namespace Renderer

/-- A renderer for a template source, or for the placeholder. -/
def ofSource (source : Option String) : Renderer :=
  ⟨source, Template.compile (source.getD placeholderTemplate), none⟩

/-- Puts another template in force; tells whether it had to be compiled. -/
def setTemplate (r : Renderer) (source : String) : Bool × Renderer :=
  if r.source = some source then (false, r)
  else (true, { r with source := some source, template := Template.compile source })

/-- Renders without keeping the result. -/
def render (r : Renderer) (data : Value) : RenderOutput := ⟨Template.render r.template data, data⟩

/-- Renders and keeps the result as the latest. -/
def renderAndCache (r : Renderer) (data : Value) : RenderOutput × Renderer :=
  let output := r.render data
  (output, { r with latest := some output })

/-- Renders, hands the result to `publish`, and keeps it as the latest, all in one step. -/
def renderAndPublish {α : Type} (r : Renderer) (data : Value) (publish : RenderOutput → α) :
    α × Renderer :=
  let output := r.render data
  (publish output, { r with latest := some output })

/-- What `f` makes of the latest render. -/
def withLatest {α : Type} (r : Renderer) (f : Option RenderOutput → α) : α := f r.latest

/-- Drops the latest render. -/
def clear (r : Renderer) : Renderer := { r with latest := none }

end Renderer

end AppletHost
