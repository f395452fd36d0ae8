import AppletHost.Template.Renderer
import Mathlib.Data.List.Induction

/-!
# A renderer that keeps nothing compiled

A renderer keeps three things: the source it was given last, what that compiles to, and the latest
render. The second follows from the first, and `Renderer.Follows` says that it does at any time: a
renderer stands for a `Recompiler`, which keeps the source alone and compiles it for every render. One
request is answered alike by both, and leaves both alike, so nothing that is asked of a renderer, in
whatever order, tells the two apart:

> `indistinguishable_from_recompiler`: the same answers, the same latest render and the same nodes
> after every request; a template is new just if it is not the one given last; and the latest render
> is that of the last request to keep one, with the template of that time.

The source of the placeholder is no exception: it is new to a renderer that was given none.
-/

namespace AppletHost

namespace Renderer

/-- What a renderer can be asked for. A publisher and a reader of the latest render make an `α` of it. -/
inductive Request (α : Type) where
  | setTemplate (source : String)
  | render (data : Value)
  | renderAndCache (data : Value)
  | renderAndPublish (data : Value) (publish : RenderOutput → α)
  | withLatest (read : Option RenderOutput → α)
  | clear

/-- What comes back. -/
inductive Answer (α : Type) where
  | compiled (anew : Bool)
  | output (output : RenderOutput)
  | made (x : α)
  | cleared

/-- What can be seen of a renderer once a request is answered. -/
structure Sight (α : Type) where
  answer : Answer α
  latest : Option RenderOutput
  nodes : List Template.Node

namespace Request

variable {α : Type}

/-- The source that is given. -/
def source? : Request α → Option String
  | setTemplate source => some source
  | _ => none

/-- The data whose render is kept. -/
def kept? : Request α → Option Value
  | renderAndCache data => some data
  | renderAndPublish data _ => some data
  | _ => none

/-- The latest render stays what it is. -/
def KeepsLatest : Request α → Prop
  | renderAndCache _ | renderAndPublish _ _ | clear => False
  | _ => True

end Request

variable {α : Type}

/-- Answers a request. -/
def serve (r : Renderer) : Request α → Answer α × Renderer
  | .setTemplate source => let (anew, r) := r.setTemplate source; (.compiled anew, r)
  | .render data => (.output (r.render data), r)
  | .renderAndCache data => let (output, r) := r.renderAndCache data; (.output output, r)
  | .renderAndPublish data publish => let (x, r) := r.renderAndPublish data publish; (.made x, r)
  | .withLatest read => (.made (r.withLatest read), r)
  | .clear => (.cleared, r.clear)

/-- The renderer after all requests. -/
def after (r : Renderer) (requests : List (Request α)) : Renderer :=
  requests.foldl (fun r request => (r.serve request).2) r

/-- What is seen after each of the requests. -/
def sights (r : Renderer) : List (Request α) → List (Sight α)
  | [] => []
  | request :: requests =>
    let served := r.serve request
    ⟨served.1, served.2.latest, served.2.template⟩ :: served.2.sights requests

end Renderer

/-! ## Compiling for every render -/

open Renderer (Request Answer Sight)

/-- The render of a source, or of the placeholder, that was not compiled before. -/
def renderAnew (source : Option String) (data : Value) : RenderOutput :=
  ⟨Template.render (Template.compile (source.getD placeholderTemplate)) data, data⟩

/-- Keeps the source that was given last, if any was, and the latest render. -/
structure Recompiler where
  given : Option String
  latest : Option RenderOutput := none

namespace Recompiler

variable {α : Type}

/-- The nodes that the source compiles to. -/
def nodes (n : Recompiler) : List Template.Node :=
  Template.compile (n.given.getD placeholderTemplate)

/-- Answers a request. -/
def serve (n : Recompiler) : Request α → Answer α × Recompiler
  | .setTemplate source => (.compiled (n.given ≠ some source), { n with given := some source })
  | .render data => (.output (renderAnew n.given data), n)
  | .renderAndCache data =>
    (.output (renderAnew n.given data), { n with latest := some (renderAnew n.given data) })
  | .renderAndPublish data publish =>
    (.made (publish (renderAnew n.given data)), { n with latest := some (renderAnew n.given data) })
  | .withLatest read => (.made (read n.latest), n)
  | .clear => (.cleared, { n with latest := none })

/-- What is kept after all requests. -/
def after (n : Recompiler) (requests : List (Request α)) : Recompiler :=
  requests.foldl (fun n request => (n.serve request).2) n

/-- What is seen after each of the requests. -/
def sights (n : Recompiler) : List (Request α) → List (Sight α)
  | [] => []
  | request :: requests =>
    let served := n.serve request
    ⟨served.1, served.2.latest, served.2.nodes⟩ :: served.2.sights requests

end Recompiler

/-! ## One request -/

namespace Renderer

variable {α : Type} {r : Renderer} {n : Recompiler}

/-- The renderer has compiled the source that was given last, and has the same latest render. -/
structure Follows (r : Renderer) (n : Recompiler) : Prop where
  source : r.source = n.given
  template : r.template = n.nodes
  latest : r.latest = n.latest

/-- At the start a renderer has compiled the source that it was given, and has rendered nothing. -/
theorem follows_ofSource (initial : Option String) : (ofSource initial).Follows ⟨initial, none⟩ :=
  ⟨rfl, rfl, rfl⟩

/-- What the renderer shows is what one that compiles anew would show. -/
theorem Follows.render (h : r.Follows n) (data : Value) : r.render data = renderAnew n.given data := by
  rw [Renderer.render, h.template]
  rfl

/-- A new source is compiled at once; the one it has already is left as it is, and the answer says
so. -/
theorem Follows.setTemplate (h : r.Follows n) (source : String) :
    (r.setTemplate source).1 = decide (n.given ≠ some source) ∧
      (r.setTemplate source).2.Follows { n with given := some source } := by
  unfold Renderer.setTemplate
  by_cases hsame : r.source = some source
  · -- what was compiled for this source is still there
    rw [if_pos hsame]
    have hgiven : n.given = some source := h.source.symm.trans hsame
    refine ⟨by simp [hgiven], hsame, ?_, h.latest⟩
    rw [h.template, Recompiler.nodes, hgiven]
    rfl
  · rw [if_neg hsame]
    have hgiven : n.given ≠ some source := fun hgiven => hsame (h.source.trans hgiven)
    exact ⟨(decide_eq_true hgiven).symm, rfl, rfl, h.latest⟩

/-- A request is answered alike, and leaves both alike: the step lemma of the comparison, one case for
each kind of request. -/
theorem Follows.serve (h : r.Follows n) (request : Request α) :
    (r.serve request).1 = (n.serve request).1 ∧
      (r.serve request).2.Follows (n.serve request).2 := by
  cases request with
  | setTemplate source =>
    obtain ⟨hanew, hfollows⟩ := h.setTemplate source
    exact ⟨congrArg Answer.compiled hanew, hfollows⟩
  | render data => exact ⟨congrArg Answer.output (h.render data), h⟩
  | renderAndCache data =>
    exact ⟨congrArg Answer.output (h.render data), h.source, h.template,
      congrArg some (h.render data)⟩
  | renderAndPublish data publish =>
    exact ⟨congrArg (fun output => Answer.made (publish output)) (h.render data), h.source,
      h.template, congrArg some (h.render data)⟩
  | withLatest read => exact ⟨congrArg (fun latest => Answer.made (read latest)) h.latest, h⟩
  | clear => exact ⟨rfl, h.source, h.template, rfl⟩

/-! ## All requests -/

/-- The run lemma: both are in the same position after any requests. -/
theorem Follows.after (h : r.Follows n) (requests : List (Request α)) :
    (r.after requests).Follows (n.after requests) := by
  induction requests generalizing r n with
  | nil => exact h
  | cons request requests ih => exact ih (h.serve request).2

theorem Follows.sights (h : r.Follows n) (requests : List (Request α)) :
    r.sights requests = n.sights requests := by
  induction requests generalizing r n with
  | nil => rfl
  | cons request requests ih =>
    obtain ⟨hanswer, hfollows⟩ := h.serve request
    simp only [Renderer.sights, Recompiler.sights, hanswer, hfollows.latest, hfollows.template,
      ih hfollows]

end Renderer

/-- The source that was given last, at the start or by a request. -/
def lastGiven {α : Type} (initial : Option String) (requests : List (Request α)) : Option String :=
  (requests.reverse.findSome? Request.source?).or initial

/-- The render was the last one to be kept, with the template in force then, and was not dropped. -/
def KeptLast {α : Type} (initial : Option String) (requests : List (Request α))
    (output : RenderOutput) : Prop :=
  ∃ before request after data, requests = before ++ request :: after ∧
    request.kept? = some data ∧ output = renderAnew (lastGiven initial before) data ∧
    ∀ later ∈ after, later.KeepsLatest

section History

variable {α : Type} {initial : Option String} {requests : List (Request α)} {request : Request α}
  {output : RenderOutput}

/-- The source in force is the last that was given. -/
theorem lastGiven_concat : lastGiven initial (requests ++ [request]) =
    request.source?.or (lastGiven initial requests) := by
  cases hsource : request.source? with
  | none => simp [lastGiven, hsource]
  | some source => simp [lastGiven, hsource]

theorem not_keptLast_nil : ¬ KeptLast initial ([] : List (Request α)) output := by
  rintro ⟨before, request, after, data, hrequests, -⟩
  exact List.append_ne_nil_of_right_ne_nil before (List.cons_ne_nil _ _) hrequests.symm

/-- Either the last request is the one that kept the render, or it did not touch it. -/
theorem keptLast_concat : KeptLast initial (requests ++ [request]) output ↔
    (∃ data, request.kept? = some data ∧ output = renderAnew (lastGiven initial requests) data) ∨
      request.KeepsLatest ∧ KeptLast initial requests output := by
  constructor
  · rintro ⟨before, first, after, data, hrequests, hkept, houtput, hlater⟩
    rcases List.eq_nil_or_concat after with rfl | ⟨after, last, rfl⟩
    · obtain ⟨rfl, hlast⟩ := List.append_inj' hrequests rfl
      cases hlast
      exact .inl ⟨data, hkept, houtput⟩
    · rw [List.concat_eq_append, ← List.cons_append, ← List.append_assoc] at hrequests
      obtain ⟨rfl, hlast⟩ := List.append_inj' hrequests rfl
      cases hlast
      rw [List.concat_eq_append, List.forall_mem_append] at hlater
      exact .inr ⟨List.forall_mem_singleton.1 hlater.2,
        before, first, after, data, rfl, hkept, houtput, hlater.1⟩
  · rintro (⟨data, hkept, houtput⟩ | ⟨hkeeps, before, first, after, data, rfl, hkept, houtput, hlater⟩)
    · exact ⟨requests, request, [], data, rfl, hkept, houtput, List.forall_mem_nil _⟩
    · refine ⟨before, first, after ++ [request], data, ?_, hkept, houtput, ?_⟩
      · rw [List.append_assoc, List.cons_append]
      · exact List.forall_mem_append.2 ⟨hlater, List.forall_mem_singleton.2 hkeeps⟩

end History

namespace Recompiler

variable {α : Type}

theorem after_concat (n : Recompiler) (requests : List (Request α)) (request : Request α) :
    n.after (requests ++ [request]) = ((n.after requests).serve request).2 := by
  rw [after, List.foldl_append]
  rfl

/-- What the plain renderer holds is the source in force. -/
theorem given_after (initial : Option String) (requests : List (Request α)) :
    (after ⟨initial, none⟩ requests).given = lastGiven initial requests := by
  induction requests using List.reverseRecOn with
  | nil => rfl
  | append_singleton requests request ih =>
    rw [after_concat, lastGiven_concat, ← ih]
    cases request <;> rfl

/-- The render that the plain renderer keeps is the last one that was to be kept, in the template that
was in force when it was made. -/
theorem latest_after (initial : Option String) (requests : List (Request α))
    (output : RenderOutput) :
    (after ⟨initial, none⟩ requests).latest = some output ↔ KeptLast initial requests output := by
  induction requests using List.reverseRecOn with
  | nil => exact iff_of_false nofun not_keptLast_nil
  | append_singleton requests request ih =>
    rw [after_concat, keptLast_concat, ← ih, ← given_after]
    cases request with
    | setTemplate | render | withLatest =>
      simp [serve, Request.kept?, Request.KeepsLatest]
    | renderAndCache | renderAndPublish =>
      simp [serve, Request.kept?, Request.KeepsLatest, eq_comm]
    | clear => simp [serve, Request.kept?, Request.KeepsLatest]

end Recompiler

namespace Renderer

/--
For every initial template and all requests: what is seen of a renderer after each of them, that is the
answer (the HTML and the data of a render, what was published or read), the latest render and the
nodes, is what is seen of one that keeps the last source given and compiles it for every render. A
template is compiled just if it is not the source given last. And the latest render is always that of
the last request to keep one since the last one to drop it, as the template in force then gives it.
-/
theorem indistinguishable_from_recompiler {α : Type} (initial : Option String)
    (requests : List (Request α)) :
    (ofSource initial).sights requests = Recompiler.sights ⟨initial, none⟩ requests ∧
    (∀ source, (((ofSource initial).after requests).setTemplate source).1 = true ↔
      lastGiven initial requests ≠ some source) ∧
    ∀ output, ((ofSource initial).after requests).latest = some output ↔
      KeptLast initial requests output := by
  have hfollows := (follows_ofSource initial).after requests
  refine ⟨(follows_ofSource initial).sights requests, fun source => ?_, fun output => ?_⟩
  · rw [(hfollows.setTemplate source).1, decide_eq_true_iff, Recompiler.given_after]
  · rw [hfollows.latest]
    exact Recompiler.latest_after initial requests output

end Renderer

end AppletHost
