import AppletHost.Script.Run

/-!
# What runs do to the host

Everything here is about any `Run`, so about logic in whatever language. A run touches its session
through the functions of the host only: `Run.calls` lists the uses it makes of them, and

> `Run.exec_session`: the session afterwards is what these uses make of it, one after another.
-/

namespace AppletHost.Script

open Sandbox (HostCall Session)

namespace Run

variable {α β : Type}

/-- The functions of the host that a run uses, in order. -/
def calls : Run α → Scene → List HostCall
  | .done _, _ => []
  | .fault _, _ => []
  | .look next, scene => (next scene.self).calls scene
  | .rebind d next, scene => next.calls { scene with self := scene.self.map fun _ => d }
  | .limits next, scene => (next scene.session.limits).calls scene
  | .use call next, scene =>
    let (result, session) := scene.session.answer call
    call :: (next result).calls { scene with session }

/-- A run changes its session by its uses of the host only. -/
theorem exec_session (r : Run α) (scene : Scene) :
    (r.exec scene).2.session = (r.calls scene).foldl (fun s call => (s.answer call).2) scene.session := by
  induction r generalizing scene with
  | done a => rfl
  | fault e => rfl
  | look next ih => exact ih scene.self scene
  | rebind d next ih => exact ih _
  | limits next ih => exact ih scene.session.limits scene
  | use call next ih => exact ih _ _

/-- `this` stays bound, however a run ends, and unbound if it is not. -/
theorem exec_self_isSome (r : Run α) (scene : Scene) :
    (r.exec scene).2.self.isSome = scene.self.isSome := by
  induction r generalizing scene with
  | done a => rfl
  | fault e => rfl
  | look next ih => exact ih scene.self scene
  | rebind d next ih => exact (ih _).trans Option.isSome_map
  | limits next ih => exact ih scene.session.limits scene
  | use call next ih => exact ih _ _

/-- The second run starts where the first one ends, if that comes to a result. -/
theorem exec_bind (r : Run α) (f : α → Run β) (scene : Scene) :
    (r >>= f).exec scene =
      match (r.exec scene).1 with
      | .ok a => (f a).exec (r.exec scene).2
      | .error e => (.error e, (r.exec scene).2) := by
  show (r.bind f).exec scene = _
  induction r generalizing scene with
  | done a => rfl
  | fault e => rfl
  | look next ih => exact ih scene.self scene
  | rebind d next ih => exact ih _
  | limits next ih => exact ih scene.session.limits scene
  | use call next ih => exact ih _ _

/-- One run after another uses the host as the first one does, and then as the second one does. -/
theorem calls_bind (r : Run α) (f : α → Run β) (scene : Scene) :
    (r >>= f).calls scene = r.calls scene ++
      match (r.exec scene).1 with
      | .ok a => (f a).calls (r.exec scene).2
      | .error _ => [] := by
  show (r.bind f).calls scene = _
  induction r generalizing scene with
  | done a => rfl
  | fault e => rfl
  | look next ih => exact ih scene.self scene
  | rebind d next ih => exact ih _
  | limits next ih => exact ih scene.session.limits scene
  | use call next ih => exact congrArg (call :: ·) (ih _ _)

/-- What follows does not use the host, so the uses are those of the first run, whether it ends in a
fault or goes on. -/
theorem calls_bind_of_silent (r : Run α) {f : α → Run β} {scene : Scene}
    (hf : ∀ a scene, (f a).calls scene = []) : (r >>= f).calls scene = r.calls scene := by
  rw [calls_bind]
  cases (r.exec scene).1 with
  | ok a =>
    dsimp only
    rw [hf, List.append_nil]
  | error e => exact List.append_nil _

theorem calls_require (result : Except Fault α) (scene : Scene) :
    (require result).calls scene = [] := by
  cases result with
  | ok a => rfl
  | error e => rfl

theorem calls_self (scene : Scene) : self.calls scene = [] := by
  obtain ⟨session, self⟩ := scene
  cases self with
  | some d => rfl
  | none => rfl

/-- A use of the host that ends the run if it is refused is still one use. -/
theorem calls_ask (call : HostCall) (scene : Scene) : (ask call).calls scene = [call] := by
  show call :: (require _).calls _ = [call]
  rw [calls_require]

end Run

end AppletHost.Script
