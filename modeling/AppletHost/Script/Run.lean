import AppletHost.Sandbox.Session

/-!
# Runs of logic

A `Run` is what the host sees of logic that it runs, whatever language the logic is written in: what it
does next, given what it has seen so far. Logic reads and rebinds `this`, keeps to the limits on sizes,
and uses the functions of the host; there is nothing else that it can do. A run that goes on after a
refusal is one that catches the fault.

Running goes over a `Scene`. What a run has done before a fault stays done.
-/

namespace AppletHost.Script

open Sandbox (HostCall Limits Session)

/-- A run that comes to a result or a fault. -/
inductive Run (α : Type) where
  | done (a : α)
  | fault (fault : Fault)
  /-- Goes on with what `this` is bound to, if it is bound. -/
  | look (next : Option Datum → Run α)
  /-- Binds `this` to something else, if it is bound. -/
  | rebind (d : Datum) (next : Run α)
  | limits (next : Limits → Run α)
  /-- Uses a function of the host, and goes on with what that comes to. -/
  | use (call : HostCall) (next : Except Fault Datum → Run α)

/-- What a run changes: the session, and `this` if it is bound. -/
structure Scene where
  session : Session
  self : Option Datum := none
deriving Inhabited

namespace Run

variable {α β : Type}

instance : Inhabited (Run α) := ⟨.fault .tooManyOperations⟩

/-- One run after another; a fault ends both. -/
def bind : Run α → (α → Run β) → Run β
  | .done a, f => f a
  | .fault e, _ => .fault e
  | .look next, f => .look fun self => (next self).bind f
  | .rebind d next, f => .rebind d (next.bind f)
  | .limits next, f => .limits fun limits => (next limits).bind f
  | .use call next, f => .use call fun result => (next result).bind f

instance : Monad Run where
  pure := .done
  bind := bind

/-- What a run comes to, and how it leaves the scene. -/
def exec : Run α → Scene → Except Fault α × Scene
  | .done a, scene => (.ok a, scene)
  | .fault e, scene => (.error e, scene)
  | .look next, scene => (next scene.self).exec scene
  | .rebind d next, scene => next.exec { scene with self := scene.self.map fun _ => d }
  | .limits next, scene => (next scene.session.limits).exec scene
  | .use call next, scene =>
    let (result, session) := scene.session.answer call
    (next result).exec { scene with session }

/-! ## Short runs -/

/-- Ends in a fault unless there is a result. -/
def require : Except Fault α → Run α
  | .ok a => .done a
  | .error e => .fault e

/-- What `this` is bound to. -/
def self : Run Datum :=
  .look fun
    | some d => .done d
    | none => .fault .noThis

/-- Binds `this` to something else. -/
def setSelf (d : Datum) : Run Unit := .rebind d (.done ())

/-- Keeps a datum within the limits on sizes. -/
def bounded (d : Datum) : Run Datum := .limits fun limits => require (d.within limits)

/-- Uses a function of the host; a refusal ends the run. -/
def ask (call : HostCall) : Run Datum := .use call require

end Run

end AppletHost.Script
