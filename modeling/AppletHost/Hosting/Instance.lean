import AppletHost.Hosting.Catalog
import AppletHost.Hosting.Router
import AppletHost.Sandbox.Actor
import AppletHost.Script.Reader

/-!
# Running apps

A running app has a sandbox for its logic, a router for what the logic tells, and a port for the render
server that is behind it. Whatever the logic is asked to do, its router takes the events that come
of it before anything else happens.
-/

namespace AppletHost.Hosting

/-- A running app. -/
structure Instance where
  name : String
  port : Nat
  sandbox : Sandbox.Actor
  router : Router
  /-- The app was last shown, not hidden. -/
  isVisible : Bool := true
deriving Inhabited

namespace Instance

/-- The app is the active one. -/
def isActive (i : Instance) : Bool := i.router.isActive

/-- The app, active or not. -/
def setActive (i : Instance) (isActive : Bool) : Instance := { i with router.isActive := isActive }

/-- The committed data. -/
def snapshot (i : Instance) : Value := i.sandbox.snapshot

/-- The latest render. -/
def latest (i : Instance) : Option RenderOutput := i.router.latest

/-- The router takes what the logic has told. -/
def settle (i : Instance) (o : Outlets) : Instance × Outlets :=
  let (events, engine) := i.sandbox.engine.takeSent
  let (router, o) := i.router.receiveAll o events
  ({ i with sandbox := { i.sandbox with engine }, router }, o)

/-- Starts an app on a port: loads its logic, and renders if the logic has told no state. -/
def start (app : AppBundle) (port : Nat) (limits : Sandbox.Limits) (o : Outlets) :
    Instance × Outlets :=
  let sandbox := (Sandbox.Actor.create app.name limits).step (.load (Script.Program.read? app.script))
  let server : RenderServer := { style := app.style, renderer := .ofSource app.template }
  let i : Instance := { name := app.name, port, sandbox, router := { app := app.name, server } }
  let (i, o) := i.settle o
  match i.latest with
  | some _ => (i, o)
  | none => ({ i with router.server := (i.router.server.cache i.snapshot).2 }, o)

/-- Calls a method over the bridge. -/
def request (i : Instance) (method : String) (args : Value) (o : Outlets) :
    Except Bridge.RequestError MethodOutcome × Instance × Outlets :=
  let (reply, sandbox) := i.sandbox.call (.request method args)
  let (i, o) := { i with sandbox }.settle o
  (match reply with
    | some (.outcome outcome) => .ok outcome
    | some (.unanswered error) => .error error
    | _ => .error (.replyDropped method), i, o)

/-- Calls a hook; tells whether the sandbox is there to do it. -/
def trigger (i : Instance) (hook : Sandbox.Hook) (o : Outlets) : Bool × Instance × Outlets :=
  let (reply, sandbox) := i.sandbox.call (.trigger hook.name .null)
  let (i, o) := { i with sandbox }.settle o
  (match reply with
    | some .triggered => true
    | _ => false, i, o)

/-- The timers that are due at `now` fire. -/
def fire (i : Instance) (now : Nat) (o : Outlets) : Instance × Outlets :=
  { i with sandbox := i.sandbox.run [.wind [now], .fire] }.settle o

/-- Answers a request to the render server. -/
def serve (i : Instance) (r : HttpRequest) (o : Outlets) : HttpResponse × Instance × Outlets :=
  match i.router.server.action r with
  | .respond response => (response, i, o)
  | .openStream =>
    ({ status := 200, content := .plain "text/event-stream" "" },
      { i with router.server := i.router.server.openStream o.now }, o)
  | .call method args =>
    let (result, i, o) := i.request method args o
    (callResponse result, i, o)

end Instance

end AppletHost.Hosting
