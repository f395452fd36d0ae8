import AppletHost.Hosting.Instance
import AppletHost.Hosting.Ports

/-!
# The host

The host launches apps out of its catalog and keeps those that run, each on a port of its own. At
most one of them is active: it gets what the host is asked to do, and the viewers of the push channel
see it. A launch replaces all running apps, or in the other mode only the one of that name.
-/

namespace AppletHost.Hosting

/-- What a launch finds: the files, and what becomes of the sockets and the sandbox. -/
structure Surroundings where
  files : FileNode
  /-- A listener can be bound to the port. -/
  isBindable : Nat → Bool := fun _ => true
  /-- The port that a listener bound to a port says it has. -/
  reportedPort : Nat → Nat := id
  /-- Why a listener that was bound cannot be used. -/
  listenerFault : Option String := none
  /-- Why the sandbox cannot be started. -/
  sandboxFault : Option String := none
deriving Inhabited

/-- The host. -/
structure Host where
  catalog : Catalog
  ports : PortPool
  mode : Config.LaunchMode
  limits : Sandbox.Limits
  /-- The running apps. -/
  instances : Fields Instance := []
  /-- The name of the active app. -/
  active : Option String := none
  outlets : Outlets := {}
deriving Inhabited

/-- What a launch came to. -/
structure LaunchReport where
  name : String
  initialData : Value
  port : Nat
deriving Repr, Inhabited

/-- What is told about a running app. -/
structure InstanceSummary where
  name : String
  port : Nat
  phase : Sandbox.Phase
  isVisible : Bool
deriving DecidableEq, Repr, Inhabited

namespace Host

/-- A host with nothing running. -/
def ofSettings (s : Config.Settings) : Host :=
  { catalog := .ofSection s.apps
    ports := .ofRange s.server.renderPortBase s.server.renderPortLimit
    mode := s.apps.launchMode
    limits := s.sandbox }

/-! ## Running apps -/

/-- The running app of that name. -/
def instance? (h : Host) (name : String) : Option Instance := h.instances.get? name

/-- The active app. -/
def activeInstance? (h : Host) : Option Instance := h.active.bind h.instance?

/-- Puts a running app in the place of the one of its name. -/
def keep (h : Host) (i : Instance) : Host := { h with instances := Fields.set h.instances i.name i }

/-- What is told about the running apps, by name. -/
def summaries (h : Host) : List InstanceSummary :=
  h.instances.map fun (_, i) => ⟨i.name, i.port, i.sandbox.phase, i.isVisible⟩

/-- Ends the app of that name, if it runs. -/
def remove (h : Host) (name : String) : Host :=
  match h.instance? name with
  | none => h
  | some i =>
    { h with
      instances := Fields.erase h.instances name
      ports := h.ports.release i.port
      active := if h.active = some name then none else h.active }

/-- Ends all apps. -/
def removeAll (h : Host) : Host := (Fields.names h.instances).foldl remove h

/-- Leases a port whose listener can be used. -/
def lease (h : Host) (env : Surroundings) : Except HostError Nat × Host :=
  let (port, ports) := h.ports.lease? env.isBindable
  match port, env.listenerFault with
  | none, _ => (.error (.portsExhausted ports.base ports.stop), { h with ports })
  | some port, some reason => (.error (.socket reason), { h with ports := ports.release port })
  | some port, none => (.ok port, { h with ports })

/-- Makes an app the active one, and shows its latest render to the viewers. -/
def activate (h : Host) (i : Instance) : Host :=
  let i := i.setActive true
  { h with
    instances := Fields.set (h.instances.map fun (name, other) => (name, other.setActive false)) i.name i
    active := some i.name
    outlets := i.router.announce h.outlets }

/-- Starts an app on a leased port and makes it the active one. -/
def startOn (h : Host) (env : Surroundings) (app : AppBundle) (port : Nat) :
    Except HostError LaunchReport × Host :=
  match env.sandboxFault with
  | some reason => (.error (.sandboxFailed reason), { h with ports := h.ports.release port })
  | none =>
    let (i, outlets) := Instance.start app (env.reportedPort port) h.limits h.outlets
    (.ok ⟨app.name, i.snapshot, port⟩, { h with outlets }.activate i)

/-- Ends the apps that a launch of that name replaces. -/
def makeRoom (h : Host) (name : String) : Host :=
  match h.mode with
  | .replace => h.removeAll
  | .coexist => h.remove name

/-- Launches the app of that name. -/
def launch (h : Host) (env : Surroundings) (name : String) : Except HostError LaunchReport × Host :=
  match h.catalog.load env.files name with
  | .error e => (.error e, h)
  | .ok app =>
    match (h.makeRoom name).lease env with
    | (.error e, h) => (.error e, h)
    | (.ok port, h) => h.startOn env app port

/-- Ends the app of that name, or the active one. -/
def terminate (h : Host) (name : Option String) : Except HostError Unit × Host :=
  match name.orElse fun _ => h.active with
  | none => (.error .noActiveApp, h)
  | some name => (.ok (), h.remove name)

/-- Ends the host. -/
def shutdown (h : Host) : Host := h.removeAll

/-! ## Calling logic -/

/-- Has something done to the running app of that name. -/
def withInstance {α : Type} (h : Host) (name : String)
    (act : Instance → Outlets → α × Instance × Outlets) : Option α × Host :=
  match h.instance? name with
  | none => (none, h)
  | some i =>
    let (a, i, outlets) := act i h.outlets
    (some a, { h with outlets, instances := Fields.set h.instances name i })

/-- Calls a method of a running app. -/
def request (h : Host) (name method : String) (args : Value) :
    Option (Except Bridge.RequestError MethodOutcome) × Host :=
  h.withInstance name fun i o => i.request method args o

/-- Calls a hook of a running app. -/
def trigger (h : Host) (name : String) (hook : Sandbox.Hook) : Option Bool × Host :=
  h.withInstance name fun i o => i.trigger hook o

/-- Lets the timers of a running app fire. -/
def fire (h : Host) (name : String) (now : Nat) : Option Unit × Host :=
  h.withInstance name fun i o => ((), i.fire now o)

/-- Shows or hides a running app. -/
def setVisible (h : Host) (name : String) (isVisible : Bool) : Host :=
  (h.withInstance name fun i o => ((), { i with isVisible }, o)).2

/-- Calls a method of the active app. -/
def callActive (h : Host) (method : String) (args : Value) :
    Except HostError MethodOutcome × Host :=
  match h.active with
  | none => (.error .noActiveApp, h)
  | some name =>
    match h.request name method args with
    | (some (.ok outcome), h) => (.ok outcome, h)
    | (some (.error e), h) => (.error (.bridge e), h)
    | (none, h) => (.error .noActiveApp, h)

/-- Shows or hides the active app, and calls the hook for it. -/
def changeVisibility (h : Host) (isVisible : Bool) : Except HostError Unit × Host :=
  match h.active with
  | none => (.error .noActiveApp, h)
  | some name =>
    match (h.setVisible name isVisible).trigger name (if isVisible then .show else .hide) with
    | (some true, h) => (.ok (), h)
    | (some false, h) => (.error .sandboxDisposed, h)
    | (none, h) => (.error .noActiveApp, h)

/-- The data of the active app. -/
def refresh (h : Host) : Except HostError Value :=
  match h.activeInstance? with
  | none => .error .noActiveApp
  | some i => .ok i.snapshot

end Host

end AppletHost.Hosting
