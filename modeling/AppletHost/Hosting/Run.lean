import AppletHost.Hosting.Control
import AppletHost.Hosting.Viewers

/-!
# Runs of a host

The host takes one operation after another. `Host.step` is one completed operation: of whoever
controls the host, of the logic of a running app, of a viewer, or of the clock.
-/

namespace AppletHost.Hosting

/-- An operation of a host. -/
inductive HostStep where
  | launch (env : Surroundings) (name : String)
  | terminate (name : Option String)
  | shutdown
  | setVisible (isVisible : Bool)
  | callActive (method : String) (args : Value)
  /-- A method of a running app is called, active or not. -/
  | request (name method : String) (args : Value)
  | trigger (name : String) (hook : Sandbox.Hook)
  | fire (name : String) (now : Nat)
  | connectViewer
  | receiveText (id : Push.ConnectionId) (text : String)
  /-- The writer of a viewer takes the next frame. -/
  | writeFrame (id : Push.ConnectionId)
  | closeViewer (id : Push.ConnectionId)
  | tick (now : Int)
deriving Inhabited

namespace Host

/-- One operation. -/
def step (h : Host) : HostStep → Host
  | .launch env name => (h.launch env name).2
  | .terminate name => (h.terminate name).2
  | .shutdown => h.shutdown
  | .setVisible isVisible => (h.changeVisibility isVisible).2
  | .callActive method args => (h.callActive method args).2
  | .request name method args => (h.request name method args).2
  | .trigger name hook => (h.trigger name hook).2
  | .fire name now => (h.fire name now).2
  | .connectViewer => h.connectViewer.2
  | .receiveText id text => h.receiveText id text
  | .writeFrame id => h.withViewers fun viewers => viewers.modify id (·.takeNext)
  | .closeViewer id => h.closeViewer id
  | .tick now => { h with outlets.now := now }

/-- Operations one after another. -/
def run (h : Host) (steps : List HostStep) : Host := steps.foldl step h

end Host

end AppletHost.Hosting
