import AppletHost.Hosting.Host
import AppletHost.Push.Server

/-!
# Viewers of the host

A viewer of the push channel is told that it is connected, joins those that see the active app, and is
shown the app's latest render. What it sends are method calls for the active app.
-/

namespace AppletHost.Hosting.Host

/-- Changes the viewers. -/
def withViewers (h : Host) (f : Push.Connections → Push.Connections) : Host :=
  { h with outlets.viewers := f h.outlets.viewers }

/-- Sends a payload to one viewer. -/
def sendTo (h : Host) (id : Push.ConnectionId) (p : Push.Payload) : Host :=
  h.withViewers fun viewers => (viewers.send id (.ofPayload p h.outlets.now)).2

/-- A viewer connects: it is told so, but sees nothing yet. -/
def openViewer (h : Host) : Push.ConnectionId × Host :=
  let (id, viewers) := h.outlets.viewers.add Push.queueCapacity
  (id, { h with outlets.viewers := viewers }.sendTo id (.connection true h.outlets.now))

/-- A viewer joins those that see the active app. -/
def joinViewer (h : Host) (id : Push.ConnectionId) : Host :=
  h.withViewers fun viewers => viewers.insert id

/-- A viewer that has joined is shown the latest render of the active app. -/
def greetViewer (h : Host) (id : Push.ConnectionId) : Host :=
  match h.activeInstance? with
  | none => h
  | some i => { h with outlets := i.router.replay h.outlets id }

/-- A viewer connects, joins and is greeted, with nothing in between. -/
def connectViewer (h : Host) : Push.ConnectionId × Host :=
  let (id, h) := h.openViewer
  (id, (h.joinViewer id).greetViewer id)

/-- What comes of a method call by a viewer. -/
def answerCall (method : String) (args : Value) : StateM Host Push.MethodCallResponse := fun h =>
  match h.callActive method args with
  | (.ok outcome, h) => (.ofOutcome method outcome, h)
  | (.error e, h) => (.failure method e.message, h)

/-- A viewer sends a text. -/
def receiveText (h : Host) (id : Push.ConnectionId) (text : String) : Host :=
  let (reply, h) := ((Push.Inbound.ofText text).reply answerCall).run h
  h.sendTo id reply

/-- A viewer leaves. -/
def closeViewer (h : Host) (id : Push.ConnectionId) : Host :=
  h.withViewers fun viewers => viewers.remove id

end AppletHost.Hosting.Host
