import AppletHost.Hosting.RenderServer
import AppletHost.Push.Connections

/-!
# Routing what an app tells

A router takes the events of one app's logic. New state is rendered, kept as the latest render and
sent to all that watch; a log line is written to the host's log and sent to all that watch. Event
streams get everything; viewers of the push channel, who are those of the host and not of the app,
get it while the app is the active one.
-/

namespace AppletHost.Hosting

/-- A line that an app's logic wrote to the log. -/
structure AppLogLine where
  level : LogLevel
  app : String
  text : String
deriving DecidableEq, Repr, Inhabited

/-- The level of the host's log that a level of an app is written at. -/
def hostLevel : LogLevel → LogLevel
  | .log => .info
  | level => level

/-- A value in a log line: a text as it is, all else as JSON. -/
def logText : Value → String
  | .str s => s
  | v => Json.text v

/-- The line for a log event. -/
def AppLogLine.ofEvent (app : String) (level : LogLevel) (args : List Value) : AppLogLine :=
  ⟨hostLevel level, app, " ".intercalate (args.map logText)⟩

/-- What the apps of a host share: the viewers of the push channel, and the log. -/
structure Outlets where
  viewers : Push.Connections := {}
  log : List AppLogLine := []
  /-- The time, as frames carry it. -/
  now : Int := 0
deriving Repr, Inhabited

/-- Where the events of one app go. -/
structure Router where
  app : String
  server : RenderServer
  isActive : Bool := false
deriving Inhabited

namespace Router

/-- Sends a payload to all that watch. -/
def fanOut (r : Router) (o : Outlets) (p : Push.Payload) : Router × Outlets :=
  let e := Push.Envelope.ofPayload p o.now
  ({ r with server := r.server.publish e.toJson },
    if r.isActive then { o with viewers := (o.viewers.broadcast e).2 } else o)

/-- The payload of a render. -/
def renderPayload (output : RenderOutput) : Push.Payload := .render output.html output.data

/-- Takes an event. -/
def receive (r : Router) (o : Outlets) : Event → Router × Outlets
  | .stateMutated _ snapshot _ =>
    let ((r', o), renderer) :=
      r.server.renderer.renderAndPublish snapshot fun output => r.fanOut o (renderPayload output)
    ({ r' with server.renderer := renderer }, o)
  | .logEmitted _ level args =>
    r.fanOut { o with log := o.log ++ [.ofEvent r.app level args] } (.console level args)
  | .methodRequested .. => (r, o)

/-- Takes events one after another. -/
def receiveAll (r : Router) (o : Outlets) (events : List Event) : Router × Outlets :=
  events.foldl (fun (r, o) e => r.receive o e) (r, o)

/-- The latest render. -/
def latest (r : Router) : Option RenderOutput := r.server.renderer.latest

/-- Sends the latest render to a viewer that has joined. -/
def replay (r : Router) (o : Outlets) (id : Push.ConnectionId) : Outlets :=
  r.server.renderer.withLatest fun latest =>
    match latest with
    | none => o
    | some output =>
      { o with viewers := (o.viewers.send id (.ofPayload (renderPayload output) o.now)).2 }

/-- Sends the latest render to all viewers of the push channel. -/
def announce (r : Router) (o : Outlets) : Outlets :=
  r.server.renderer.withLatest fun latest =>
    match latest with
    | none => o
    | some output =>
      { o with viewers := (o.viewers.broadcast (.ofPayload (renderPayload output) o.now)).2 }

end Router

end AppletHost.Hosting
