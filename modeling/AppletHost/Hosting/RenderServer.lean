import AppletHost.Bridge.Reply
import AppletHost.Hosting.EventStream
import AppletHost.Hosting.Http
import AppletHost.Push.Envelope
import AppletHost.Template.Renderer

/-!
# The render server of an app

Every app has a small server of its own for browsers: a page that shows the app, its style, the stream
of what it renders and logs, and a way to call its methods.
-/

namespace AppletHost.Hosting

/-- What a render server serves. -/
inductive RenderTarget where
  | page
  | events
  | style
  | call
deriving DecidableEq, Repr, Inhabited

/-- The routes of a render server. -/
def renderRoutes : List (Route RenderTarget) :=
  [⟨.get, "/", .page⟩, ⟨.get, "/events", .events⟩, ⟨.get, "/app.css", .style⟩,
    ⟨.post, "/api/callMethod", .call⟩]

/-- The page that follows the events of an app and calls the methods of what is tapped. -/
def pageLines : List String :=
  ["<!DOCTYPE html>",
    "<html>",
    "<head>",
    "<meta charset=\"utf-8\">",
    "<title>mini-app</title>",
    "<link rel=\"stylesheet\" href=\"/app.css\">",
    "</head>",
    "<body>",
    "<div id=\"app\"></div>",
    "<script>",
    "(function () \x7b",
    "  var root = document.getElementById(\"app\");",
    "  function callMethod(methodName, args) \x7b",
    "    return fetch(\"/api/callMethod\", \x7b",
    "      method: \"POST\",",
    "      headers: \x7b \"Content-Type\": \"application/json\" \x7d,",
    "      body: JSON.stringify(\x7b methodName: methodName, args: args || [] \x7d)",
    "    \x7d);",
    "  \x7d",
    "  window.callMethod = callMethod;",
    "  root.addEventListener(\"click\", function (e) \x7b",
    "    var el = e.target.closest(\"[onTap]\");",
    "    if (!el) return;",
    "    e.preventDefault();",
    "    var name = el.getAttribute(\"onTap\").replace(/\\(.*\\)$/, \"\").trim();",
    "    if (name) callMethod(name);",
    "  \x7d);",
    "  var source = new EventSource(\"/events\");",
    "  source.onmessage = function (e) \x7b",
    "    var msg = JSON.parse(e.data);",
    "    if (msg.type === \"render\") \x7b",
    "      root.innerHTML = msg.payload.html;",
    "    \x7d else if (msg.type === \"console\") \x7b",
    "      var log = console[msg.payload.level] || console.log;",
    "      log.apply(console, [\"[app]\"].concat(msg.payload.args));",
    "    \x7d",
    "  \x7d;",
    "\x7d)();",
    "</script>",
    "</body>",
    "</html>"]

/-- The response with the page. -/
def pageResponse : HttpResponse :=
  ⟨200, .plain "text/html; charset=utf-8" (String.join (pageLines.map (· ++ "\n")))⟩

/-- The response with the style of an app. -/
def styleResponse : Option String → HttpResponse
  | some style => ⟨200, .plain "text/css" style⟩
  | none => ⟨404, .plain "text/plain; charset=utf-8" "/* no app css */"⟩

/-- The response to a body that is no method call. -/
def noCallResponse : HttpResponse :=
  .ofValue 400 (.obj [("error", .str "Invalid request format")])

/-- The response to a method call; what the method came to is not told. -/
def callResponse : Except Bridge.RequestError MethodOutcome → HttpResponse
  | .ok _ => .ok (.obj [("success", .bool true)])
  | .error _ => .ofValue 500 (.obj [("error", .str "Bridge not available")])

/-- What is left to do for a request. -/
inductive RenderAction where
  | respond (response : HttpResponse)
  /-- Open a stream. -/
  | openStream
  /-- Call a method, and respond with what comes of it. -/
  | call (method : String) (args : Value)
deriving Repr, Inhabited

/-- The server of an app: its style, its renders and the streams that are sent them. -/
structure RenderServer where
  style : Option String := none
  renderer : Renderer
  streams : EventStreams := {}
  /-- The app has ended; streams end as soon as they are opened. -/
  isShut : Bool := false
deriving Inhabited

namespace RenderServer

/-- What is left to do for a request. -/
def action (s : RenderServer) (r : HttpRequest) : RenderAction :=
  match route renderRoutes r with
  | .error response => .respond response
  | .ok .page => .respond (r.respond pageResponse)
  | .ok .style => .respond (r.respond (styleResponse s.style))
  | .ok .events => .openStream
  | .ok .call =>
    match r.methodCall with
    | .error _ => .respond noCallResponse
    | .ok (method, args) => .call method args

/-- Renders and keeps the result, without telling the streams. -/
def cache (s : RenderServer) (data : Value) : RenderOutput × RenderServer :=
  let (output, renderer) := s.renderer.renderAndCache data
  (output, { s with renderer })

/-- Sends a text to the streams. -/
def publish (s : RenderServer) (text : String) : RenderServer :=
  { s with streams := s.streams.publish text }

/-- What streams are sent for a render. -/
def renderText (output : RenderOutput) (now : Int) : String :=
  (Push.Envelope.ofPayload (.render output.html output.data) now).toJson

/-- Opens a stream: the latest render and the place in the texts are taken in one step. -/
def openStream (s : RenderServer) (now : Int) : RenderServer :=
  let streams := s.renderer.withLatest fun latest =>
    s.streams.subscribe (latest.map fun output => renderText output now)
  { s with streams := if s.isShut then streams.endAll else streams }

/-- Every stream tells all that it has to tell. -/
def drain (s : RenderServer) : List (List StreamEvent) × RenderServer :=
  let (told, streams) := s.streams.drain
  (told, { s with streams })

/-- Ends the server and its streams. -/
def shutDown (s : RenderServer) : RenderServer :=
  { s with isShut := true, streams := s.streams.endAll }

end RenderServer

end AppletHost.Hosting
