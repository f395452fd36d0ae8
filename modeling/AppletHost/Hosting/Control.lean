import AppletHost.Hosting.Host
import AppletHost.Push.Payload
import AppletHost.Text.Blank

/-!
# Controlling the host

The routes over which the host is asked what there is and told what to do. All of them answer in JSON;
an operation that fails answers with its error.
-/

namespace AppletHost.Hosting

/-- What the host can be asked. -/
inductive ControlTarget where
  | health
  | apps
  | launch
  | show
  | hide
  | refresh
  | current
  | terminate
  | call
deriving DecidableEq, Repr, Inhabited

/-- The routes of the host. -/
def controlRoutes : List (Route ControlTarget) :=
  [⟨.get, "/api/health", .health⟩, ⟨.get, "/api/apps", .apps⟩,
    ⟨.post, "/api/launch-app", .launch⟩, ⟨.post, "/api/show-app", .show⟩,
    ⟨.post, "/api/hide-app", .hide⟩, ⟨.post, "/api/refresh-app", .refresh⟩,
    ⟨.get, "/api/current-app", .current⟩, ⟨.post, "/api/terminate-app", .terminate⟩,
    ⟨.post, "/api/call-method", .call⟩]

/-- The response to a request that failed. -/
def failureResponse (status : Nat) (message : String) : HttpResponse :=
  .ofValue status (.obj [("error", .str message), ("success", .bool false)])

/-- The response with an error of the host. It is the caller's fault if no app is active. -/
def errorResponse (e : HostError) : HttpResponse :=
  failureResponse (if e = .noActiveApp then 400 else 500) e.message

/-- The response to a body that cannot be used. -/
def bodyResponse (fault : BodyFault) : HttpResponse := failureResponse 400 fault.message

/-- The response that tells that all went well, with some fields. -/
def successResponse (fields : List (String × Value)) : HttpResponse :=
  .ok (Value.object (("success", .bool true) :: fields))

/-- What is told about an app of the catalog. -/
def AppDescriptor.encode (d : AppDescriptor) : Value :=
  .obj [("id", .str d.id), ("name", .str d.name), ("path", .str d.path)]

/-- What is told about a running app. -/
def InstanceSummary.encode (s : InstanceSummary) : Value :=
  .obj [("name", .str s.name), ("port", .int s.port), ("state", .str s.phase.name),
    ("visible", .bool s.isVisible)]

/-- The name in the body of a request to end an app, if it has one; the body may be blank. -/
def terminated? (body : String) : Except Json.RecordFault (Option String) :=
  if body.toList.all Text.isAsciiBlank then .ok none
  else
    (Json.optionalRecord [{ name := "appName", kind := .optionalText, fallback := some .null }]
      body).map fun found => ((found.getD []).lookup "appName").bind Value.str?

namespace Host

/-- What is told about the running apps and the active one. -/
def currentApps (h : Host) : Value :=
  .obj [("apps", .arr (h.summaries.map (·.encode))),
    ("currentApp", (h.active.map Value.str).getD .null)]

/-- The response to an operation without a result. -/
def done (result : Except HostError Unit) : HttpResponse :=
  match result with
  | .ok () => successResponse []
  | .error e => errorResponse e

/-- Launches the app that the body names. -/
def serveLaunch (h : Host) (env : Surroundings) (r : HttpRequest) : HttpResponse × Host :=
  match r.record [{ name := "appName", kind := .text }] with
  | .error fault => (bodyResponse fault, h)
  | .ok found =>
    match h.launch env (((Fields.get? found "appName").bind Value.str?).getD "") with
    | (.error e, h) => (errorResponse e, h)
    | (.ok report, h) =>
      (successResponse [("appName", .str report.name), ("initialData", report.initialData),
        ("renderPort", .int report.port)], h)

/-- Ends the app that the body names, or the active one. -/
def serveTerminate (h : Host) (r : HttpRequest) : HttpResponse × Host :=
  match terminated? r.body with
  | .error _ => (failureResponse 400 "Invalid request body", h)
  | .ok name =>
    let (result, h) := h.terminate name
    (done result, h)

/-- Calls the method that the body names. A method that fails is told as well as one that does not. -/
def serveCall (h : Host) (r : HttpRequest) : HttpResponse × Host :=
  match r.methodCall with
  | .error fault => (bodyResponse fault, h)
  | .ok (method, args) =>
    match h.callActive method args with
    | (.error e, h) => (errorResponse e, h)
    | (.ok outcome, h) =>
      (.ok (Push.Payload.methodCallResponse (.ofOutcome method outcome)).encode, h)

/-- Does what a route stands for. -/
def perform (h : Host) (env : Surroundings) (r : HttpRequest) : ControlTarget → HttpResponse × Host
  | .health => (.ok (.obj [("status", .str "ok")]), h)
  | .apps => (.ok (.arr ((h.catalog.list env.files).map (·.encode))), h)
  | .launch => h.serveLaunch env r
  | .show =>
    let (result, h) := h.changeVisibility true
    (done result, h)
  | .hide =>
    let (result, h) := h.changeVisibility false
    (done result, h)
  | .refresh =>
    match h.refresh with
    | .ok data => (successResponse [("data", data)], h)
    | .error e => (errorResponse e, h)
  | .current => (.ok h.currentApps, h)
  | .terminate => h.serveTerminate r
  | .call => h.serveCall r

/-- Answers a request. A browser that asks what it may do is let in on every path. -/
def serve (h : Host) (env : Surroundings) (r : HttpRequest) : HttpResponse × Host :=
  if r.method = .options then ({ status := 200 }, h)
  else
    match route controlRoutes r with
    | .error response => (response, h)
    | .ok target =>
      let (response, h) := h.perform env r target
      (r.respond response, h)

end Host

end AppletHost.Hosting
