import AppletHost.Json.Record
import AppletHost.Json.Writer

/-!
# Requests and responses

What the services of the host see of HTTP: a method, a path, a body and whether it is sent as JSON;
a status and a body. A table of routes says which method a path takes.
-/

namespace AppletHost.Hosting

/-- Methods of requests. -/
inductive HttpMethod where
  | get
  | head
  | post
  | options
  | other (name : String)
deriving DecidableEq, Repr, Inhabited

/-- The method of that name. -/
def HttpMethod.ofName (name : String) : HttpMethod :=
  match name with
  | "GET" => .get
  | "HEAD" => .head
  | "POST" => .post
  | "OPTIONS" => .options
  | name => .other name

/-- A request. -/
structure HttpRequest where
  method : HttpMethod
  /-- The path, with the query behind it. -/
  target : String
  body : String := ""
  isJson : Bool := true
deriving DecidableEq, Repr, Inhabited

/-- The path of a request. -/
def HttpRequest.path (r : HttpRequest) : String :=
  String.ofList (r.target.toList.takeWhile fun c => c != '?' && c != '#')

/-- What a response carries. -/
inductive HttpContent where
  | nothing
  | json (v : Value)
  | plain (type content : String)
deriving Repr, Inhabited

namespace HttpContent

/-- The type of the content. -/
def type? : HttpContent → Option String
  | .nothing => none
  | .json _ => some "application/json"
  | .plain type _ => some type

/-- The text of the content. -/
def body : HttpContent → String
  | .nothing => ""
  | .json v => Json.text v
  | .plain _ content => content

end HttpContent

/-- A response. -/
structure HttpResponse where
  status : Nat
  content : HttpContent := .nothing
deriving Repr, Inhabited

namespace HttpResponse

/-- A response that carries a value. -/
def ofValue (status : Nat) (v : Value) : HttpResponse := ⟨status, .json v⟩

/-- The response to a request that went well. -/
def ok (v : Value) : HttpResponse := ofValue 200 v

end HttpResponse

/-- A path, the method it takes and what it stands for. -/
structure Route (α : Type) where
  method : HttpMethod
  path : String
  target : α
deriving Repr, Inhabited

/-- The request may take the route. A route that is got may also be asked for its head. -/
def Route.takes {α : Type} (route : Route α) (method : HttpMethod) : Bool :=
  route.method = method ∨ (route.method = .get ∧ method = .head)

/-- What a request stands for, or the response if it stands for nothing. -/
def route {α : Type} (routes : List (Route α)) (r : HttpRequest) : Except HttpResponse α :=
  match routes.find? fun route => route.path = r.path with
  | none => .error { status := 404 }
  | some route => if route.takes r.method then .ok route.target else .error { status := 405 }

/-- The response as it is sent: one to a request for a head has no content. -/
def HttpRequest.respond (r : HttpRequest) (response : HttpResponse) : HttpResponse :=
  if r.method = .head then { response with content := .nothing } else response

/-- Why the body of a request cannot be used. -/
inductive BodyFault where
  | notJson
  | malformed
  | mismatched
deriving DecidableEq, Repr, Inhabited

/-- The text of the fault. -/
def BodyFault.message : BodyFault → String
  | .notJson => "Expected request with \x60Content-Type: application/json\x60"
  | .malformed => "Failed to parse the request body as JSON"
  | .mismatched => "Failed to deserialize the JSON body into the target type"

/-- The fault of a body that is no record. -/
def BodyFault.ofRecordFault : Json.RecordFault → BodyFault
  | .malformed => .malformed
  | .mismatched => .mismatched

/-- The fields of the record in the body of a request. -/
def HttpRequest.record (r : HttpRequest) (specs : List Json.FieldSpec) : Except BodyFault Fields :=
  if r.isJson then
    match Json.record specs r.body with
    | .ok found => .ok (Fields.ofList found)
    | .error fault => .error (.ofRecordFault fault)
  else .error .notJson

/-- The fields of a method call. -/
def callSpecs : List Json.FieldSpec :=
  [{ name := "methodName", kind := .text }, { name := "args", kind := .any, fallback := some .null }]

/-- The method call in the body of a request: its method and arguments. -/
def HttpRequest.methodCall (r : HttpRequest) : Except BodyFault (String × Value) :=
  (r.record callSpecs).map fun found =>
    ((((found.get? "methodName").bind Value.str?).getD ""), (found.get? "args").getD .null)

end AppletHost.Hosting
