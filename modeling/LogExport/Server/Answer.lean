import LogExport.Server.Metrics
import LogExport.Server.StartBody

/-! How the HTTP interface answers requests: by its routes, the engine's calls
and their errors. -/

namespace LogExport

structure HttpRequest where
  method : String
  /-- The path, with a query if there is one. -/
  target : String
  user : Option String := none
  contentType : Option String := none
  body : String := ""
deriving Repr

inductive HttpBody where
  | json (j : Json)
  | text (s : String)
deriving Repr, Inhabited

structure HttpResponse where
  status : Nat
  body : HttpBody
deriving Repr, Inhabited

/-- The status that an error is answered with. -/
def Error.status : Error → Nat
  | invalidRequest _ => 400
  | permissionDenied _ => 403
  | notFound _ => 404
  | conflict _ => 409
  | alreadyTerminal _ _ => 409
  | _ => 500

def Error.body (e : Error) : Json :=
  .object [("message", .string e.text), ("status", .string "error")]

namespace HttpResponse

def ofText (status : Nat) (s : String) : HttpResponse := ⟨status, .text s⟩

def ofError (e : Error) : HttpResponse := ⟨e.status, .json e.body⟩

/-- An answer with a status of success and further members. -/
def success (status : Nat) (ms : List (String × Json)) : HttpResponse :=
  ⟨status, .json (.object (("status", .string "success") :: ms))⟩

def ofResult {α : Type} (f : α → HttpResponse) : Except Error α → HttpResponse
  | .ok a => f a
  | .error e => ofError e

end HttpResponse

namespace HttpRequest

def verb (r : HttpRequest) : Verb :=
  if r.method = "GET" then .get else if r.method = "POST" then .post else .other

/-- The caller that the request names. Text beyond plain ASCII names nobody. -/
def caller (r : HttpRequest) : Option String :=
  r.user.filter fun u => !u.isEmpty && u.toList.all fun c =>
    (0x20 ≤ c.toNat && c.toNat < 0x7f) || c == '\t'

def lower (cs : List Char) : List Char := cs.map Char.toLower

/-- Whether a content type is JSON, alone or as the syntax of another type. -/
def isJsonType (contentType : String) : Bool :=
  match pieces '/' (contentType.toList.takeWhile (· != ';')) with
  | [kind, sub] =>
    let parts := pieces '+' sub
    lower kind == "application".toList &&
      (lower (parts.headD []) == "json".toList ||
        (1 < parts.length && !(parts.headD []).isEmpty && lower (parts.getLastD []) == "json".toList))
  | _ => false

/-- The export that the request asks for, or why it cannot be read. -/
def exportRequest (r : HttpRequest) : Except HttpResponse ExportRequest :=
  if r.contentType.any isJsonType then
    match ExportRequest.ofText r.body with
    | .ok e => .ok e
    | .error .malformed => .error (.ofText 400 "Failed to parse the request body as JSON")
    | .error .unexpected =>
      .error (.ofText 422 "Failed to deserialize the JSON body into the target type")
  else .error (.ofText 415 "Expected request with \x60Content-Type: application/json\x60")

end HttpRequest

/-- The engine and the counters of its HTTP interface. -/
structure Server where
  engine : Engine
  http : HttpCounters := {}

namespace Server

/-- Runs a call that names an export. -/
def byId (e : Engine) (id : List Char) (f : String → HttpResponse × Engine) :
    HttpResponse × Engine :=
  match Route.decodeId? id with
  | some id => f id
  | none => (.ofText 400 "Invalid URL", e)

/-- Answers a request whose method fits its route; `none` if a moment leaves the
calendar. -/
def run? (s : Server) (r : HttpRequest) (route : Route) : Option (HttpResponse × Engine) :=
  let e := s.engine
  match route with
  | .start =>
    match r.exportRequest with
    | .error response => some (response, e)
    | .ok request =>
      (e.start r.caller request).map fun (a, e) =>
        (HttpResponse.ofResult (fun id => .success 202 [("id", .string id)]) a, e)
  | .export id =>
    some <| byId e id fun id =>
      let (a, e) := e.check r.caller id
      (HttpResponse.ofResult (fun o => .success 200 [("export", o.json)]) a, e)
  | .cancel id =>
    some <| byId e id fun id =>
      let (a, e) := e.cancel r.caller id
      (HttpResponse.ofResult (fun _ => .success 200 []) a, e)
  | .restore id =>
    some <| byId e id fun id =>
      let (a, e) := e.restore r.caller id
      (HttpResponse.ofResult (fun _ => .success 202 []) a, e)
  | .exports =>
    let (a, e) := e.all r.caller
    some (HttpResponse.ofResult
      (fun os => .success 200 [("exports", .array (os.map Overview.json))]) a, e)
  | .metrics =>
    some (.ofText 200 (String.join ((exposition e.counters s.http).map (· ++ "\n"))), e)
  | .healthy => some (.ofText 200 "OK", e)
  | .ready => some (.ofText 200 "OK", e)

/-- Answers a request. One that names no route is not counted. A request for
the head of a page is answered as one for the page, without the body. -/
def answer (s : Server) (r : HttpRequest) : Option HttpResponse × Server :=
  match Route.ofPath? (Route.pathOf r.target.toList) with
  | none => (some (.ofText 404 ""), s)
  | some route =>
    let s := { s with http := s.http.entered }
    let isHead := r.method == "HEAD" && route.verb == .get
    if r.verb = route.verb ∨ isHead then
      match s.run? r route with
      | none => (none, s)
      | some (response, engine) =>
        let http := s.http.answered r.verb route.endpoint response.status
        (some (if isHead then { response with body := .text "" } else response), { engine, http })
    else (some (.ofText 405 ""), { s with http := s.http.answered r.verb route.endpoint 405 })

end Server

end LogExport
