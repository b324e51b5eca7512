import LogExport.Proofs.Service.Runs
import LogExport.Server.Answer

/-! Callers who are not on the list of a service that has one. Whatever they ask, by
a call or over HTTP, the answer follows from what they asked and who they claim to
be, and the engine is left as it was. -/

namespace LogExport

/-- How a caller is turned away who is not on the list. -/
def denial : Option String → Error
  | none => .permissionDenied .noCaller
  | some u => .permissionDenied (.notAllowed u)

namespace Engine

variable {e : Engine} {user : Option String}

/-- There is a list, and the caller is not on it. -/
structure Excludes (e : Engine) (user : Option String) : Prop where
  closed : e.settings.allowedUsers ≠ []
  outside : ∀ u, user = some u → u ∉ e.settings.allowedUsers

theorem authorize_of_excludes (h : e.Excludes user) : e.authorize user = .error (denial user) := by
  have closed : e.settings.allowedUsers.isEmpty = false := by simpa using h.closed
  cases user with
  | none => simp only [authorize, closed, Bool.false_eq_true, if_false, denial]
  | some u => simp only [authorize, closed, Bool.false_eq_true, h.outside u rfl, if_false, denial]

theorem start_of_excludes (h : e.Excludes user) (r : ExportRequest) :
    e.start user r = some (.error (denial user), e) := by
  simp only [start, prepare, authorize_of_excludes h, Option.map_some]

theorem check_of_excludes (h : e.Excludes user) (id : String) :
    e.check user id = (.error (denial user), e) := by
  simp only [check, authorize_of_excludes h]

theorem cancel_of_excludes (h : e.Excludes user) (id : String) :
    e.cancel user id = (.error (denial user), e) := by
  simp only [cancel, authorize_of_excludes h]

theorem restore_of_excludes (h : e.Excludes user) (id : String) :
    e.restore user id = (.error (denial user), e) := by
  simp only [restore, authorize_of_excludes h]

theorem all_of_excludes (h : e.Excludes user) : e.all user = (.error (denial user), e) := by
  simp only [all, authorize_of_excludes h]

end Engine

/-! ### Requests over HTTP -/

/-- The answer to an id that is no text. -/
def Route.badId? (id : List Char) : Option HttpResponse :=
  if (decodeId? id).isSome then none else some (.ofText 400 "Invalid URL")

/-- The answer on a route without a call: to one who asks whether the service is
there, or for what cannot be read. -/
def Route.misread? (r : HttpRequest) : Route → Option HttpResponse
  | .start =>
    match r.exportRequest with
    | .error response => some response
    | .ok _ => none
  | .export id => badId? id
  | .cancel id => badId? id
  | .restore id => badId? id
  | .healthy => some (.ofText 200 "OK")
  | .ready => some (.ofText 200 "OK")
  | .exports => none
  | .metrics => none

namespace HttpRequest

/-- The route that a request names. -/
def route? (r : HttpRequest) : Option Route := Route.ofPath? (Route.pathOf r.target.toList)

def isHead (r : HttpRequest) : Bool := r.method == "HEAD"

/-- The head of a page has no body. -/
def shown (r : HttpRequest) (response : HttpResponse) : HttpResponse :=
  if r.isHead then { response with body := .text "" } else response

/-- Whether the method fits the route. -/
def Fits (r : HttpRequest) (route : Route) : Prop :=
  r.verb = route.verb ∨ r.isHead ∧ route.verb = .get

instance (r : HttpRequest) (route : Route) : Decidable (r.Fits route) :=
  inferInstanceAs (Decidable (_ ∨ _))

theorem Fits.isHead {r : HttpRequest} {route : Route} (fits : r.Fits route) :
    (r.method == "HEAD" && route.verb == .get) = r.isHead := by
  unfold Fits HttpRequest.isHead at *
  by_cases head : r.method = "HEAD"
  · have get : route.verb = .get := by
      -- No route has the method of such a request as its own.
      refine (fits.resolve_left fun same => ?_).2
      have other : r.verb = .other := by simp [HttpRequest.verb, head]
      rw [other] at same
      cases route <;> cases same
    rw [get, head]
    rfl
  · simp [head]

/-- The answer to a request by itself, if it leads to no call of the service. -/
def unheard? (r : HttpRequest) : Option HttpResponse :=
  match r.route? with
  | none => some (.ofText 404 "")
  | some route => if r.Fits route then (route.misread? r).map r.shown else some (.ofText 405 "")

/-- What is answered to a request from outside. -/
def refusal (r : HttpRequest) : HttpResponse :=
  r.unheard?.getD (r.shown (.ofError (denial r.caller)))

end HttpRequest

namespace Server

variable {s : Server} {r : HttpRequest} {route : Route}

/-- A call that is answered in the same way for every id. -/
theorem byId_eq {e : Engine} {id : List Char} {f : String → HttpResponse × Engine}
    {response : HttpResponse} (h : ∀ id, f id = (response, e)) :
    byId e id f = ((Route.badId? id).getD response, e) := by
  unfold byId Route.badId?
  cases Route.decodeId? id with
  | none => rfl
  | some id => exact h id

/-- On all routes but the one to the counters, a request from outside is answered
without the engine. -/
theorem run?_of_excludes (h : s.engine.Excludes r.caller) (hidden : route ≠ .metrics) :
    s.run? r route =
      some ((route.misread? r).getD (.ofError (denial r.caller)), s.engine) := by
  cases route with
  | start =>
    cases hr : r.exportRequest with
    | error response => simp only [run?, Route.misread?, hr, Option.getD_some]
    | ok request =>
      simp only [run?, Route.misread?, hr, Engine.start_of_excludes h, Option.map_some,
        HttpResponse.ofResult, Option.getD_none]
  | «export» id =>
    refine congrArg some (byId_eq fun id => ?_)
    rw [Engine.check_of_excludes h]
    rfl
  | cancel id =>
    refine congrArg some (byId_eq fun id => ?_)
    rw [Engine.cancel_of_excludes h]
    rfl
  | restore id =>
    refine congrArg some (byId_eq fun id => ?_)
    rw [Engine.restore_of_excludes h]
    rfl
  | exports =>
    simp only [run?, Engine.all_of_excludes h]
    rfl
  | metrics => exact absurd rfl hidden
  | healthy => rfl
  | ready => rfl

theorem answer_of_excludes (h : s.engine.Excludes r.caller) (hidden : r.route? ≠ some .metrics) :
    (s.answer r).1 = some r.refusal ∧ (s.answer r).2.engine = s.engine := by
  unfold HttpRequest.refusal HttpRequest.unheard?
  unfold HttpRequest.route? at *
  cases hroute : Route.ofPath? (Route.pathOf r.target.toList) with
  | none => simp [answer, hroute]
  | some route =>
    have shown : route ≠ .metrics := fun he => hidden (hroute.trans (congrArg some he))
    have run := run?_of_excludes (s := { s with http := s.http.entered }) h shown
    by_cases fits : r.Fits route
    · have head := fits.isHead
      have fits' : r.verb = route.verb ∨ r.isHead = true := fits.imp_right And.left
      simp only [answer, hroute, head, fits', fits, if_true, run]
      refine ⟨congrArg some ?_, trivial⟩
      cases route.misread? r <;> rfl
    · have fits' : ¬ (r.verb = route.verb ∨ (r.method == "HEAD" && route.verb == .get) = true) := by
        simpa [HttpRequest.Fits, HttpRequest.isHead] using fits
      simp only [answer, hroute, fits, fits', if_false, Option.getD_some, and_self]

end Server

/-! ### What happens from outside -/

/-- What a caller can do: call the service, or send a request. -/
inductive Visit where
  | start (user : Option String) (r : ExportRequest)
  | check (user : Option String) (id : String)
  | cancel (user : Option String) (id : String)
  | restore (user : Option String) (id : String)
  | all (user : Option String)
  | http (r : HttpRequest)

/-- What the caller is told. -/
inductive VisitReply where
  | start (answer : Except Error String)
  | check (answer : Except Error Overview)
  | cancel (answer : Except Error Unit)
  | restore (answer : Except Error Unit)
  | all (answer : Except Error (List Overview))
  | http (response : HttpResponse)

namespace Visit

/-- Who the caller claims to be. -/
def caller : Visit → Option String
  | start user _ => user
  | check user _ => user
  | cancel user _ => user
  | restore user _ => user
  | all user => user
  | http r => r.caller

/-- A visit by a caller who is not on the list. The counters of a service are shown
to everybody. -/
structure IsOutside (allowed : List String) (v : Visit) : Prop where
  caller : ∀ u, v.caller = some u → u ∉ allowed
  hidden : ∀ r, v = .http r → r.route? ≠ some .metrics

/-- What a visitor from outside is told: by the service, to be who may not call it,
and over HTTP the same, unless the request does not get as far. -/
def refusal : Visit → VisitReply
  | start user _ => .start (.error (denial user))
  | check user _ => .check (.error (denial user))
  | cancel user _ => .cancel (.error (denial user))
  | restore user _ => .restore (.error (denial user))
  | all user => .all (.error (denial user))
  | http r => .http r.refusal

end Visit

namespace Server

/-- A visit to a service; no reply if a moment leaves the calendar. -/
def visit (s : Server) : Visit → Option VisitReply × Server
  | .start user r =>
    match s.engine.start user r with
    | none => (none, s)
    | some (answer, engine) => (some (.start answer), { s with engine })
  | .check user id =>
    let (answer, engine) := s.engine.check user id
    (some (.check answer), { s with engine })
  | .cancel user id =>
    let (answer, engine) := s.engine.cancel user id
    (some (.cancel answer), { s with engine })
  | .restore user id =>
    let (answer, engine) := s.engine.restore user id
    (some (.restore answer), { s with engine })
  | .all user =>
    let (answer, engine) := s.engine.all user
    (some (.all answer), { s with engine })
  | .http r =>
    let (response, s) := s.answer r
    (response.map .http, s)

/-- Visits one after the other. -/
def visits (s : Server) : List Visit → List (Option VisitReply) × Server
  | [] => ([], s)
  | v :: vs =>
    let (reply, s) := s.visit v
    let (replies, s) := s.visits vs
    (reply :: replies, s)

variable {s : Server} {v : Visit}

theorem visit_of_outside (closed : s.engine.settings.allowedUsers ≠ [])
    (outside : v.IsOutside s.engine.settings.allowedUsers) :
    (s.visit v).1 = some v.refusal ∧ (s.visit v).2.engine = s.engine := by
  have h : s.engine.Excludes v.caller := ⟨closed, outside.caller⟩
  cases v with
  | start user r =>
    have refused : s.engine.start user r = _ := Engine.start_of_excludes h r
    simp only [visit, refused, Visit.refusal, Visit.caller, and_self]
  | check user id =>
    have refused : s.engine.check user id = _ := Engine.check_of_excludes h id
    simp only [visit, refused, Visit.refusal, Visit.caller, and_self]
  | cancel user id =>
    have refused : s.engine.cancel user id = _ := Engine.cancel_of_excludes h id
    simp only [visit, refused, Visit.refusal, Visit.caller, and_self]
  | restore user id =>
    have refused : s.engine.restore user id = _ := Engine.restore_of_excludes h id
    simp only [visit, refused, Visit.refusal, Visit.caller, and_self]
  | all user =>
    have refused : s.engine.all user = _ := Engine.all_of_excludes h
    simp only [visit, refused, Visit.refusal, and_self]
  | http r =>
    obtain ⟨response, same⟩ := answer_of_excludes h (outside.hidden r rfl)
    exact ⟨congrArg (Option.map VisitReply.http) response, same⟩

theorem visits_of_outside {vs : List Visit} (closed : s.engine.settings.allowedUsers ≠ [])
    (outside : ∀ v ∈ vs, v.IsOutside s.engine.settings.allowedUsers) :
    (s.visits vs).1 = vs.map (fun v => some v.refusal) ∧ (s.visits vs).2.engine = s.engine := by
  induction vs generalizing s with
  | nil => exact ⟨rfl, rfl⟩
  | cons v vs ih =>
    obtain ⟨reply, same⟩ := visit_of_outside closed (outside v List.mem_cons_self)
    rw [← same] at closed outside
    obtain ⟨replies, same'⟩ := ih closed fun w hw => outside w (List.mem_cons_of_mem v hw)
    exact ⟨congrArg₂ List.cons reply replies, same'.trans same⟩

/-- Whoever is not on the list learns nothing. Let two services have the same list,
with somebody on it, and differ in whatever else. If nobody visits who is on the
list, then
(a) both give the same replies, which follow from what was asked and by whom,
(b) over HTTP either the request does not get as far as the service, by itself, or
the reply is the service's, that it is denied,
(c) both engines are left as they were: storage and the lock in it, the counters, the
pipelines, the clock and what else they have. -/
theorem outsiders_learn_nothing (s s' : Server) (vs : List Visit)
    (closed : s.engine.settings.allowedUsers ≠ [])
    (same : s'.engine.settings.allowedUsers = s.engine.settings.allowedUsers)
    (outside : ∀ v ∈ vs, v.IsOutside s.engine.settings.allowedUsers) :
    (s.visits vs).1 = (s'.visits vs).1 ∧
    (s.visits vs).1 = vs.map (fun v => some v.refusal) ∧
    (∀ r, .http r ∈ vs → r.unheard? = some r.refusal ∨
      r.unheard? = none ∧ r.refusal = r.shown (.ofError (denial r.caller))) ∧
    (s.visits vs).2.engine = s.engine ∧ (s'.visits vs).2.engine = s'.engine := by
  obtain ⟨replies, kept⟩ := visits_of_outside closed outside
  rw [← same] at closed outside
  obtain ⟨replies', kept'⟩ := visits_of_outside closed outside
  refine ⟨replies.trans replies'.symm, replies, fun r _ => ?_, kept, kept'⟩
  unfold HttpRequest.refusal
  cases r.unheard? with
  | none => exact .inr ⟨rfl, rfl⟩
  | some response => exact .inl rfl

/-- A service that one user may call, with nothing stored. -/
def guarded : Server :=
  { engine :=
      { settings :=
          { partLength := ⟨.ofSecs 3600, Nat.succ_pos _, rfl, rfl⟩, workers := 1,
            pageSize := 1000, queueSize := 100000, allowedUsers := ["alice"] }
        backend := {}, now := Engine.newYear, files := { linkBase := "" } } }

/-- A check by nobody, a start by somebody else, and a request for all exports. -/
def strangers : List Visit :=
  [.check none Engine.auditId, .start (some "mallory") Engine.audit,
    .http { method := "GET", target := "/api/v1/exports", user := some "mallory" }]

/-- They are told the same whether or not an export is under way. -/
theorem outsiders_learn_nothing_guarded :
    let busy := (guarded.visit (.start (some "alice") Engine.audit)).2
    busy.engine.pipelines ≠ guarded.engine.pipelines ∧
    (guarded.visits strangers).1 = (busy.visits strangers).1 ∧
    (guarded.visits strangers).1 =
      [some (.check (.error (.permissionDenied .noCaller))),
        some (.start (.error (.permissionDenied (.notAllowed "mallory")))),
        some (.http (.ofError (.permissionDenied (.notAllowed "mallory"))))] ∧
    (busy.visits strangers).2.engine = busy.engine := by
  intro busy
  have same : busy.engine.settings.allowedUsers = guarded.engine.settings.allowedUsers := rfl
  have outside : ∀ v ∈ strangers, v.IsOutside guarded.engine.settings.allowedUsers := by
    intro v hv
    simp only [strangers, List.mem_cons, List.not_mem_nil, or_false] at hv
    rcases hv with rfl | rfl | rfl
    · exact ⟨nofun, nofun⟩
    · refine ⟨?_, nofun⟩
      rintro _ ⟨⟩
      decide
    · constructor
      · rintro _ ⟨⟩
        decide
      · rintro _ ⟨⟩
        decide
  obtain ⟨replies, told, -, -, kept⟩ :=
    outsiders_learn_nothing guarded busy strangers (by decide) same outside
  exact ⟨List.cons_ne_nil _ _, replies, told.trans rfl, kept⟩

end Server

end LogExport
