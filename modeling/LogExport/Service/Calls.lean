import LogExport.Pipeline.Engine
import LogExport.Session.Overview
import LogExport.Text.Blank

/-! What callers can ask of the service. A call checks the caller, then the
request, then changes storage, and last launches a pipeline. -/

namespace LogExport

/-- The parameters of a new export. -/
structure ExportRequest where
  name : String
  query : String
  start : Stamp
  stop : Stamp
  window : Duration
deriving DecidableEq, Repr

/-- The user that everybody is if nobody is named. -/
def anonymous : String := "anonymous"

namespace Engine

/-- An engine over stored sessions that an earlier one may have left. The lock
is cleared, and the sessions must be readable. -/
def create (s : ExportSettings) (backend : Backend) (now : Instant) (files : Files) :
    Except Error Engine × Backend :=
  match s.validate with
  | .error f => (.error (.config f), backend)
  | .ok partLength =>
    let settings : Settings :=
      { partLength, workers := s.workers, pageSize := s.pageSize, queueSize := s.taskQueueSize,
        allowedUsers := s.allowedUsers }
    let (r, e) := { settings, backend, now, files : Engine }.access do
      SessionStore.unlock
      let _ ← SessionStore.all
    (r.map fun _ => e, e.backend)

/-- Who the caller is. -/
def authorize (e : Engine) (user : Option String) : Except Error String :=
  if e.settings.allowedUsers.isEmpty then .ok anonymous
  else match user with
    | some u => if u ∈ e.settings.allowedUsers then .ok u else .error (.permissionDenied (.notAllowed u))
    | none => .error (.permissionDenied .noCaller)

/-- What is wrong with a request by itself. -/
def requestFault? (length : Duration) (r : ExportRequest) : Option RequestFault :=
  if Blank.isAllBlank r.name then some .emptyName
  else if r.name.toList.contains '/' then some (.slashInName r.name)
  else if ¬ r.start.utc < r.stop.utc then some (.notBefore r.start r.stop)
  else if r.window.isZero then some .windowZero
  else if length < r.window then some (.windowExceeds r.window length)
  else none

/-- The session of a new export. -/
def newSession (e : Engine) (user : String) (r : ExportRequest) (start stop : Instant)
    (parts : Nat) : Session :=
  { id := Session.idOf user r.name e.now
    user
    name := r.name
    status := .start
    query := r.query
    start
    stop
    window := r.window
    partLength := e.settings.partLength.length
    batchSize := e.settings.pageSize
    uploaded := List.replicate parts false
    total := .zero
    pathRoot := Session.pathRootOf user r.name e.now
    createdAt := e.now
    startedAt := some e.now
    finishedAt := none
    error := none }

/-- The session that a request asks for; `none` if a moment leaves the
calendar. -/
def prepare (e : Engine) (user : Option String) (r : ExportRequest) :
    Option (Except Error Session) :=
  match e.authorize user with
  | .error err => some (.error err)
  | .ok user =>
    match requestFault? e.settings.partLength.length r with
    | some f => some (.error (.invalidRequest f))
    | none => do
      let (start, stop) ← e.settings.partLength.normalize? r.start r.stop
      let parts ← partitionCount? start stop e.settings.partLength.length
      if e.settings.queueSize < parts then
        return .error (.invalidRequest (.tooManyParts start stop parts e.settings.queueSize))
      return .ok (e.newSession user r start stop parts)

/-- Counts a start and launches the pipeline. -/
def begin (e : Engine) (id : String) : Engine :=
  (e.count fun c => { c with started := c.started + 1 }).launch id

/-- Starts an export and gives its id; `none` if a moment leaves the calendar. -/
def start (e : Engine) (user : Option String) (r : ExportRequest) :
    Option (Except Error String × Engine) :=
  (e.prepare user r).map fun
    | .error err => (.error err, e)
    | .ok s =>
      let (done, e) := e.access (SessionStore.start s)
      match done with
      | .error err => (.error err, e)
      | .ok _ => (.ok s.id, e.begin s.id)

def overview (e : Engine) (s : Session) : Overview := ⟨s, e.files.link s.manifestPath⟩

def check (e : Engine) (user : Option String) (id : String) : Except Error Overview × Engine :=
  match e.authorize user with
  | .error err => (.error err, e)
  | .ok _ =>
    let (r, e) := e.access (SessionStore.check id)
    (r.map e.overview, e)

def cancel (e : Engine) (user : Option String) (id : String) : Except Error Unit × Engine :=
  match e.authorize user with
  | .error err => (.error err, e)
  | .ok _ =>
    let (r, e) := e.access (SessionStore.cancel e.now id)
    match r with
    | .error err => (.error err, e)
    | .ok _ => (.ok (), e.count fun c => { c with cancelled := c.cancelled + 1 })

/-- Takes up a session that was interrupted. -/
def restore (e : Engine) (user : Option String) (id : String) : Except Error Unit × Engine :=
  match e.authorize user with
  | .error err => (.error err, e)
  | .ok _ =>
    let (r, e) := e.access (SessionStore.lockForRestore id)
    match r with
    | .error err => (.error err, e)
    | .ok _ => (.ok (), e.begin id)

def all (e : Engine) (user : Option String) : Except Error (List Overview) × Engine :=
  match e.authorize user with
  | .error err => (.error err, e)
  | .ok _ =>
    let (r, e) := e.access SessionStore.all
    (r.map (·.map e.overview), e)

end Engine

end LogExport
