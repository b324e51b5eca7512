import LogExport.Session.Codec
import LogExport.Session.Key
import LogExport.Store.Backend

/-! Sessions in storage, one record each, and the lock that names the one that
may run. What changes a session is written as one batch. -/

namespace LogExport

namespace SessionStore

def ofFault {α : Type} : Except EncodingFault α → Access α
  | .ok a => return a
  | .error f => throw (.encoding f)

def decode (bs : Bytes) : Access Session :=
  match Session.decode? bs with
  | some s => return s
  | none => throw (.encoding .malformed)

/-- The session stored under an id. -/
def load (id : String) : Access Session := do
  match ← Backend.read (SessionKey.encode id) with
  | some bs => decode bs
  | none => throw (.notFound id)

/-- The id that holds the lock. -/
def holder : Access (Option String) := do
  match ← Backend.read SessionKey.lock with
  | some bs => return some (← ofFault (decodeLock bs))
  | none => return none

def putSession (s : Session) : Write := .put (SessionKey.encode s.id) s.encode

def putLock (id : String) : Write := .put SessionKey.lock (Utf8.encode id)

def dropLock : Write := .delete SessionKey.lock

/-- Fails while any session holds the lock. -/
def requireFree : Access Unit := do
  match ← holder with
  | some id => throw (.conflict (.running id))
  | none => return ()

/-- Stores a new session and takes the lock for it. -/
def start (s : Session) : Access Unit := do
  requireFree
  Backend.apply [putSession s, putLock s.id]

def check (id : String) : Access Session := load id

/-- Ends a session that still runs. The lock is released if the session holds
it, also when the session has ended before. -/
def conclude (now : Instant) (id : String) (status : Status) (error : Option String) :
    Access Unit := do
  let s ← load id
  let release := if (← holder) = some id then [dropLock] else []
  if s.status.isTerminal then
    if !release.isEmpty then Backend.apply release
    throw (.alreadyTerminal id s.status.text)
  Backend.apply (release ++ [putSession (s.ended status error now)])

def cancel (now : Instant) (id : String) : Access Unit := conclude now id .cancel none

def fail (now : Instant) (id message : String) : Access Unit := conclude now id .fail (some message)

def finish (now : Instant) (id : String) : Access Unit := conclude now id .finish none

/-- Marks a part as uploaded and adds its size to the total. -/
def confirm (id : String) (part : Nat) (size : Sizes) : Access Unit := do
  let s ← load id
  match s.uploaded[part]? with
  | none => throw (.invalidRequest (.partOutOfRange part id s.partCount))
  | some true => throw (.conflict (.confirmed part id))
  | some false => Backend.apply [putSession (s.confirm part size)]

/-- Takes the lock for an id. -/
def lock (id : String) : Access Unit := do
  requireFree
  Backend.apply [putLock id]

/-- Takes the lock for a session that has not ended, and returns it. -/
def lockForRestore (id : String) : Access Session := do
  let s ← load id
  if s.status != .start then throw (.conflict (.notRestorable id s.status.text))
  requireFree
  Backend.apply [putLock id]
  return s

/-- Clears the lock, whoever holds it. -/
def unlock : Access Unit := Backend.apply [dropLock]

def active : Access String := do
  match ← holder with
  | some id => return id
  | none => throw .noActiveExport

/-- The session in a record, which must be stored under its own id. -/
def ofEntry (e : Entry) : Access Session := do
  let key ← ofFault (SessionKey.decode e.1)
  let s ← decode e.2
  if s.id = key then return s
  throw (.encoding (.misfiled s.id key))

/-- All sessions in the order of their ids. -/
def all : Access (List Session) := do
  let es ← Backend.scan SessionKey.range
  es.mapM ofEntry

end SessionStore

end LogExport
