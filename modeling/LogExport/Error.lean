import LogExport.Time.Stamp

/-! What can go wrong, by cause, and the sentences that say so. -/

namespace LogExport

/-- A length that cannot be that of a partition. -/
inductive LengthFault where
  | zero
  | notMinutes (d : Duration)
  | notOfDay (d : Duration)
deriving DecidableEq, Repr

/-- A configuration that is refused. -/
inductive ConfigFault where
  | length (f : LengthFault)
  | urlUnset
  | backoffExceedsMax (initial max : Nat)
  | noWorkers
  | prefixUnset
  | noPageSize
  | noQueue
  | unreadable
  | malformed
  | note (text : String)
deriving DecidableEq, Repr

/-- A request that is refused. -/
inductive RequestFault where
  | emptyName
  | slashInName (name : String)
  | notBefore (start stop : Stamp)
  | windowZero
  | windowExceeds (window length : Duration)
  | tooManyParts (start stop : Instant) (parts most : Nat)
  | partOutOfRange (part : Nat) (id : String) (parts : Nat)
  | note (text : String)
deriving DecidableEq, Repr

/-- A clash with what is stored. -/
inductive ConflictFault where
  | running (id : String)
  | confirmed (part : Nat) (id : String)
  | notRestorable (id status : String)
  | note (text : String)
deriving DecidableEq, Repr

/-- A caller who is turned away. -/
inductive Denial where
  | notAllowed (user : String)
  | noCaller
  | note (text : String)
deriving DecidableEq, Repr

/-- Stored bytes that do not mean what they should. -/
inductive EncodingFault where
  | keyTooShort (size : Nat)
  | keyVersion (b : UInt8)
  | recordType (b : UInt8)
  | notSessionKey
  | idNotUtf8
  | lockNotUtf8
  | malformed
  | misfiled (session key : String)
  | note (text : String)
deriving DecidableEq, Repr

/-- A broken promise of the engine itself. -/
inductive InternalFault where
  | finishedPart (part : Nat) (id status : String)
  | partCount (id : String) (tracked yielded : Nat)
  | workerPanicked
  | binding (port : Nat)
  | note (text : String)
deriving DecidableEq, Repr

/-- Why a search was not answered. -/
inductive SearchError where
  | rateExceeded (text : String)
  | request (text : String)
  | decode (text : String)
  | cancelled
deriving DecidableEq, Repr

/-- Why the storage backend failed. -/
inductive StorageError where
  | storage (text : String)
  | internal (text : String)
deriving DecidableEq, Repr

/-- Why a file was not stored. -/
inductive FileFault where
  | upload (path text : String)
  | completing (path text : String)
  | note (text : String)
deriving DecidableEq, Repr

inductive Error where
  | config (f : ConfigFault)
  | invalidRequest (f : RequestFault)
  | conflict (f : ConflictFault)
  | permissionDenied (f : Denial)
  | notFound (id : String)
  | noActiveExport
  | alreadyTerminal (id status : String)
  | search (e : SearchError)
  | fileStore (f : FileFault)
  | storage (text : String)
  | encoding (f : EncodingFault)
  | internal (f : InternalFault)
deriving DecidableEq, Repr

def LengthFault.text : LengthFault → String
  | zero => "partition length must be positive"
  | notMinutes d => "partition length " ++ d.text ++ " is not a whole number of minutes"
  | notOfDay d => "partition length " ++ d.text ++ " does not evenly divide 24h"

def ConfigFault.text : ConfigFault → String
  | length f => f.text
  | urlUnset => "search.url must be set"
  | backoffExceedsMax i m =>
    "search.initial_backoff_ms (" ++ toString i ++ ") exceeds search.max_backoff_ms (" ++
      toString m ++ ")"
  | noWorkers => "export.workers must be positive"
  | prefixUnset => "export.url_prefix must be set"
  | noPageSize => "export.page_size must be positive"
  | noQueue => "export.task_queue_size must be positive"
  | unreadable => "Failed to read config file"
  | malformed => "Failed to parse config file"
  | note t => t

def RequestFault.text : RequestFault → String
  | emptyName => "export name must not be empty"
  | slashInName n => "export name " ++ n ++ " must not contain '/'"
  | notBefore a b => "from " ++ a.prose ++ " must be before to " ++ b.prose
  | windowZero => "window must be positive"
  | windowExceeds w l => "window " ++ w.text ++ " exceeds partition length " ++ l.text
  | tooManyParts a b n m =>
    "range " ++ a.prose ++ " to " ++ b.prose ++ " spans " ++ toString n ++
      " partitions, at most " ++ toString m ++ " are allowed"
  | partOutOfRange i id n =>
    "part " ++ toString i ++ " out of range for export " ++ id ++ " with " ++ toString n ++ " parts"
  | note t => t

def ConflictFault.text : ConflictFault → String
  | running id => "export " ++ id ++ " is already running"
  | confirmed i id => "part " ++ toString i ++ " of export " ++ id ++ " is already confirmed"
  | notRestorable id s => "export " ++ id ++ " is " ++ s ++ " and cannot be restored"
  | note t => t

def Denial.text : Denial → String
  | notAllowed u => "user " ++ u ++ " may not export logs"
  | noCaller => "authentication required"
  | note t => t

def EncodingFault.text : EncodingFault → String
  | keyTooShort n => "session key too short: " ++ toString n ++ " bytes"
  | keyVersion b => "unsupported key version: 0x" ++ Digits.hexByte false b
  | recordType b => "invalid record type: 0x" ++ Digits.hexByte false b
  | notSessionKey => "expected session key, found ActiveExport"
  | idNotUtf8 => "session id is not UTF-8"
  | lockNotUtf8 => "active export id is not UTF-8"
  | malformed => ""
  | misfiled s k => "session record " ++ s ++ " is stored under key " ++ k
  | note t => t

def InternalFault.text : InternalFault → String
  | finishedPart i id s =>
    "part " ++ toString i ++ " scheduled for session " ++ id ++ " in status " ++ s
  | partCount id n m =>
    "session " ++ id ++ " tracks " ++ toString n ++ " partitions but its range yields " ++
      toString m
  | workerPanicked => "worker panicked"
  | binding p => "binding 0.0.0.0:" ++ toString p
  | note t => t

def SearchError.text : SearchError → String
  | rateExceeded t => "rate exceeded: " ++ t
  | request t => "request failed: " ++ t
  | decode t => "invalid response: " ++ t
  | cancelled => "cancelled"

def FileFault.text : FileFault → String
  | upload p t => "upload of " ++ p ++ " failed: " ++ t
  | completing p t => "completing " ++ p ++ " failed: " ++ t
  | note t => t

namespace Error

/-- The name of the kind of error. -/
def kind : Error → String
  | config _ => "Config"
  | invalidRequest _ => "InvalidRequest"
  | conflict _ => "Conflict"
  | permissionDenied _ => "PermissionDenied"
  | notFound _ => "NotFound"
  | noActiveExport => "NoActiveExport"
  | alreadyTerminal _ _ => "AlreadyTerminal"
  | search _ => "Search"
  | fileStore _ => "FileStore"
  | storage _ => "Storage"
  | encoding _ => "Encoding"
  | internal _ => "Internal"

def text : Error → String
  | config f => "Invalid configuration: " ++ f.text
  | invalidRequest f => "Invalid request: " ++ f.text
  | conflict f => "Conflict: " ++ f.text
  | permissionDenied f => "Permission denied: " ++ f.text
  | notFound id => "Export session not found: " ++ id
  | noActiveExport => "No active export"
  | alreadyTerminal id s => "Export session " ++ id ++ " is already in terminal status " ++ s
  | search e => "Search error: " ++ e.text
  | fileStore f => "File store error: " ++ f.text
  | storage t => "Storage error: " ++ t
  | encoding .malformed => "Encoding error"
  | encoding f => "Encoding error: " ++ f.text
  | internal f => "Internal error: " ++ f.text

def ofStorage : StorageError → Error
  | .storage t => .storage t
  | .internal t => .internal (.note t)

end Error

end LogExport
