import LogExport.Error
import LogExport.Partition.PartLength

/-! The settings of the search service and of the export engine: their values
unless told otherwise, and what is refused. -/

namespace LogExport

/-- Pacing of searches. -/
structure Pacing where
  /-- A search that succeeds takes at least this long. -/
  delay : Duration
  initialBackoff : Duration
  maxBackoff : Duration
deriving DecidableEq, Repr

/-- The search service and how often it may be asked. -/
structure SearchSettings where
  url : String := ""
  delayMillis : Nat := 100
  initialBackoffMillis : Nat := 500
  maxBackoffMillis : Nat := 30000
  timeoutMillis : Nat := 60000
deriving DecidableEq, Repr

namespace SearchSettings

def validate (s : SearchSettings) : Except ConfigFault Unit :=
  if s.url.isEmpty then .error .urlUnset
  else if s.maxBackoffMillis < s.initialBackoffMillis then
    .error (.backoffExceedsMax s.initialBackoffMillis s.maxBackoffMillis)
  else .ok ()

def pacing (s : SearchSettings) : Pacing :=
  ⟨.ofMillis s.delayMillis, .ofMillis s.initialBackoffMillis, .ofMillis s.maxBackoffMillis⟩

def timeout (s : SearchSettings) : Duration := .ofMillis s.timeoutMillis

end SearchSettings

structure ExportSettings where
  partLengthSecs : Nat := 3600
  workers : Nat := 4
  urlBase : String := ""
  pageSize : Nat := 1000
  taskQueueSize : Nat := 100000
  /-- Who may call; nobody named means everybody. -/
  allowedUsers : List String := []
deriving DecidableEq, Repr

namespace ExportSettings

def partLength (s : ExportSettings) : Except ConfigFault PartLength :=
  (PartLength.ofDuration (.ofSecs s.partLengthSecs)).mapError .length

/-- The length of parts, if all settings are acceptable. -/
def validate (s : ExportSettings) : Except ConfigFault PartLength := do
  let length ← s.partLength
  if s.workers = 0 then throw .noWorkers
  if s.urlBase.isEmpty then throw .prefixUnset
  if s.pageSize = 0 then throw .noPageSize
  if s.taskQueueSize = 0 then throw .noQueue
  return length

end ExportSettings

end LogExport
