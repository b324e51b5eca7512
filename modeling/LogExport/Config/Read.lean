import LogExport.Config.Place
import LogExport.Config.Settings

/-! All settings of the service, and how they are read. What is not written
takes its usual value, and names that are not known are passed over. -/

namespace LogExport

open Yaml

structure ServiceSettings where
  /-- Where session records are kept. -/
  sessions : SessionPlace := .database {}
  /-- Where exported files go. -/
  files : ObjectPlace := .memory
  search : SearchSettings := {}
  engine : ExportSettings := {}
deriving DecidableEq, Repr

namespace ServiceSettings

def validate (s : ServiceSettings) : Except ConfigFault PartLength := do
  s.search.validate
  s.engine.validate

/-- The entries of a section, which may be left empty. -/
def entries? (d : Document) (x : Node) : Option (List (Node × Node)) :=
  match d.resolve x with
  | .mapping _ es => some es
  | .scalar _ .plain "" => some []
  | _ => none

/-- A text, however it is written. -/
def text? (d : Document) (x : Node) : Option String := Tagged.scalarText? d x

/-- A whole number of 64 bits without sign. -/
def nat? (d : Document) (x : Node) : Option Nat :=
  match d.resolve x with
  | .scalar _ .plain s => Yaml.nat? s
  | .scalar (some "tag:yaml.org,2002:int") .literal s => Yaml.nat? s
  | _ => none

/-- Texts in a sequence, which may be left empty. -/
def texts? (d : Document) (x : Node) : Option (List String) :=
  match d.resolve x with
  | .sequence _ xs => xs.mapM (text? d)
  | .scalar _ .plain "" => some []
  | _ => none

variable {α : Type}

/-- Reads the fields of a section in the order in which they are written. None
may be written twice. -/
def readFields (d : Document) (field? : String → Option (Node → α → Option α)) :
    List String → List (Node × Node) → α → Option α
  | _, [], a => some a
  | seen, (k, v) :: es, a => do
    let name ← text? d k
    match field? name with
    | some set =>
      if seen.contains name then none
      else readFields d field? (name :: seen) es (← set v a)
    | none => readFields d field? seen es a

def readSection (d : Document) (field? : String → Option (Node → α → Option α)) (a : α) (x : Node) :
    Option α := do
  readFields d field? [] (← entries? d x) a

def searchField? (d : Document) : String → Option (Node → SearchSettings → Option SearchSettings)
  | "url" => some fun x s => do return { s with url := ← text? d x }
  | "delay_ms" => some fun x s => do return { s with delayMillis := ← nat? d x }
  | "initial_backoff_ms" => some fun x s => do return { s with initialBackoffMillis := ← nat? d x }
  | "max_backoff_ms" => some fun x s => do return { s with maxBackoffMillis := ← nat? d x }
  | "timeout_ms" => some fun x s => do return { s with timeoutMillis := ← nat? d x }
  | _ => none

def engineField? (d : Document) : String → Option (Node → ExportSettings → Option ExportSettings)
  | "part_length_secs" => some fun x s => do return { s with partLengthSecs := ← nat? d x }
  | "workers" => some fun x s => do return { s with workers := ← nat? d x }
  | "url_prefix" => some fun x s => do return { s with urlBase := ← text? d x }
  | "page_size" => some fun x s => do return { s with pageSize := ← nat? d x }
  | "task_queue_size" => some fun x s => do return { s with taskQueueSize := ← nat? d x }
  | "allowed_users" => some fun x s => do return { s with allowedUsers := ← texts? d x }
  | _ => none

/-- What stands within the settings as a whole is nested once less. -/
def field? (d : Document) : String → Option (Node → ServiceSettings → Option ServiceSettings)
  | "storage" => some fun x s => do
    return { s with sessions := ← SessionPlace.ofTagged? (← Tagged.ofNode? d (maxNesting - 1) x) }
  | "file_store" => some fun x s => do
    return { s with files := ← ObjectPlace.ofTagged? (← Tagged.ofNode? d (maxNesting - 1) x) }
  | "search" => some fun x s => do
    return { s with search := ← readSection d (searchField? d) {} x }
  | "export" => some fun x s => do
    return { s with engine := ← readSection d (engineField? d) {} x }
  | _ => none

/-- Reads the text of a file of settings. A text without a document says nothing. -/
def read? (text : String) : Option ServiceSettings := do
  let d ← Document.read? text
  match d.root with
  | some x => readSection d (field? d) {} x
  | none => return {}

/-- The settings in a file of which the text is given, if there is one. -/
def load (file : Option String) : Except ConfigFault ServiceSettings :=
  match file with
  | none => .error .unreadable
  | some text =>
    match read? text with
    | some s => .ok s
    | none => .error .malformed

end ServiceSettings

end LogExport
