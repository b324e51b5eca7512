import LogExport.Json.Reader
import LogExport.Session.Record
import LogExport.Text.Utf8

/-! The stored form of a session: one JSON object with the fields in a fixed
order. Lengths of time are whole milliseconds, a half rounded up. -/

namespace LogExport

def Sizes.json (t : Sizes) : Json :=
  .object [("unpacked", .nat t.unpacked), ("packed", .nat t.packed)]

def Instant.json (t : Instant) : Json := .string t.text

namespace Session

def json (s : Session) : Json :=
  .object
    [ ("id", .string s.id),
      ("user", .string s.user),
      ("name", .string s.name),
      ("status", .string s.status.text),
      ("query", .string s.query),
      ("from", s.start.json),
      ("to", s.stop.json),
      ("window", .nat s.window.roundedMillis),
      ("partLength", .nat s.partLength.roundedMillis),
      ("batchSize", .nat s.batchSize),
      ("partIsUploaded", .array (s.uploaded.map .bool)),
      ("totalSize", s.total.json),
      ("fileStorePathPrefix", .string s.pathRoot),
      ("createdAt", s.createdAt.json),
      ("startedAt", .ofOption Instant.json s.startedAt),
      ("finishedAt", .ofOption Instant.json s.finishedAt),
      ("error", .ofOption .string s.error) ]

def text (s : Session) : String := s.json.text

def encode (s : Session) : Bytes := Utf8.encode s.text

/-- Sizes of which some are still unread. -/
structure SizesDraft where
  unpacked : Option Nat := none
  packed : Option Nat := none

/-- A session of which some fields are still unread. -/
structure Draft where
  id : Option String := none
  user : Option String := none
  name : Option String := none
  status : Option Status := none
  query : Option String := none
  start : Option Instant := none
  stop : Option Instant := none
  window : Option Duration := none
  partLength : Option Duration := none
  batchSize : Option Nat := none
  uploaded : Option (List Bool) := none
  total : Option Sizes := none
  pathRoot : Option String := none
  createdAt : Option Instant := none
  startedAt : Option Instant := none
  finishedAt : Option Instant := none
  error : Option String := none

open Syntax

def readSizes : Reader Sizes := fun x => do
  let d ← readRecord ["unpacked", "packed"]
    (fun k x (d : SizesDraft) =>
      match k with
      | "unpacked" => return { d with unpacked := some (← readNat x) }
      | _ => return { d with packed := some (← readNat x) })
    allPresent {} x
  return ⟨← required d.unpacked, ← required d.packed⟩

def statusOf (s : String) : Except ReadFault Status :=
  match Status.ofText? s with
  | some s => .ok s
  | none => .error .unexpected

/-- The word for a status, alone or as the only key of an object over `null`. -/
def readStatus : Reader Status
  | .object [(some k, x)] => do
    let s ← statusOf k
    match x with
    | .null => return s
    | x => throw x.mismatch
  | x => do statusOf (← readText x)

def fields : List String :=
  ["id", "user", "name", "status", "query", "from", "to", "window", "partLength", "batchSize",
    "partIsUploaded", "totalSize", "fileStorePathPrefix", "createdAt", "startedAt", "finishedAt",
    "error"]

def setField (k : String) (x : Syntax) (d : Draft) : Except ReadFault Draft :=
  match k with
  | "id" => return { d with id := some (← readText x) }
  | "user" => return { d with user := some (← readText x) }
  | "name" => return { d with name := some (← readText x) }
  | "status" => return { d with status := some (← readStatus x) }
  | "query" => return { d with query := some (← readText x) }
  | "from" => return { d with start := some (← readInstant x) }
  | "to" => return { d with stop := some (← readInstant x) }
  | "window" => return { d with window := some (.ofMillis (← readNat x)) }
  | "partLength" => return { d with partLength := some (.ofMillis (← readNat x)) }
  | "batchSize" => return { d with batchSize := some (← readNat x) }
  | "partIsUploaded" => return { d with uploaded := some (← readList readBool x) }
  | "totalSize" => return { d with total := some (← readSizes x) }
  | "fileStorePathPrefix" => return { d with pathRoot := some (← readText x) }
  | "createdAt" => return { d with createdAt := some (← readInstant x) }
  | "startedAt" => return { d with startedAt := ← readOption readInstant x }
  | "finishedAt" => return { d with finishedAt := ← readOption readInstant x }
  | _ => return { d with error := ← readOption readText x }

def ofDraft (d : Draft) : Except ReadFault Session :=
  return {
    id := ← required d.id
    user := ← required d.user
    name := ← required d.name
    status := ← required d.status
    query := ← required d.query
    start := ← required d.start
    stop := ← required d.stop
    window := ← required d.window
    partLength := ← required d.partLength
    batchSize := ← required d.batchSize
    uploaded := ← required d.uploaded
    total := ← required d.total
    pathRoot := ← required d.pathRoot
    createdAt := ← required d.createdAt
    startedAt := d.startedAt
    finishedAt := d.finishedAt
    error := d.error }

def read : Reader Session := fun x => do
  let d ← readRecord fields setField allPresent {} x
  ofDraft d

def ofText? (s : String) : Option Session := (readAll read s).toOption

def decode? (bs : Bytes) : Option Session := do
  let s ← Utf8.decode? bs
  ofText? s

end Session

end LogExport
