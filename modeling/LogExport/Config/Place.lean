import LogExport.Config.Tagged
import LogExport.Json.Value

/-! Where objects and session records are kept. -/

namespace LogExport

open Yaml

inductive ObjectPlace where
  /-- In the memory of the program. -/
  | memory
  | bucket (region name : String)
  | directory (path : String)
deriving DecidableEq, Repr

/-- A database of records over objects. -/
structure DatabaseSettings where
  path : String := "export-sessions"
  objects : ObjectPlace := .directory ".data"
  /-- A file with settings of the database itself. -/
  settingsPath : Option String := none
deriving DecidableEq, Repr

inductive SessionPlace where
  | memory
  | database (s : DatabaseSettings)
deriving DecidableEq, Repr

namespace ObjectPlace

/-- Whether the objects outlive the program. -/
def isDurable (p : ObjectPlace) : Bool := p ≠ memory

/-- The place for a reader. -/
def location : ObjectPlace → String
  | memory => "memory://"
  | bucket region name => "s3://" ++ name ++ " (" ++ region ++ ")"
  | directory path => "file://" ++ path

/-- The place as it is written. -/
def json : ObjectPlace → Json
  | memory => .object [("type", .string "InMemory")]
  | bucket region name =>
    .object [("bucket", .string name), ("region", .string region), ("type", .string "Aws")]
  | directory path => .object [("path", .string path), ("type", .string "Local")]

def ofTagged? (t : Tagged) : Option ObjectPlace := do
  match ← t.choose? ["InMemory", "Aws", "Local"] with
  | 0 => if t.isBare then return memory else none
  | 1 =>
    let [some (.text region), some (.text name)] ← t.fields? ["region", "bucket"] | none
    return bucket region name
  | _ =>
    let [some (.text path)] ← t.fields? ["path"] | none
    return directory path

end ObjectPlace

namespace SessionPlace

def isDurable : SessionPlace → Bool
  | memory => false
  | database s => s.objects.isDurable

def backendName : SessionPlace → String
  | memory => "in-memory"
  | database _ => "slatedb"

/-- The place as it is written. -/
def json : SessionPlace → Json
  | memory => .object [("type", .string "InMemory")]
  | database s =>
    .object ([("object_store", s.objects.json), ("path", .string s.path)] ++
      (s.settingsPath.map fun p => ("settings_path", Json.string p)).toList ++
      [("type", .string "SlateDb")])

def ofTagged? (t : Tagged) : Option SessionPlace := do
  match ← t.choose? ["InMemory", "SlateDb"] with
  | 0 => if t.isBare then return memory else none
  | _ =>
    let [path, some objects, settings] ← t.fields? ["path", "object_store", "settings_path"] | none
    let path ← textOr "export-sessions" path
    let objects ← ObjectPlace.ofTagged? (← Tagged.ofValue? objects)
    let settingsPath ← optional settings
    return database { path, objects, settingsPath }
where
  textOr (s : String) : Option Value → Option String
    | none => some s
    | some (.text s) => some s
    | some _ => none
  optional : Option Value → Option (Option String)
    | none => some none
    | some .null => some none
    | some (.text s) => some (some s)
    | some _ => none

end SessionPlace

/-- How deep settings may be nested. -/
def maxNesting : Nat := 128

/-- Reads the place of objects from a text of its own. -/
def ObjectPlace.read? (text : String) : Option ObjectPlace := do
  let d ← Document.read? text
  ObjectPlace.ofTagged? (← Tagged.ofNode? d maxNesting (← d.root))

/-- Reads the place of session records from a text of its own. -/
def SessionPlace.read? (text : String) : Option SessionPlace := do
  let d ← Document.read? text
  SessionPlace.ofTagged? (← Tagged.ofNode? d maxNesting (← d.root))

end LogExport
