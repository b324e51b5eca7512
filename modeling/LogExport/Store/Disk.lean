import LogExport.Config.Place
import LogExport.Files.Objects
import LogExport.Json.Reader
import LogExport.Store.Records
import LogExport.Toml.Document

/-! Session records where they outlive a run: a database in a directory is found
again by its place, and all others start empty. -/

namespace LogExport

structure Disk where
  tree : Tree := {}
  /-- The records of the databases in directories. -/
  databases : List (Place × Records) := []

/-- Records that are open, and the place to which changes go. -/
structure OpenRecords where
  records : Records := .empty
  place : Option Place := none

namespace DatabaseSettings

/-- The ending of the name to which a path leads. -/
def extension? (path : String) : Option String := do
  let name ← (Tree.names path).getLast?
  if name = ".." then none
  match (pieces '.' name.toList).reverse with
  | ext :: stem => if stem.all List.isEmpty && stem.length ≤ 1 then none else some (.ofList ext)
  | [] => none

/-- Whether a YAML document is a table of settings. -/
def isYamlTable (text : String) : Bool :=
  match Yaml.Document.read? text with
  | none => false
  | some d =>
    match d.root.map d.resolve with
    | none => true
    | some (.mapping _ es) => es.all fun e => (Tagged.scalarText? d e.1).isSome
    | some (.scalar _ .plain "") => true
    | some _ => false

def isJsonObject (text : String) : Bool :=
  match Json.read? text with
  | some (.object _) => true
  | _ => false

/-- Whether settings of the database can be read from a file. One that is missing
says nothing. -/
def isReadable (t : Tree) (home : Place) (path : String) : Bool :=
  let check : Option (String → Bool) :=
    match extension? path with
    | some "toml" => some Toml.isDocument
    | some "json" => some isJsonObject
    | some "yaml" => some isYamlTable
    | _ => none
  match check with
  | none => false
  | some isTable => (t.read? home path).all fun c => (Utf8.decode? c.bytes).any isTable

/-- Whether a file has the name of a manifest. -/
def isManifestName (name : String) : Bool :=
  match pieces '.' name.toList with
  | [stem, ext] => ext = "manifest".toList && !stem.isEmpty && stem.all Digits.isDigit
  | _ => false

/-- Opens the database in a directory. Files in the place of its manifest that
it has not written are in the way. -/
def openIn (d : Disk) (root : Place) (path : String) : Except StorageError OpenRecords × Disk :=
  let names := Tree.names (ObjectPath.key path)
  let place := root ++ names
  match d.databases.find? (·.1 = place) with
  | some (_, records) => (.ok ⟨records, some place⟩, d)
  | none =>
    match d.tree.make root (names ++ ["manifest"]) with
    | (none, _) => (.error (.storage "cannot open SlateDB"), d)
    | (some manifests, tree) =>
      if (tree.filesBelow manifests).any fun f => f.1.getLast?.any isManifestName then
        (.error (.storage "cannot open SlateDB"), d)
      else (.ok ⟨.empty, some place⟩, { d with tree })

/-- Opens a database: first its settings are read, then its objects are opened. -/
def openRecords (s : DatabaseSettings) (home : Place) (d : Disk) :
    Except StorageError OpenRecords × Disk :=
  match s.settingsPath.filter fun p => !isReadable d.tree home p with
  | some p => (.error (.storage ("invalid SlateDB settings in " ++ p)), d)
  | none =>
    match s.objects.openStore home d.tree with
    | (.error e, tree) => (.error e, { d with tree })
    | (.ok (.directory root), tree) => openIn { d with tree } root s.path
    | (.ok (.memory _), tree) => (.ok {}, { d with tree })
    | (.ok .bucket, tree) => (.error (.storage "cannot open SlateDB"), { d with tree })

end DatabaseSettings

namespace SessionPlace

def openRecords (p : SessionPlace) (home : Place) (d : Disk) :
    Except StorageError OpenRecords × Disk :=
  match p with
  | memory => (.ok {}, d)
  | database s => s.openRecords home d

end SessionPlace

namespace OpenRecords

/-- Makes changes, which last as long as the place. -/
def apply (o : OpenRecords) (batch : List Write) (d : Disk) : OpenRecords × Disk :=
  let o := { o with records := o.records.apply batch }
  match o.place with
  | some p => (o, { d with databases := (p, o.records) :: d.databases.filter (·.1 ≠ p) })
  | none => (o, d)

end OpenRecords

end LogExport
