import LogExport.Config.Place
import LogExport.Files.Store
import LogExport.Files.Tree

/-! Stores of objects as they are opened: in memory, in a directory, or in a
bucket elsewhere. -/

namespace LogExport

inductive ObjectStore where
  | memory (files : Files)
  | bucket
  | directory (place : Place)

namespace ObjectPlace

/-- Opens the store at a place; a directory that is missing is made. -/
def openStore (p : ObjectPlace) (home : Place) (t : Tree) : Except StorageError ObjectStore × Tree :=
  match p with
  | memory => (.ok (.memory { linkBase := "" }), t)
  | bucket _ _ => (.ok .bucket, t)
  | directory path =>
    if path.isEmpty then (.error (.storage ("cannot open " ++ p.location)), t)
    else
      match t.make (Tree.start home path) (Tree.names path) with
      | (some place, t) => (.ok (.directory place), t)
      | (none, t) => (.error (.storage ("cannot create " ++ p.location)), t)

end ObjectPlace

namespace ObjectStore

/-- How much is held back before the writing of an object begins. -/
def bufferSize : Nat := 10 * 1024 * 1024

/-- Stores an object as a file. That fails at once if there is no place for the
file, and at the end if there is a directory in its place. -/
def putFile (t : Tree) (root : Place) (path : String) (c : Content) : Except FileFault Unit × Tree :=
  let names := Tree.names (ObjectPath.key path)
  let early : FileFault := if c.size < bufferSize then .completing path "" else .upload path ""
  match names.getLast? with
  | none => (.error early, t)
  | some n =>
    match t.make root names.dropLast with
    | (none, t) => (.error early, t)
    | (some p, t) =>
      if t.isDirectory (p ++ [n]) then (.error (.completing path ""), t)
      else (.ok (), t.set (p ++ [n]) (.file c))

/-- Stores an object. -/
def put (s : ObjectStore) (t : Tree) (path : String) (c : Content) :
    Except FileFault Unit × ObjectStore × Tree :=
  match s with
  | memory files =>
    let (r, files) := files.upload path c none
    (r, memory files, t)
  | bucket => (.ok (), bucket, t)
  | directory place =>
    let (r, t) := putFile t place path c
    (r, directory place, t)

/-- The objects in the order of their keys. -/
def list (s : ObjectStore) (t : Tree) : List (Bytes × Content) :=
  match s with
  | memory files => files.list
  | bucket => []
  | directory place =>
    let found := (t.filesBelow place).foldl
      (fun (m : KeyMap Content) (names, c) => m.insert (Utf8.encode ("/".intercalate names)) c) .empty
    found.entries

end ObjectStore

end LogExport
