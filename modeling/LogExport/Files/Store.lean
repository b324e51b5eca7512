import LogExport.Error
import LogExport.Files.Content
import LogExport.Files.Gzip
import LogExport.Files.Path
import LogExport.Store.KeyMap

/-! The file store: objects by key, and the links under which they are
fetched. Files are packed on their way to it. -/

namespace LogExport

structure Files where
  objects : KeyMap Content := .empty
  /-- What every link starts with. -/
  linkBase : String
  coder : Gzip.Coder := .stored
deriving Inhabited

namespace Files

/-- The bytes under which an object at a path is found. -/
def keyOf (path : String) : Bytes := Utf8.encode (ObjectPath.key path)

/-- Stores an object, in place of the one that is there. -/
def put (f : Files) (path : String) (c : Content) : Files :=
  { f with objects := f.objects.insert (keyOf path) c }

/-- Stores what a stream brings. A stream that breaks off leaves no object. -/
def upload (f : Files) (path : String) (c : Content) (failure : Option String) :
    Except FileFault Unit × Files :=
  match failure with
  | none => (.ok (), f.put path c)
  | some text => (.error (.upload path text), f)

def object? (f : Files) (path : String) : Option Content := f.objects.get? (keyOf path)

/-- The objects in the order of their keys. One whose key is empty is not shown. -/
def list (f : Files) : List (Bytes × Content) := f.objects.entries.filter fun e => !e.1.isEmpty

/-- The base without the slashes at its end. -/
def trimmedBase (base : String) : String :=
  String.ofList (base.toList.reverse.dropWhile (· == '/')).reverse

def linkUnder (base path : String) : String := trimmedBase base ++ "/" ++ path

/-- The link to the object at a path. -/
def link (f : Files) (path : String) : String := linkUnder f.linkBase path

end Files

end LogExport
