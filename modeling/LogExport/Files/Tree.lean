import LogExport.Files.Content
import LogExport.Text.Pieces

/-! Directories and the files in them. A place is given by the names on the way
to it from the root, and a path is followed name by name. -/

namespace LogExport

abbrev Place := List String

inductive Resident where
  | directory
  | file (c : Content)
deriving DecidableEq, Repr

/-- What is at each place other than the root. -/
structure Tree where
  entries : List (Place × Resident) := []
deriving DecidableEq, Repr

namespace Tree

def at? (t : Tree) (p : Place) : Option Resident :=
  if p.isEmpty then some .directory else (t.entries.find? (·.1 = p)).map (·.2)

/-- Puts something at a place, instead of what is there. -/
def set (t : Tree) (p : Place) (r : Resident) : Tree :=
  ⟨(p, r) :: t.entries.filter (·.1 ≠ p)⟩

def isDirectory (t : Tree) (p : Place) : Bool := t.at? p = some .directory

def isFile (t : Tree) (p : Place) : Bool := (t.at? p).any (· ≠ .directory)

/-- The content of a file. -/
def file? (t : Tree) (p : Place) : Option Content :=
  match t.at? p with
  | some (.file c) => some c
  | _ => none

/-- The names in a path. -/
def names (path : String) : List String :=
  ((pieces '/' path.toList).map String.ofList).filter fun n => !n.isEmpty && n ≠ "."

/-- Where a path starts: at the root, or at home. -/
def start (home : Place) (path : String) : Place := if path.startsWith "/" then [] else home

/-- Follows names and makes the directories that are missing. The way ends at a
file. -/
def make (t : Tree) : Place → List String → Option Place × Tree
  | p, [] => (some p, t)
  | p, n :: ns =>
    if n = ".." then make t p.dropLast ns
    else if t.isDirectory (p ++ [n]) then make t (p ++ [n]) ns
    else if t.isFile (p ++ [n]) || n.contains '\x00' then (none, t)
    else make (t.set (p ++ [n]) .directory) (p ++ [n]) ns

/-- Follows names where there is something. -/
def reach? (t : Tree) : Place → List String → Option Place
  | p, [] => some p
  | p, n :: ns =>
    if !t.isDirectory p then none
    else if n = ".." then reach? t p.dropLast ns
    else if (t.at? (p ++ [n])).isSome then reach? t (p ++ [n]) ns
    else none

/-- The content of the file to which a path leads from home. -/
def read? (t : Tree) (home : Place) (path : String) : Option Content := do
  t.file? (← t.reach? (start home path) (names path))

/-- Writes a file and the directories above it. -/
def write (t : Tree) (p : Place) (c : Content) : Tree :=
  match t.make [] p.dropLast with
  | (some _, t) => t.set p (.file c)
  | (none, t) => t

/-- The files below a place: the names on the way from there, and the contents. -/
def filesBelow (t : Tree) (p : Place) : List (List String × Content) :=
  t.entries.filterMap fun (q, r) =>
    match r with
    | .file c => if q.take p.length = p && p.length < q.length then some (q.drop p.length, c) else none
    | .directory => none

end Tree

end LogExport
