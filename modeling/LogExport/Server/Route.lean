import LogExport.Text.Percent
import LogExport.Text.Pieces

/-! The routes of the HTTP interface, and which of them a path names. -/

namespace LogExport

inductive Route where
  | start
  /-- One export, by its id as written in the path. -/
  | export (id : List Char)
  | cancel (id : List Char)
  | restore (id : List Char)
  | exports
  | metrics
  | healthy
  | ready
deriving DecidableEq, Repr

/-- The methods that requests are counted by. -/
inductive Verb where
  | get
  | post
  | other
deriving DecidableEq, Repr

def Verb.label : Verb → String
  | get => "Get"
  | post => "Post"
  | other => "Other"

namespace Route

/-- The path up to a query or a fragment. -/
def pathOf (target : List Char) : List Char := target.takeWhile fun c => c != '?' && c != '#'

/-- The route that a path names. An id is not empty and holds no slash. -/
def ofPath? (path : List Char) : Option Route :=
  match (pieces '/' path).map String.ofList with
  | ["", "api", "v1", "export"] => some start
  | ["", "api", "v1", "exports"] => some exports
  | ["", "metrics"] => some metrics
  | ["", "-", "healthy"] => some healthy
  | ["", "-", "ready"] => some ready
  | ["", "api", "v1", "export", id] => if id.isEmpty then none else some (.export id.toList)
  | ["", "api", "v1", "export", id, verb] =>
    if id.isEmpty then none
    else if verb = "cancel" then some (cancel id.toList)
    else if verb = "restore" then some (restore id.toList)
    else none
  | _ => none

def endpoint : Route → String
  | start => "/api/v1/export"
  | .export _ => "/api/v1/export/\x7bid\x7d"
  | cancel _ => "/api/v1/export/\x7bid\x7d/cancel"
  | restore _ => "/api/v1/export/\x7bid\x7d/restore"
  | exports => "/api/v1/exports"
  | metrics => "/metrics"
  | healthy => "/-/healthy"
  | ready => "/-/ready"

def verb : Route → Verb
  | start => .post
  | cancel _ => .post
  | restore _ => .post
  | _ => .get

/-- The id that a path segment stands for, if its bytes are text. -/
def decodeId? (id : List Char) : Option String := Utf8.decode? (percentDecode id)

end Route

end LogExport
