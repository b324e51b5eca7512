import LogExport.Json.Reader
import LogExport.Service.Calls

/-! The body of a request that starts an export. -/

namespace LogExport

namespace ExportRequest

/-- A request of which some fields are still unread. -/
structure Draft where
  name : Option String := none
  query : Option String := none
  start : Option Stamp := none
  stop : Option Stamp := none
  windowSecs : Option Nat := none

open Syntax

def setField (k : String) (x : Syntax) (d : Draft) : Except ReadFault Draft :=
  match k with
  | "name" => return { d with name := some (← readText x) }
  | "query" => return { d with query := some (← readText x) }
  | "from" => return { d with start := some (← readStamp x) }
  | "to" => return { d with stop := some (← readStamp x) }
  | _ => return { d with windowSecs := some (← readNat x) }

def read : Reader ExportRequest := fun x => do
  let d ← readRecord ["name", "query", "from", "to", "windowSecs"] setField allPresent {} x
  return {
    name := ← required d.name
    query := ← required d.query
    start := ← required d.start
    stop := ← required d.stop
    window := .ofSecs (← required d.windowSecs) }

def ofText (s : String) : Except ReadFault ExportRequest := readAll read s

end ExportRequest

end LogExport
