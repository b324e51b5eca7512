import LogExport.Files.Gzip
import LogExport.Search.Request
import LogExport.Session.Task

/-! The search of one part: its windows newest first, each page by page until a
page is not full. Every event becomes one line of the part's file. -/

namespace LogExport

/-- A log event, as the search service gives it. -/
abbrev Event := Json

structure Download where
  session : String
  task : Task
  /-- The events of a full page. -/
  limit : Nat
  /-- The windows that are left; the first one is being searched. -/
  windows : List (Instant × Instant)
  /-- The events of the first window so far. -/
  offset : Nat
  events : List Event

namespace Download

/-- The search of a task; `none` if a bound of a window leaves the calendar. -/
def begin? (session : String) (task : Task) (limit : Nat) : Option Download :=
  (windows? task.start task.stop task.window).map fun windows =>
    { session, task, limit, windows, offset := 0, events := [] }

def request? (d : Download) : Option SearchRequest :=
  d.windows.head?.map fun (start, stop) =>
    { sessionId := d.session, query := d.task.query, start, stop, limit := d.limit,
      offset := d.offset }

/-- Takes a page. A page that is not full is the last of its window. -/
def take (d : Download) (page : List Event) : Download :=
  if page.length < d.limit then
    { d with windows := d.windows.tail, offset := 0, events := d.events ++ page }
  else { d with offset := d.offset + page.length, events := d.events ++ page }

def isDone (d : Download) : Bool := d.windows.isEmpty

def line (e : Event) : Bytes := Utf8.encode (e.text ++ "\n")

def lines (d : Download) : Bytes := d.events.flatMap line

def file (d : Download) (c : Gzip.Coder) : Bytes := c.pack d.lines

def sizes (d : Download) (c : Gzip.Coder) : Sizes := ⟨d.lines.length, (d.file c).length⟩

end Download

end LogExport
