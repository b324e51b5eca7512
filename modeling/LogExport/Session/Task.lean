import LogExport.Error
import LogExport.Session.Names

/-! The work of an export: one task for each part that is not yet uploaded.
Tasks are never stored; they follow from the session. -/

namespace LogExport

/-- The export of one part. -/
structure Task where
  part : Nat
  path : String
  query : String
  start : Instant
  stop : Instant
  window : Duration
deriving DecidableEq, Repr, Inhabited

namespace Session

def parts? (s : Session) : Option (List Partition) := partitions? s.start s.stop s.partLength

def taskOf (s : Session) (p : Partition) : Task :=
  { part := p.index, path := p.pathUnder s.pathRoot, query := s.query, start := p.start,
    stop := p.stop, window := s.window }

/-- The tasks that are left, in the order of their parts; `none` if a bound of a
part leaves the calendar. -/
def tasks? (s : Session) : Option (Except Error (List Task)) :=
  s.parts?.map fun ps =>
    if ps.length = s.partCount then
      .ok ((ps.filter fun p => s.uploaded[p.index]? != some true).map s.taskOf)
    else .error (.internal (.partCount s.id s.partCount ps.length))

end Session

end LogExport
