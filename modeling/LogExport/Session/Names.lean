import LogExport.Partition.Cuts
import LogExport.Session.Record

/-! The names under which an export and its files are known. -/

namespace LogExport

namespace Session

/-- User, name and the millisecond of creation. -/
def idOf (user name : String) (createdAt : Instant) : String :=
  user ++ "/" ++ name ++ "_" ++ toString createdAt.millis

/-- The path under which the files of an export are stored. -/
def pathRootOf (user name : String) (createdAt : Instant) : String :=
  "exports/" ++ idOf user name createdAt

/-- The path of the list of an export's files. -/
def manifestPathUnder (root : String) : String := root ++ "/manifest.txt"

def manifestPath (s : Session) : String := manifestPathUnder s.pathRoot

end Session

/-- The path of the file that holds a partition, named by its bounds. -/
def Partition.pathUnder (root : String) (p : Partition) : String :=
  root ++ "/" ++ p.start.compact ++ "_" ++ p.stop.compact ++ ".jsonl.gz"

end LogExport
