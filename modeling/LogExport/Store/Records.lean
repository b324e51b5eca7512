import LogExport.Store.KeyMap

/-! Stored records and batches of changes to them. -/

namespace LogExport

abbrev Entry := Bytes × Bytes

abbrev Records := KeyMap Bytes

/-- One change of a batch. -/
inductive Write where
  | put (key value : Bytes)
  | delete (key : Bytes)
deriving DecidableEq, Repr

def Write.key : Write → Bytes
  | put k _ => k
  | delete k => k

namespace KeyMap

def write (r : Records) : Write → Records
  | .put k v => r.insert k v
  | .delete k => r.erase k

/-- A batch of changes, one after the other. -/
def apply (r : Records) (batch : List Write) : Records := batch.foldl write r

end KeyMap

end LogExport
