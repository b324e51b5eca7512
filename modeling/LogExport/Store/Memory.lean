import LogExport.Store.Records

/-! Storage in memory: a map of records, and the scans that were opened on it. A scan
keeps the records of its range as they were when it was opened, and gives one of them
at a time. -/

namespace LogExport

namespace KeyMap

def put (r : Records) (es : List Entry) : Records := r.apply (es.map fun e => .put e.1 e.2)

def delete (r : Records) (k : Bytes) : Records := r.apply [.delete k]

end KeyMap

structure Memory where
  records : Records := .empty
  /-- What each scan has still to give, in the order of opening. -/
  scans : List (List Entry) := []

inductive MemoryCall where
  | apply (batch : List Write)
  | put (es : List Entry)
  | delete (k : Bytes)
  | get (k : Bytes)
  | scan (range : KeyRange)
  | next (scan : Nat)
deriving DecidableEq, Repr

inductive MemoryAnswer where
  | done
  | record (e : Option Entry)
  | opened (scan : Nat)
  | panicked
deriving DecidableEq, Repr

namespace Memory

/-- What a call answers, and the storage after it. Only a range whose ends are not in
order cannot be scanned. -/
def serve (m : Memory) : MemoryCall → MemoryAnswer × Memory
  | .apply batch => (.done, { m with records := m.records.apply batch })
  | .put es => (.done, { m with records := m.records.put es })
  | .delete k => (.done, { m with records := m.records.delete k })
  | .get k => (.record ((m.records.get? k).map fun v => (k, v)), m)
  | .scan range =>
    match m.records.scan? range with
    | some es => (.opened m.scans.length, { m with scans := m.scans ++ [es] })
    | none => (.panicked, m)
  | .next i =>
    (.record (m.scans[i]?.bind List.head?), { m with scans := m.scans.modify i List.tail })

end Memory

end LogExport
