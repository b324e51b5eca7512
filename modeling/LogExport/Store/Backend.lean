import LogExport.Error
import LogExport.Store.Records

/-! Records behind calls that can fail. Failures are planned ahead: for each
kind of call a queue, whose first entry counts the calls that still succeed. -/

namespace LogExport

/-- The next failure of a kind of call, after `skip` calls without one. -/
structure Fault where
  skip : Nat
  error : StorageError
deriving DecidableEq, Repr

inductive Call where
  | get
  | scan
  | apply
deriving DecidableEq, Repr

structure FaultPlan where
  get : List Fault := []
  scan : List Fault := []
  apply : List Fault := []
deriving DecidableEq, Repr, Inhabited

namespace FaultPlan

def queue (p : FaultPlan) : Call → List Fault
  | .get => p.get
  | .scan => p.scan
  | .apply => p.apply

def setQueue (p : FaultPlan) (c : Call) (q : List Fault) : FaultPlan :=
  match c with
  | .get => { p with get := q }
  | .scan => { p with scan := q }
  | .apply => { p with apply := q }

/-- Whether the next call of a queue fails, and the queue after it. -/
def draw : List Fault → Option StorageError × List Fault
  | [] => (none, [])
  | ⟨0, e⟩ :: q => (some e, q)
  | ⟨n + 1, e⟩ :: q => (none, ⟨n, e⟩ :: q)

def add (p : FaultPlan) (c : Call) (f : Fault) : FaultPlan := p.setQueue c (p.queue c ++ [f])

end FaultPlan

structure Backend where
  records : Records := .empty
  faults : FaultPlan := {}
deriving Inhabited

/-- A computation that calls the backend. -/
abbrev Access (α : Type) := ExceptT Error (StateM Backend) α

namespace Backend

/-- Counts a call, which fails if it is that one's turn. -/
def call (c : Call) : Access Unit := do
  let b ← get
  let (fault, q) := FaultPlan.draw (b.faults.queue c)
  set { b with faults := b.faults.setQueue c q }
  match fault with
  | some e => throw (.ofStorage e)
  | none => return ()

def read (k : Bytes) : Access (Option Bytes) := do
  call .get
  return (← get).records.get? k

def scan (range : KeyRange) : Access (List Entry) := do
  call .scan
  return (← get).records.within range

/-- Makes all changes of a batch, or none if the call fails. -/
def apply (batch : List Write) : Access Unit := do
  call .apply
  modify fun b => { b with records := b.records.apply batch }

end Backend

end LogExport
