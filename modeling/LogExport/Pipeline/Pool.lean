import LogExport.Pipeline.Download

/-! The workers of one export and the queue that they draw their tasks from.
The queue holds a bounded number of tasks; the rest wait until there is room. -/

namespace LogExport

inductive PartOutcome where
  | uploaded (size : Sizes)
  /-- The session had already been cancelled or failed. -/
  | skipped
deriving DecidableEq, Repr

inductive PartStage where
  | checking
  | moving (d : Download)
  /-- The file is stored; the session has to be told. -/
  | confirming (size : Sizes)
  | done (r : Except Error PartOutcome)
  /-- Ended without a result. -/
  | crashed

inductive WorkerExit where
  /-- No task was left. -/
  | drained
  | stopped
  | interrupted
  | failed (e : Error)
deriving DecidableEq, Repr

inductive WorkerStage where
  | idle
  | busy (task : Task) (part : PartStage)
  | ended (exit : WorkerExit)

def WorkerStage.isEnded : WorkerStage → Bool
  | ended _ => true
  | _ => false

structure Pool where
  capacity : Nat
  /-- Tasks that are not yet in the queue. -/
  pending : List Task
  queue : List Task
  workers : List WorkerStage
  closed : Bool := false

namespace Pool

/-- The largest queue that can be made: 61 bits tell its size. The construction of a
larger one panics. -/
def maxCapacity : Nat := 2305843009213693951

/-- A pool of at least one worker, with room for at least one task. -/
def ofTasks (workers capacity : Nat) (tasks : List Task) : Pool :=
  { capacity := max 1 capacity, pending := tasks, queue := [],
    workers := List.replicate (max 1 workers) .idle }

def isOver (p : Pool) : Bool := p.workers.all WorkerStage.isEnded

def isClean (p : Pool) : Bool :=
  p.workers.all fun
    | .ended .drained => true
    | _ => false

def setWorker (p : Pool) (k : Nat) (w : WorkerStage) : Pool :=
  { p with workers := p.workers.set k w }

/-- The next task moves into the queue if there is room. The queue is closed after
the last one, and at once when no worker is left to receive. -/
def feed? (p : Pool) : Option Pool :=
  if p.closed then none
  else
    match p.pending with
    | t :: rest =>
      if p.isOver then some { p with closed := true }
      else if p.queue.length < p.capacity then
        some { p with pending := rest, queue := p.queue ++ [t] }
      else none
    | [] => some { p with closed := true }

/-- An idle worker takes the oldest task, or ends if none will come. -/
def receive? (p : Pool) (k : Nat) : Option Pool :=
  match p.queue with
  | t :: rest => some ({ p with queue := rest }.setWorker k (.busy t .checking))
  | [] => if p.closed then some (p.setWorker k (.ended .drained)) else none

end Pool

end LogExport
