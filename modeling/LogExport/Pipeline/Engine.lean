import LogExport.Config.Settings
import LogExport.Files.Store
import LogExport.Pipeline.Pool
import LogExport.Session.Store

/-! The engine: storage, files, counters and the pipelines that export
sessions. A pipeline moves in small steps. What the search service and the
file store answer is not decided here: it comes with the step. -/

namespace LogExport

/-- What the process has counted. Other than the sizes of a session, which are read
from storage and may be any, these grow by one or by what was uploaded, and do not
come to the end of a word of 64 bits. -/
structure Counters where
  started : Nat := 0
  finished : Nat := 0
  failed : Nat := 0
  cancelled : Nat := 0
  running : Nat := 0
  parts : Nat := 0
  unpacked : Nat := 0
  packed : Nat := 0
  requests : Nat := 0
  limited : Nat := 0
deriving DecidableEq, Repr, Inhabited

/-- How far a pipeline has come. -/
inductive PipelineStage where
  /-- Loads the session and lays out its tasks. -/
  | opening
  | draining (pool : Pool)
  /-- Looks whether all parts are uploaded. -/
  | closing
  | listing (s : Session) (manifest : String)
  | finishing (id : String)
  | failing (e : Error)
  | ended (r : Except Error Unit)
  /-- Ended without a result. -/
  | crashed

def PipelineStage.isEnded : PipelineStage → Bool
  | ended _ => true
  | crashed => true
  | _ => false

structure Pipeline where
  session : String
  stage : PipelineStage

structure Settings where
  partLength : PartLength
  workers : Nat
  pageSize : Nat
  /-- The room in a task queue, and the most parts that an export may have. -/
  queueSize : Nat
  allowedUsers : List String

structure Engine where
  settings : Settings
  backend : Backend
  now : Instant
  files : Files
  counters : Counters := {}
  stopping : Bool := false
  /-- All pipelines that were launched, oldest first. -/
  pipelines : List Pipeline := []

/-- What a worker is told from outside. -/
inductive Reply where
  | page (answer : Except SearchError (List Event))
  | stored
  | refused (f : FileFault)
  | crash

inductive Move where
  | feed (p : Nat)
  /-- A worker takes a step of its own. -/
  | work (p k : Nat)
  | reply (p k : Nat) (r : Reply)
  /-- The death of a worker is noticed. -/
  | report (p k : Nat)
  /-- The pipeline itself takes a step. -/
  | advance (p : Nat)
  | manifest (p : Nat) (fault : Option FileFault)
  | asked
  | limited

namespace Engine

def access {α : Type} (e : Engine) (m : Access α) : Except Error α × Engine :=
  let (r, b) := m.run.run e.backend
  (r, { e with backend := b })

def count (e : Engine) (f : Counters → Counters) : Engine := { e with counters := f e.counters }

def setStage (e : Engine) (p : Nat) (stage : PipelineStage) : Engine :=
  { e with pipelines := e.pipelines.modify p fun x => { x with stage } }

/-! ### One part -/

/-- The page size of a session, or that of the service if it has none. -/
def limitFor (e : Engine) (s : Session) : Nat :=
  if s.batchSize = 0 then e.settings.pageSize else s.batchSize

/-- Looks up the session and begins the search if it still runs. -/
def beginPart (e : Engine) (id : String) (task : Task) : PartStage × Engine :=
  let (r, e) := e.access (SessionStore.check id)
  match r with
  | .error err => (.done (.error err), e)
  | .ok s =>
    match s.status with
    | .start =>
      match Download.begin? id task (e.limitFor s) with
      | some d => (.moving d, e)
      | none => (.crashed, e)
    | .finish => (.done (.error (.internal (.finishedPart task.part id s.status.text))), e)
    | .cancel => (.done (.ok .skipped), e)
    | .fail => (.done (.ok .skipped), e)

def confirmPart (e : Engine) (id : String) (task : Task) (size : Sizes) : PartStage × Engine :=
  let (r, e) := e.access (SessionStore.confirm id task.part size)
  (.done (r.map fun _ => .uploaded size), e)

/-- What a reply makes of a part, and the files after it. -/
def movePart (files : Files) (d : Download) : Reply → Option (PartStage × Files)
  | .page (.ok events) => if d.isDone then none else some (.moving (d.take events), files)
  | .page (.error err) => if d.isDone then none else some (.done (.error (.search err)), files)
  | .stored =>
    if d.isDone then
      some (.confirming (d.sizes files.coder),
        files.put d.task.path (.ofBytes (d.file files.coder)))
    else none
  | .refused f => some (.done (.error (.fileStore f)), files)
  | .crash => some (.crashed, files)

def failSession (e : Engine) (id : String) (message : String) : Except Error Unit × Engine :=
  e.access (SessionStore.fail e.now id message)

def countFailed (e : Engine) : Engine := e.count fun c => { c with failed := c.failed + 1 }

def countFinished (e : Engine) : Engine := e.count fun c => { c with finished := c.finished + 1 }

def countUpload (e : Engine) (size : Sizes) : Engine :=
  e.count fun c =>
    { c with parts := c.parts + 1, unpacked := c.unpacked + size.unpacked,
             packed := c.packed + size.packed }

/-- What a worker makes of the result of a part. -/
def settle (e : Engine) (id : String) : Except Error PartOutcome → WorkerStage × Engine
  | .ok (.uploaded size) => (.idle, e.countUpload size)
  | .ok .skipped => (.ended .stopped, e)
  | .error err =>
    if err = .search .cancelled ∧ e.stopping then (.ended .interrupted, e)
    else
      let (r, e) := e.failSession id err.text
      (.ended (.failed err), if r.isOk then e.countFailed else e)

/-! ### Steps -/

def putWorker (e : Engine) (p k : Nat) (pool : Pool) (w : WorkerStage) : Engine :=
  e.setStage p (.draining (pool.setWorker k w))

def work? (e : Engine) (p k : Nat) : Option Engine :=
  match e.pipelines[p]? with
  | some ⟨id, .draining pool⟩ =>
    match pool.workers[k]? with
    | some .idle => (pool.receive? k).map fun pool => e.setStage p (.draining pool)
    | some (.busy task .checking) =>
      let (part, e) := e.beginPart id task
      some (e.putWorker p k pool (.busy task part))
    | some (.busy task (.confirming size)) =>
      let (part, e) := e.confirmPart id task size
      some (e.putWorker p k pool (.busy task part))
    | some (.busy _ (.done r)) =>
      let (w, e) := e.settle id r
      some (e.putWorker p k pool w)
    | _ => none
  | _ => none

def reply? (e : Engine) (p k : Nat) (r : Reply) : Option Engine :=
  match e.pipelines[p]? with
  | some ⟨_, .draining pool⟩ =>
    match pool.workers[k]? with
    | some (.busy task (.moving d)) =>
      (movePart e.files d r).map fun (part, files) =>
        { e with files }.putWorker p k pool (.busy task part)
    | _ => none
  | _ => none

def crashError : Error := .internal .workerPanicked

def report? (e : Engine) (p k : Nat) : Option Engine :=
  match e.pipelines[p]? with
  | some ⟨id, .draining pool⟩ =>
    match pool.workers[k]? with
    | some (.busy _ .crashed) =>
      let (_, e) := e.failSession id InternalFault.workerPanicked.text
      some (e.putWorker p k pool (.ended (.failed crashError)))
    | _ => none
  | _ => none

def countRunning (e : Engine) (f : Nat → Nat) : Engine :=
  e.count fun c => { c with running := f c.running }

def close (e : Engine) (p : Nat) (r : Except Error Unit) : Engine :=
  (e.countRunning (· - 1)).setStage p (.ended r)

/-- The links of all parts, newest first, each on a line of its own; `none` if a
bound of a part leaves the calendar. -/
def manifest? (files : Files) (s : Session) : Option String :=
  s.parts?.map fun ps => String.join (ps.map fun p => files.link (p.pathUnder s.pathRoot) ++ "\n")

def openSession (e : Engine) (p : Nat) (id : String) : Engine :=
  let (r, e) := (e.countRunning (· + 1)).access (SessionStore.check id)
  match r with
  | .error err => e.close p (.error err)
  | .ok s =>
    if s.status = .start then
      match s.tasks? with
      | none => e.setStage p .crashed
      | some (.error err) => e.close p (.error err)
      | some (.ok tasks) =>
        if e.settings.queueSize ≤ Pool.maxCapacity then
          e.setStage p (.draining (.ofTasks e.settings.workers e.settings.queueSize tasks))
        else e.setStage p .crashed
    else e.close p (.ok ())

/-- The step after all workers have found the queue empty. -/
def closeSession (e : Engine) (p : Nat) (id : String) : Engine :=
  let (r, e) := e.access (SessionStore.check id)
  match r with
  | .error err => e.close p (.error err)
  | .ok s =>
    if s.status = .start ∧ s.uploadedCount = s.partCount then
      match manifest? e.files s with
      | some m => e.setStage p (.listing s m)
      | none => e.setStage p .crashed
    else e.close p (.ok ())

def finishSession (e : Engine) (p : Nat) (id : String) : Engine :=
  let (r, e) := e.access (SessionStore.finish e.now id)
  match r with
  | .ok _ => e.countFinished.close p (.ok ())
  | .error err => e.setStage p (.failing err)

def recordFailure (e : Engine) (p : Nat) (id : String) (err : Error) : Engine :=
  let (r, e) := e.failSession id err.text
  match r with
  | .ok _ => e.countFailed.close p (.ok ())
  | .error err => e.close p (.error err)

def advance? (e : Engine) (p : Nat) : Option Engine :=
  match e.pipelines[p]? with
  | some ⟨id, .opening⟩ => some (e.openSession p id)
  | some ⟨_, .draining pool⟩ =>
    if pool.isOver ∧ pool.closed then
      some (if pool.isClean then e.setStage p .closing else e.close p (.ok ()))
    else none
  | some ⟨id, .closing⟩ => some (e.closeSession p id)
  | some ⟨_, .finishing id⟩ => some (e.finishSession p id)
  | some ⟨id, .failing err⟩ => some (e.recordFailure p id err)
  | _ => none

def listed? (e : Engine) (p : Nat) (fault : Option FileFault) : Option Engine :=
  match e.pipelines[p]? with
  | some ⟨_, .listing s m⟩ =>
    match fault with
    | none =>
      let files := e.files.put s.manifestPath (.ofBytes (Utf8.encode m))
      some ({ e with files }.setStage p (.finishing s.id))
    | some f => some (e.setStage p (.failing (.fileStore f)))
  | _ => none

def feed? (e : Engine) (p : Nat) : Option Engine :=
  match e.pipelines[p]? with
  | some ⟨_, .draining pool⟩ => pool.feed?.map fun pool => e.setStage p (.draining pool)
  | _ => none

/-- The engine after a move, if the move is possible. -/
def step? (e : Engine) : Move → Option Engine
  | .feed p => e.feed? p
  | .work p k => e.work? p k
  | .reply p k r => e.reply? p k r
  | .report p k => e.report? p k
  | .advance p => e.advance? p
  | .manifest p fault => e.listed? p fault
  | .asked => some (e.count fun c => { c with requests := c.requests + 1 })
  | .limited => some (e.count fun c => { c with limited := c.limited + 1 })

def launch (e : Engine) (id : String) : Engine :=
  { e with pipelines := e.pipelines ++ [⟨id, .opening⟩] }

def isIdle (e : Engine) : Bool := e.pipelines.all fun p => p.stage.isEnded

end Engine

end LogExport
