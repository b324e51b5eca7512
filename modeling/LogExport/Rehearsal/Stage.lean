import LogExport.Rehearsal.Source
import LogExport.Server.Answer

/-! An engine rehearsed against a scripted search service and planned upload
failures. Pipelines run in a fixed order, each as far as it can, until all of
them have ended or wait for the search service. -/

namespace LogExport

structure Seat where
  pipeline : Nat
  worker : Nat
deriving DecidableEq, Repr

structure Stage where
  engine : Engine
  source : Source
  http : HttpCounters := {}
  /-- Uploads to a path with this in it fail with that text, once. -/
  fileFaults : List (String × String) := []
  /-- Workers whose request waits to be let through, the longest waiting first. -/
  waiting : List Seat := []
  opened : List Seat := []
  /-- The requests so far, newest first. -/
  requests : List SearchRequest := []

namespace Stage

def move (s : Stage) (m : Move) : Stage :=
  match s.engine.step? m with
  | some engine => { s with engine }
  | none => s

def useFileFault (path : String) : List (String × String) → Option FileFault × List (String × String)
  | [] => (none, [])
  | f :: fs =>
    if occursIn f.1.toList path.toList then (some (.note f.2), fs)
    else
      let (e, fs) := useFileFault path fs
      (e, f :: fs)

def forget (s : Stage) (seat : Seat) : Stage :=
  { s with waiting := s.waiting.filter (· != seat), opened := s.opened.filter (· != seat) }

/-- Gives a worker its reply. Only a page leaves its upload open. -/
def reply (s : Stage) (seat : Seat) (r : Reply) : Stage :=
  let s := s.move (.reply seat.pipeline seat.worker r)
  match r with
  | .page (.ok _) => s
  | _ => s.forget seat

/-- The upload of a worker begins, unless it has begun before; it may fail at
once. -/
def openUpload (s : Stage) (seat : Seat) (path : String) : Bool × Stage :=
  if seat ∈ s.opened then (true, s)
  else
    let (fault, fileFaults) := useFileFault path s.fileFaults
    let s := { s with fileFaults }
    match fault with
    | some f => (false, s.reply seat (.refused f))
    | none => (true, { s with opened := seat :: s.opened })

/-- The search of a worker pauses, so that its upload begins. Shutdown ends the
pause; `after` is what happens otherwise. -/
def pause (s : Stage) (seat : Seat) (path : String) (after : Stage → Stage) : Stage :=
  let (going, s) := s.openUpload seat path
  if !going then s
  else if s.engine.stopping then s.reply seat (.page (.error .cancelled))
  else after s

/-- The search service answers a worker, whose pacing may hold the answer back
or ask again. -/
def deliver (s : Stage) (seat : Seat) (path : String) (answer : Option (Except SearchError (List Event))) :
    Stage :=
  match answer, s.source.pacing with
  | none, _ => s.reply seat .crash
  | some r, none => s.reply seat (.page r)
  | some (.error (.rateExceeded _)), some _ => (s.move .limited).pause seat path id
  | some (.error e), some _ => s.reply seat (.page (.error e))
  | some (.ok page), some p =>
    if p.delay.isZero then s.reply seat (.page (.ok page))
    else s.pause seat path fun s => s.reply seat (.page (.ok page))

def answer (s : Stage) (seat : Seat) (path : String) (r : SearchRequest) : Stage :=
  let (a, source) := s.source.answer r
  { s with source }.deliver seat path a

def ask (s : Stage) (seat : Seat) (path : String) (r : SearchRequest) : Stage :=
  let s := { s with requests := r :: s.requests }
  let s := if s.source.pacing.isSome then s.move .asked else s
  match s.source.permits with
  | none => s.answer seat path r
  | some n =>
    if s.engine.stopping then s.deliver seat path (some (.error .cancelled))
    else if n = 0 then ({ s with waiting := s.waiting ++ [seat] }.openUpload seat path).2
    else { s with source := { s.source with permits := some (n - 1) } }.answer seat path r

/-- What a worker that moves a part does next, if it can. -/
def transfer? (s : Stage) (seat : Seat) (d : Download) : Option Stage :=
  match d.request? with
  | none =>
    let (going, s) := s.openUpload seat d.task.path
    some (if going then s.reply seat .stored else s)
  | some r => if seat ∈ s.waiting then none else some (s.ask seat d.task.path r)

def moved? (s : Stage) (m : Move) : Option Stage :=
  (s.engine.step? m).map fun engine => { s with engine }

def worker? (s : Stage) (seat : Seat) : WorkerStage → Option Stage
  | .ended _ => none
  | .busy _ (.moving d) => s.transfer? seat d
  | .busy _ .crashed => s.moved? (.report seat.pipeline seat.worker)
  | _ => s.moved? (.work seat.pipeline seat.worker)

/-- The first worker from `k` on that can do something. -/
def workers? (s : Stage) (p : Nat) : Nat → List WorkerStage → Option Stage
  | _, [] => none
  | k, w :: ws => (s.worker? ⟨p, k⟩ w).or (workers? s p (k + 1) ws)

def pipeline? (s : Stage) (p : Nat) (x : Pipeline) : Option Stage :=
  match x.stage with
  | .draining pool =>
    (s.moved? (.feed p)).or ((s.workers? p 0 pool.workers).or (s.moved? (.advance p)))
  | .listing session _ =>
    let (fault, fileFaults) := useFileFault session.manifestPath s.fileFaults
    some ({ s with fileFaults }.move (.manifest p fault))
  | _ => s.moved? (.advance p)

/-- The first pipeline from `p` on that can do something. -/
def pipelines? (s : Stage) : Nat → List Pipeline → Option Stage
  | _, [] => none
  | p, x :: xs => (s.pipeline? p x).or (pipelines? s (p + 1) xs)

def next? (s : Stage) : Option Stage := s.pipelines? 0 s.engine.pipelines

def settleWithin : Nat → Stage → Stage
  | 0, s => s
  | fuel + 1, s =>
    match s.next? with
    | some s => settleWithin fuel s
    | none => s

/-- The most steps between two calls. -/
def patience : Nat := 10000000

def settle (s : Stage) : Stage := settleWithin patience s

/-! ### Waiting requests -/

def download? (s : Stage) (seat : Seat) : Option Download := do
  let x ← s.engine.pipelines[seat.pipeline]?
  match x.stage with
  | .draining pool =>
    match pool.workers[seat.worker]? with
    | some (.busy _ (.moving d)) => some d
    | _ => none
  | _ => none

/-- Ends the wait of the longest waiting request, if there is one. -/
def release (s : Stage) (f : Stage → Seat → String → SearchRequest → Stage) : Stage :=
  match s.waiting with
  | [] => s
  | seat :: waiting =>
    let s := { s with waiting }
    match s.download? seat with
    | some d =>
      match d.request? with
      | some r => f s seat d.task.path r
      | none => s
    | none => s

def permit (s : Stage) : Stage := (s.release answer).settle

def permits : Nat → Stage → Stage
  | 0, s => s
  | n + 1, s => permits n s.permit

def cancelWaiting : Nat → Stage → Stage
  | 0, s => s
  | n + 1, s =>
    cancelWaiting n (s.release fun s seat path _ => s.deliver seat path (some (.error .cancelled)))

/-- Shuts the service down; whether it came to an end. -/
def shutdown (s : Stage) : Bool × Stage :=
  let s := { s with engine := { s.engine with stopping := true } }
  let s := (cancelWaiting s.waiting.length s).settle
  (s.engine.isIdle, s)

/-- Another process takes over storage and files. -/
def restart (s : Stage) (settings : ExportSettings) (source : Source) : Except Error Unit × Stage :=
  let (r, backend) := Engine.create settings s.engine.backend s.engine.now s.engine.files
  match r with
  | .ok engine => (.ok (), { s with engine, source, http := {}, waiting := [], opened := [] })
  | .error err => (.error err, { s with engine := { s.engine with backend } })

/-- Answers an HTTP request, `none` if that dies, and lets the pipelines run on. -/
def answerHttp (s : Stage) (r : HttpRequest) : Option HttpResponse × Stage :=
  let (response, server) := Server.answer ⟨s.engine, s.http⟩ r
  (response, { s with engine := server.engine, http := server.http }.settle)

/-- The size of the files of parts that are stored under a path as it is. -/
def storedSize (files : Files) (root : String) : Nat :=
  (files.objects.entries.filter fun e =>
    (Utf8.encode (root ++ "/")).isPrefixOf e.1 && (Utf8.encode ".jsonl.gz").isSuffixOf e.1).foldl
      (fun n e => n + e.2.size) 0

/-- Whether the packed size that a session tells is that of its stored parts. -/
def packedMatches (s : Stage) (id : String) : Except Error Bool × Stage :=
  let (r, engine) := s.engine.access (SessionStore.check id)
  (r.map fun x => decide (x.total.packed = storedSize engine.files x.pathRoot), { s with engine })

/-! ### Pieces of a pipeline by themselves -/

/-- How a piece is run: with how many workers, how much room in the queue, what
size of a page, and whether shutdown has been announced to it. -/
structure PieceSettings where
  workers : Nat := 1
  queueSize : Nat := 10
  pageSize : Nat := 2
  cancelled : Bool := false

/-- Runs `f` on a stage with one more pipeline, in whose place the others wait,
and takes it away again. -/
def withPiece {α : Type} (s : Stage) (settings : PieceSettings) (x : Pipeline)
    (f : Nat → Stage → α × Stage) : α × Stage :=
  let e := s.engine
  let p := e.pipelines.length
  let during : Engine :=
    { e with
      settings := { e.settings with workers := settings.workers, queueSize := settings.queueSize,
                                    pageSize := settings.pageSize }
      stopping := settings.cancelled
      pipelines := e.pipelines ++ [x] }
  let source := { s.source with pacing := none }
  let (a, after) := f p { s with engine := during, source }
  (a,
    { after with
      engine := { after.engine with
        settings := e.settings, stopping := e.stopping, pipelines := after.engine.pipelines.take p }
      source := { after.source with pacing := s.source.pacing }
      waiting := after.waiting.filter (·.pipeline != p)
      opened := after.opened.filter (·.pipeline != p) })

inductive Outcome (α : Type) where
  | result (a : α)
  /-- A moment left the calendar, or the search service died. -/
  | crashed
  | stuck

def pipelineOutcome (s : Stage) (p : Nat) : Outcome (Except Error Unit) :=
  match s.engine.pipelines[p]? with
  | some ⟨_, .ended r⟩ => .result r
  | some ⟨_, .crashed⟩ => .crashed
  | _ => .stuck

def runPipeline (s : Stage) (settings : PieceSettings) (id : String) :
    Outcome (Except Error Unit) × Stage :=
  s.withPiece settings ⟨id, .opening⟩ fun p s =>
    let s := s.settle
    (s.pipelineOutcome p, s)

/-- Steps of the first worker of pipeline `p` while `going` holds. -/
def workWhile (p : Nat) (going : WorkerStage → Bool) : Nat → Stage → Option (Pool × WorkerStage) × Stage
  | 0, s => (none, s)
  | fuel + 1, s =>
    match s.engine.pipelines[p]? with
    | some ⟨_, .draining pool⟩ =>
      match pool.workers with
      | w :: _ =>
        if going w then
          match s.worker? ⟨p, 0⟩ w with
          | some s => workWhile p going fuel s
          | none => (none, s)
        else (some (pool, w), s)
      | [] => (none, s)
    | _ => (none, s)

def isWorking : WorkerStage → Bool
  | .ended _ => false
  | .busy _ .crashed => false
  | _ => true

/-- One worker over a queue to which nothing is added: how it ended, and how
many tasks it left. -/
def runWorker (s : Stage) (settings : PieceSettings) (id : String) (tasks : List Task) :
    Outcome (WorkerExit × Nat) × Stage :=
  let pool := { Pool.ofTasks 1 settings.queueSize [] with queue := tasks, closed := true }
  s.withPiece settings ⟨id, .draining pool⟩ fun p s =>
    let (r, s) := workWhile p isWorking patience s
    (match r with
      | some (pool, .ended exit) => .result (exit, pool.queue.length)
      | some _ => .crashed
      | none => .stuck, s)

def isProcessing : WorkerStage → Bool
  | .busy _ (.done _) => false
  | .busy _ .crashed => false
  | _ => true

def runPart (s : Stage) (settings : PieceSettings) (id : String) (task : Task) :
    Outcome (Except Error PartOutcome) × Stage :=
  let pool := (Pool.ofTasks 1 1 []).setWorker 0 (.busy task .checking)
  s.withPiece settings ⟨id, .draining pool⟩ fun p s =>
    let (r, s) := workWhile p isProcessing patience s
    (match r with
      | some (_, .busy _ (.done r)) => .result r
      | some _ => .crashed
      | none => .stuck, s)

end Stage

end LogExport
