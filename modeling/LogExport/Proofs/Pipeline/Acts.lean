import Mathlib.Tactic.SplitIfs
import LogExport.Pipeline.Engine
import LogExport.Proofs.Store.Access

/-! One move of an engine, case by case. Of one pipeline a move changes the stage, and
before that it may change storage, files and counters. Every case names what it needs:
the stage, what the storage answers, and what is told from outside. All that is known
of moves is read off these cases. -/

namespace LogExport

open Access

/-- The pipeline that takes a step by a move. -/
def Move.pipeline? : Move → Option Nat
  | feed p => some p
  | work p _ => some p
  | reply p _ _ => some p
  | report p _ => some p
  | advance p => some p
  | manifest p _ => some p
  | asked => none
  | limited => none

/-- What worker `k` of pipeline `p` does for the session stored under `id`, from its
stage before to the engine and its stage afterwards. -/
inductive WorkerAct (e : Engine) (p k : Nat) (id : String) :
    Move → WorkerStage → Engine → WorkerStage → Prop
  | unknown {task : Task} {b : Backend} {err : Error}
      (load : Gives (SessionStore.check id) e.backend (.error err) b) :
    WorkerAct e p k id (.work p k) (.busy task .checking) { e with backend := b }
      (.busy task (.done (.error err)))
  | begun {task : Task} {b : Backend} {s : Session} {d : Download}
      (load : Gives (SessionStore.check id) e.backend (.ok s) b) (running : s.status = .start)
      (begins : Download.begin? id task (e.limitFor s) = some d) :
    WorkerAct e p k id (.work p k) (.busy task .checking) { e with backend := b }
      (.busy task (.moving d))
  | unsearchable {task : Task} {b : Backend} {s : Session}
      (load : Gives (SessionStore.check id) e.backend (.ok s) b) (running : s.status = .start)
      (never : Download.begin? id task (e.limitFor s) = none) :
    WorkerAct e p k id (.work p k) (.busy task .checking) { e with backend := b }
      (.busy task .crashed)
  | late {task : Task} {b : Backend} {s : Session}
      (load : Gives (SessionStore.check id) e.backend (.ok s) b) (finished : s.status = .finish) :
    WorkerAct e p k id (.work p k) (.busy task .checking) { e with backend := b }
      (.busy task (.done (.error (.internal (.finishedPart task.part id s.status.text)))))
  | skipped {task : Task} {b : Backend} {s : Session}
      (load : Gives (SessionStore.check id) e.backend (.ok s) b)
      (ended : s.status = .cancel ∨ s.status = .fail) :
    WorkerAct e p k id (.work p k) (.busy task .checking) { e with backend := b }
      (.busy task (.done (.ok .skipped)))
  | page {task : Task} {d : Download} {events : List Event} (going : d.isDone = false) :
    WorkerAct e p k id (.reply p k (.page (.ok events))) (.busy task (.moving d)) e
      (.busy task (.moving (d.take events)))
  | unanswered {task : Task} {d : Download} {err : SearchError} (going : d.isDone = false) :
    WorkerAct e p k id (.reply p k (.page (.error err))) (.busy task (.moving d)) e
      (.busy task (.done (.error (.search err))))
  | stored {task : Task} {d : Download} (done : d.isDone = true) :
    WorkerAct e p k id (.reply p k .stored) (.busy task (.moving d))
      { e with files := e.files.put d.task.path (.ofBytes (d.file e.files.coder)) }
      (.busy task (.confirming (d.sizes e.files.coder)))
  | refused {task : Task} {d : Download} {f : FileFault} :
    WorkerAct e p k id (.reply p k (.refused f)) (.busy task (.moving d)) e
      (.busy task (.done (.error (.fileStore f))))
  | died {task : Task} {d : Download} :
    WorkerAct e p k id (.reply p k .crash) (.busy task (.moving d)) e (.busy task .crashed)
  | confirmed {task : Task} {size : Sizes} {b : Backend}
      (gives : Gives (SessionStore.confirm id task.part size) e.backend (.ok ()) b) :
    WorkerAct e p k id (.work p k) (.busy task (.confirming size)) { e with backend := b }
      (.busy task (.done (.ok (.uploaded size))))
  | unconfirmed {task : Task} {size : Sizes} {b : Backend} {err : Error}
      (gives : Gives (SessionStore.confirm id task.part size) e.backend (.error err) b) :
    WorkerAct e p k id (.work p k) (.busy task (.confirming size)) { e with backend := b }
      (.busy task (.done (.error err)))
  | settled {task : Task} {size : Sizes} :
    WorkerAct e p k id (.work p k) (.busy task (.done (.ok (.uploaded size))))
      (e.countUpload size) .idle
  | stopped {task : Task} :
    WorkerAct e p k id (.work p k) (.busy task (.done (.ok .skipped))) e (.ended .stopped)
  | interrupted {task : Task} (stopping : e.stopping = true) :
    WorkerAct e p k id (.work p k) (.busy task (.done (.error (.search .cancelled)))) e
      (.ended .interrupted)
  | failed {task : Task} {err : Error} {b : Backend}
      (fatal : ¬(err = .search .cancelled ∧ e.stopping = true))
      (gives : Gives (SessionStore.fail e.now id err.text) e.backend (.ok ()) b) :
    WorkerAct e p k id (.work p k) (.busy task (.done (.error err)))
      { e with backend := b }.countFailed (.ended (.failed err))
  | unfailed {task : Task} {err err' : Error} {b : Backend}
      (fatal : ¬(err = .search .cancelled ∧ e.stopping = true))
      (gives : Gives (SessionStore.fail e.now id err.text) e.backend (.error err') b) :
    WorkerAct e p k id (.work p k) (.busy task (.done (.error err))) { e with backend := b }
      (.ended (.failed err))
  | reported {task : Task} {r : Except Error Unit} {b : Backend}
      (gives : Gives (SessionStore.fail e.now id InternalFault.workerPanicked.text) e.backend r b) :
    WorkerAct e p k id (.report p k) (.busy task .crashed) { e with backend := b }
      (.ended (.failed Engine.crashError))

/-- What pipeline `p` does for the session stored under `id`. -/
inductive PipelineAct (e : Engine) (p : Nat) (id : String) :
    Move → PipelineStage → Engine → PipelineStage → Prop
  | unknown {b : Backend} {err : Error}
      (load : Gives (SessionStore.check id) e.backend (.error err) b) :
    PipelineAct e p id (.advance p) .opening
      ({ e.countRunning (· + 1) with backend := b }.countRunning (· - 1)) (.ended (.error err))
  | unneeded {b : Backend} {s : Session}
      (load : Gives (SessionStore.check id) e.backend (.ok s) b) (ended : s.status ≠ .start) :
    PipelineAct e p id (.advance p) .opening
      ({ e.countRunning (· + 1) with backend := b }.countRunning (· - 1)) (.ended (.ok ()))
  | unlaid {b : Backend} {s : Session}
      (load : Gives (SessionStore.check id) e.backend (.ok s) b) (running : s.status = .start)
      (never : s.tasks? = none) :
    PipelineAct e p id (.advance p) .opening { e.countRunning (· + 1) with backend := b } .crashed
  | mismatched {b : Backend} {s : Session} {err : Error}
      (load : Gives (SessionStore.check id) e.backend (.ok s) b) (running : s.status = .start)
      (tasks : s.tasks? = some (.error err)) :
    PipelineAct e p id (.advance p) .opening
      ({ e.countRunning (· + 1) with backend := b }.countRunning (· - 1)) (.ended (.error err))
  | opened {b : Backend} {s : Session} {tasks : List Task}
      (load : Gives (SessionStore.check id) e.backend (.ok s) b) (running : s.status = .start)
      (laidOut : s.tasks? = some (.ok tasks)) (fits : e.settings.queueSize ≤ Pool.maxCapacity) :
    PipelineAct e p id (.advance p) .opening { e.countRunning (· + 1) with backend := b }
      (.draining (.ofTasks e.settings.workers e.settings.queueSize tasks))
  | overfull {b : Backend} {s : Session} {tasks : List Task}
      (load : Gives (SessionStore.check id) e.backend (.ok s) b) (running : s.status = .start)
      (laidOut : s.tasks? = some (.ok tasks)) (large : Pool.maxCapacity < e.settings.queueSize) :
    PipelineAct e p id (.advance p) .opening { e.countRunning (· + 1) with backend := b } .crashed
  | fed {pool pool' : Pool} (feeds : pool.feed? = some pool') :
    PipelineAct e p id (.feed p) (.draining pool) e (.draining pool')
  | received {pool pool' : Pool} {k : Nat} (idle : pool.workers[k]? = some .idle)
      (receives : pool.receive? k = some pool') :
    PipelineAct e p id (.work p k) (.draining pool) e (.draining pool')
  | worked {m : Move} {pool : Pool} {k : Nat} {w w' : WorkerStage} {e₁ : Engine}
      (at_work : pool.workers[k]? = some w) (works : WorkerAct e p k id m w e₁ w') :
    PipelineAct e p id m (.draining pool) e₁ (.draining (pool.setWorker k w'))
  | drained {pool : Pool} (spent : pool.isOver = true) (closed : pool.closed = true)
      (clean : pool.isClean = true) :
    PipelineAct e p id (.advance p) (.draining pool) e .closing
  | gaveUp {pool : Pool} (spent : pool.isOver = true) (closed : pool.closed = true)
      (unclean : pool.isClean = false) :
    PipelineAct e p id (.advance p) (.draining pool) (e.countRunning (· - 1)) (.ended (.ok ()))
  | unread {b : Backend} {err : Error}
      (load : Gives (SessionStore.check id) e.backend (.error err) b) :
    PipelineAct e p id (.advance p) .closing ({ e with backend := b }.countRunning (· - 1))
      (.ended (.error err))
  | incomplete {b : Backend} {s : Session}
      (load : Gives (SessionStore.check id) e.backend (.ok s) b)
      (lacking : ¬(s.status = .start ∧ s.uploadedCount = s.partCount)) :
    PipelineAct e p id (.advance p) .closing ({ e with backend := b }.countRunning (· - 1))
      (.ended (.ok ()))
  | checked {b : Backend} {s : Session} {m : String}
      (load : Gives (SessionStore.check id) e.backend (.ok s) b) (running : s.status = .start)
      (full : s.uploadedCount = s.partCount) (links : Engine.manifest? e.files s = some m) :
    PipelineAct e p id (.advance p) .closing { e with backend := b } (.listing s m)
  | unlistable {b : Backend} {s : Session}
      (load : Gives (SessionStore.check id) e.backend (.ok s) b) (running : s.status = .start)
      (full : s.uploadedCount = s.partCount) (never : Engine.manifest? e.files s = none) :
    PipelineAct e p id (.advance p) .closing { e with backend := b } .crashed
  | listed {s : Session} {m : String} :
    PipelineAct e p id (.manifest p none) (.listing s m)
      { e with files := e.files.put s.manifestPath (.ofBytes (Utf8.encode m)) } (.finishing s.id)
  | unlisted {s : Session} {m : String} {f : FileFault} :
    PipelineAct e p id (.manifest p (some f)) (.listing s m) e (.failing (.fileStore f))
  | finished {i : String} {b : Backend}
      (gives : Gives (SessionStore.finish e.now i) e.backend (.ok ()) b) :
    PipelineAct e p id (.advance p) (.finishing i)
      ({ e with backend := b }.countFinished.countRunning (· - 1)) (.ended (.ok ()))
  | unfinished {i : String} {b : Backend} {err : Error}
      (gives : Gives (SessionStore.finish e.now i) e.backend (.error err) b) :
    PipelineAct e p id (.advance p) (.finishing i) { e with backend := b } (.failing err)
  | recorded {err : Error} {b : Backend}
      (gives : Gives (SessionStore.fail e.now id err.text) e.backend (.ok ()) b) :
    PipelineAct e p id (.advance p) (.failing err)
      ({ e with backend := b }.countFailed.countRunning (· - 1)) (.ended (.ok ()))
  | unrecorded {err err' : Error} {b : Backend}
      (gives : Gives (SessionStore.fail e.now id err.text) e.backend (.error err') b) :
    PipelineAct e p id (.advance p) (.failing err) ({ e with backend := b }.countRunning (· - 1))
      (.ended (.error err'))

/-- Besides the stage an act changes storage, files and counters at most. -/
structure Engine.Beside (e e₁ : Engine) : Prop where
  pipelines : e₁.pipelines = e.pipelines
  settings : e₁.settings = e.settings
  now : e₁.now = e.now
  stopping : e₁.stopping = e.stopping

section Acts

variable {e e' e₁ : Engine} {p k : Nat} {id : String} {m : Move}

theorem WorkerAct.beside {w w' : WorkerStage} (act : WorkerAct e p k id m w e₁ w') :
    e.Beside e₁ := by
  cases act <;> exact ⟨rfl, rfl, rfl, rfl⟩

theorem PipelineAct.beside {stage stage' : PipelineStage}
    (act : PipelineAct e p id m stage e₁ stage') : e.Beside e₁ := by
  cases act with
  | worked _ works => exact works.beside
  | _ => exact ⟨rfl, rfl, rfl, rfl⟩

namespace Engine

/-- An engine after an access to its storage. -/
theorem access_eq {α : Type} {a : Access α} {r : Except Error α} {b : Backend}
    (h : Gives a e.backend r b) : e.access a = (r, { e with backend := b }) := by
  unfold Gives at h
  simp only [access, h]

theorem pipelines_setStage {stage : PipelineStage} (h : e.pipelines[p]? = some ⟨id, stage⟩)
    (stage' : PipelineStage) :
    (e.setStage p stage').pipelines = e.pipelines.set p ⟨id, stage'⟩ := by
  apply List.ext_getElem?
  intro i
  simp only [setStage, List.getElem?_modify, List.getElem?_set]
  by_cases hi : p = i
  · subst hi
    obtain ⟨hlt, hget⟩ := List.getElem?_eq_some_iff.1 h
    simp [hlt, hget]
  · simp [hi]

/-- A worker looks up the session of its part. -/
theorem act_beginPart (e : Engine) (p k : Nat) (id : String) (task : Task) :
    ∃ part e₁, e.beginPart id task = (part, e₁) ∧
      WorkerAct e p k id (.work p k) (.busy task .checking) e₁ (.busy task part) := by
  rcases load : (SessionStore.check id).run.run e.backend with ⟨r, b⟩
  unfold beginPart
  rw [access_eq load]
  cases r with
  | error err => exact ⟨_, _, rfl, .unknown load⟩
  | ok s =>
    dsimp only
    split
    · next running =>
      split
      · next d begins => exact ⟨_, _, rfl, .begun load running begins⟩
      · next never => exact ⟨_, _, rfl, .unsearchable load running never⟩
    · next finished => exact ⟨_, _, rfl, .late load finished⟩
    · next cancelled => exact ⟨_, _, rfl, .skipped load (.inl cancelled)⟩
    · next failed => exact ⟨_, _, rfl, .skipped load (.inr failed)⟩

theorem act_confirmPart (e : Engine) (p k : Nat) (id : String) (task : Task) (size : Sizes) :
    ∃ part e₁, e.confirmPart id task size = (part, e₁) ∧
      WorkerAct e p k id (.work p k) (.busy task (.confirming size)) e₁ (.busy task part) := by
  rcases gives : (SessionStore.confirm id task.part size).run.run e.backend with ⟨r, b⟩
  unfold confirmPart
  rw [access_eq gives]
  cases r with
  | error err => exact ⟨_, _, rfl, .unconfirmed gives⟩
  | ok => exact ⟨_, _, rfl, .confirmed gives⟩

theorem act_settle (e : Engine) (p k : Nat) (id : String) (task : Task)
    (r : Except Error PartOutcome) :
    ∃ w e₁, e.settle id r = (w, e₁) ∧
      WorkerAct e p k id (.work p k) (.busy task (.done r)) e₁ w := by
  match r with
  | .ok (.uploaded size) => exact ⟨_, _, rfl, .settled⟩
  | .ok .skipped => exact ⟨_, _, rfl, .stopped⟩
  | .error err =>
    unfold settle
    dsimp only
    split
    · next calm =>
      obtain ⟨rfl, stopping⟩ := calm
      exact ⟨_, _, rfl, .interrupted stopping⟩
    · next fatal =>
      rcases gives : (SessionStore.fail e.now id err.text).run.run e.backend with ⟨r, b⟩
      rw [failSession, access_eq gives]
      cases r with
      | error err' => exact ⟨_, _, rfl, .unfailed fatal gives⟩
      | ok => exact ⟨_, _, rfl, .failed fatal gives⟩

/-- What a reply makes of a part. -/
theorem act_reply {r : Reply} {task : Task} {d : Download} {part : PartStage} {files : Files}
    (moves : movePart e.files d r = some (part, files)) :
    WorkerAct e p k id (.reply p k r) (.busy task (.moving d)) { e with files }
      (.busy task part) := by
  unfold movePart at moves
  split at moves
  · split_ifs at moves with going
    cases moves
    exact .page (Bool.eq_false_iff.2 going)
  · split_ifs at moves with going
    cases moves
    exact .unanswered (Bool.eq_false_iff.2 going)
  · split_ifs at moves with done
    cases moves
    exact .stored done
  · cases moves
    exact .refused
  · cases moves
    exact .died

theorem act_openSession (e : Engine) (p : Nat) (id : String) :
    ∃ e₁ stage', PipelineAct e p id (.advance p) .opening e₁ stage' ∧
      e.openSession p id = e₁.setStage p stage' := by
  rcases load : (SessionStore.check id).run.run e.backend with ⟨r, b⟩
  unfold openSession
  rw [access_eq (e := e.countRunning (· + 1)) load]
  cases r with
  | error err => exact ⟨_, _, .unknown load, rfl⟩
  | ok s =>
    dsimp only
    by_cases running : s.status = .start
    · rw [if_pos running]
      split
      · next never => exact ⟨_, _, .unlaid load running never, rfl⟩
      · next err tasks => exact ⟨_, _, .mismatched load running tasks, rfl⟩
      · next tasks laidOut =>
        split_ifs with fits
        · exact ⟨_, _, .opened load running laidOut fits, rfl⟩
        · exact ⟨_, _, .overfull load running laidOut (Nat.lt_of_not_le fits), rfl⟩
    · rw [if_neg running]
      exact ⟨_, _, .unneeded load running, rfl⟩

theorem act_closeSession (e : Engine) (p : Nat) (id : String) :
    ∃ e₁ stage', PipelineAct e p id (.advance p) .closing e₁ stage' ∧
      e.closeSession p id = e₁.setStage p stage' := by
  rcases load : (SessionStore.check id).run.run e.backend with ⟨r, b⟩
  unfold closeSession
  rw [access_eq load]
  cases r with
  | error err => exact ⟨_, _, .unread load, rfl⟩
  | ok s =>
    dsimp only
    split_ifs with full
    · split
      · next m links => exact ⟨_, _, .checked load full.1 full.2 links, rfl⟩
      · next never => exact ⟨_, _, .unlistable load full.1 full.2 never, rfl⟩
    · exact ⟨_, _, .incomplete load full, rfl⟩

theorem act_finishSession (e : Engine) (p : Nat) (id i : String) :
    ∃ e₁ stage', PipelineAct e p id (.advance p) (.finishing i) e₁ stage' ∧
      e.finishSession p i = e₁.setStage p stage' := by
  rcases gives : (SessionStore.finish e.now i).run.run e.backend with ⟨r, b⟩
  unfold finishSession
  rw [access_eq gives]
  cases r with
  | error err => exact ⟨_, _, .unfinished gives, rfl⟩
  | ok => exact ⟨_, _, .finished gives, rfl⟩

theorem act_recordFailure (e : Engine) (p : Nat) (id : String) (err : Error) :
    ∃ e₁ stage', PipelineAct e p id (.advance p) (.failing err) e₁ stage' ∧
      e.recordFailure p id err = e₁.setStage p stage' := by
  rcases gives : (SessionStore.fail e.now id err.text).run.run e.backend with ⟨r, b⟩
  unfold recordFailure
  rw [failSession, access_eq gives]
  cases r with
  | error err' => exact ⟨_, _, .unrecorded gives, rfl⟩
  | ok => exact ⟨_, _, .recorded gives, rfl⟩

/-- One pipeline has acted. -/
structure Acted (e : Engine) (m : Move) (e' : Engine) (p : Nat) (id : String)
    (stage : PipelineStage) (e₁ : Engine) (stage' : PipelineStage) : Prop where
  found : e.pipelines[p]? = some ⟨id, stage⟩
  act : PipelineAct e p id m stage e₁ stage'
  after : e' = e₁.setStage p stage'

theorem acted_of_work (h : e.work? p k = some e') :
    ∃ id stage e₁ stage', e.Acted (.work p k) e' p id stage e₁ stage' := by
  unfold work? at h
  split at h
  · next id pool found =>
    split at h
    · next idle =>
      obtain ⟨pool', receives, rfl⟩ := Option.map_eq_some_iff.1 h
      exact ⟨id, _, _, _, found, .received idle receives, rfl⟩
    · next task at_work =>
      obtain ⟨part, e₁, begins, act⟩ := act_beginPart e p k id task
      rw [begins] at h
      cases h
      exact ⟨id, _, _, _, found, .worked at_work act, rfl⟩
    · next task size at_work =>
      obtain ⟨part, e₁, confirms, act⟩ := act_confirmPart e p k id task size
      rw [confirms] at h
      cases h
      exact ⟨id, _, _, _, found, .worked at_work act, rfl⟩
    · next task r at_work =>
      obtain ⟨w, e₁, settles, act⟩ := act_settle e p k id task r
      rw [settles] at h
      cases h
      exact ⟨id, _, _, _, found, .worked at_work act, rfl⟩
    · cases h
  · cases h

theorem acted_of_reply {r : Reply} (h : e.reply? p k r = some e') :
    ∃ id stage e₁ stage', e.Acted (.reply p k r) e' p id stage e₁ stage' := by
  unfold reply? at h
  split at h
  · next id pool found =>
    split at h
    · next task d at_work =>
      obtain ⟨⟨part, files⟩, moves, rfl⟩ := Option.map_eq_some_iff.1 h
      exact ⟨id, _, _, _, found, .worked at_work (act_reply moves), rfl⟩
    · cases h
  · cases h

theorem acted_of_report (h : e.report? p k = some e') :
    ∃ id stage e₁ stage', e.Acted (.report p k) e' p id stage e₁ stage' := by
  unfold report? at h
  split at h
  · next id pool found =>
    split at h
    · next task at_work =>
      rcases gives : (SessionStore.fail e.now id InternalFault.workerPanicked.text).run.run
        e.backend with ⟨r, b⟩
      rw [failSession, access_eq gives] at h
      cases h
      exact ⟨id, _, _, _, found, .worked at_work (.reported gives), rfl⟩
    · cases h
  · cases h

theorem acted_of_feed (h : e.feed? p = some e') :
    ∃ id stage e₁ stage', e.Acted (.feed p) e' p id stage e₁ stage' := by
  unfold feed? at h
  split at h
  · next id pool found =>
    obtain ⟨pool', feeds, rfl⟩ := Option.map_eq_some_iff.1 h
    exact ⟨id, _, _, _, found, .fed feeds, rfl⟩
  · cases h

theorem acted_of_listed {fault : Option FileFault} (h : e.listed? p fault = some e') :
    ∃ id stage e₁ stage', e.Acted (.manifest p fault) e' p id stage e₁ stage' := by
  unfold listed? at h
  split at h
  · next id s m found =>
    cases fault with
    | none =>
      cases h
      exact ⟨id, _, _, _, found, .listed, rfl⟩
    | some f =>
      cases h
      exact ⟨id, _, _, _, found, .unlisted, rfl⟩
  · cases h

theorem acted_of_advance (h : e.advance? p = some e') :
    ∃ id stage e₁ stage', e.Acted (.advance p) e' p id stage e₁ stage' := by
  unfold advance? at h
  split at h
  · next id found =>
    cases h
    obtain ⟨e₁, stage', act, after⟩ := act_openSession e p id
    exact ⟨id, _, e₁, stage', found, act, after⟩
  · next id pool found =>
    split_ifs at h with spent clean
    · cases h
      exact ⟨id, _, _, _, found, .drained spent.1 spent.2 clean, rfl⟩
    · cases h
      exact ⟨id, _, _, _, found, .gaveUp spent.1 spent.2 (Bool.eq_false_iff.2 clean), rfl⟩
  · next id found =>
    cases h
    obtain ⟨e₁, stage', act, after⟩ := act_closeSession e p id
    exact ⟨id, _, e₁, stage', found, act, after⟩
  · next id i found =>
    cases h
    obtain ⟨e₁, stage', act, after⟩ := act_finishSession e p id i
    exact ⟨id, _, e₁, stage', found, act, after⟩
  · next id err found =>
    cases h
    obtain ⟨e₁, stage', act, after⟩ := act_recordFailure e p id err
    exact ⟨id, _, e₁, stage', found, act, after⟩
  · cases h

/-- A move of a pipeline is one of its acts. -/
theorem acted (acts : m.pipeline? = some p) (h : e.step? m = some e') :
    ∃ id stage e₁ stage', e.Acted m e' p id stage e₁ stage' := by
  cases m with
  | feed => cases acts; exact acted_of_feed h
  | work => cases acts; exact acted_of_work h
  | reply => cases acts; exact acted_of_reply h
  | report => cases acts; exact acted_of_report h
  | advance => cases acts; exact acted_of_advance h
  | manifest => cases acts; exact acted_of_listed h
  | asked => cases acts
  | limited => cases acts

/-- A move that is none of a pipeline only counts. -/
theorem counted_step (acts : m.pipeline? = none) (h : e.step? m = some e') :
    ∃ counters, e' = { e with counters } := by
  cases m with
  | asked =>
    cases h
    exact ⟨_, rfl⟩
  | limited =>
    cases h
    exact ⟨_, rfl⟩
  | _ => cases acts

namespace Acted

variable {stage stage' : PipelineStage}

/-- Of all pipelines one has come to another stage. -/
theorem pipelines (h : e.Acted m e' p id stage e₁ stage') :
    e'.pipelines = e.pipelines.set p ⟨id, stage'⟩ := by
  have same := h.act.beside.pipelines
  rw [h.after, pipelines_setStage (same ▸ h.found), same]

theorem beside (h : e.Acted m e' p id stage e₁ stage') :
    e'.settings = e.settings ∧ e'.now = e.now ∧ e'.stopping = e.stopping := by
  obtain ⟨-, settings, now, stopping⟩ := h.act.beside
  rw [h.after]
  exact ⟨settings, now, stopping⟩

end Acted

/-- No move launches a pipeline or takes one away. -/
theorem length_pipelines_of_step? (h : e.step? m = some e') :
    e'.pipelines.length = e.pipelines.length := by
  cases acts : m.pipeline? with
  | some p =>
    obtain ⟨id, stage, e₁, stage', acted⟩ := acted acts h
    rw [acted.pipelines, List.length_set]
  | none =>
    obtain ⟨counters, rfl⟩ := counted_step acts h
    rfl

end Engine

end Acts

end LogExport
