import LogExport.Proofs.Pipeline.Acts
import LogExport.Proofs.Session.Shelf

/-! What one move of an engine can do, seen from what is stored. A move takes one
pipeline from a stage to the next; on the way it makes at most one change to the
shelf and at most one deed outside. All that goes wrong is one case here: the worker
or the pipeline gives up. -/

namespace LogExport

open Access

/-- What a move does outside of the engine. -/
inductive Deed where
  /-- The file store has taken a whole file. -/
  | put (path : String) (content : Content)
  /-- The search service has answered with a page. -/
  | page (request : SearchRequest) (events : List Event)

namespace Engine

/-- The worker of a pipeline that searches, and its search. -/
def search? (e : Engine) (p k : Nat) : Option Download :=
  match e.pipelines[p]? with
  | some ⟨_, .draining pool⟩ =>
    match pool.workers[k]? with
    | some (.busy _ (.moving d)) => some d
    | _ => none
  | _ => none

/-- What a move does outside, if it is possible. -/
def deed? (e : Engine) : Move → Option Deed
  | .reply p k .stored =>
    (e.search? p k).map fun d => .put d.task.path (.ofBytes (d.file e.files.coder))
  | .reply p k (.page (.ok events)) => do
    let d ← e.search? p k
    let r ← d.request?
    return .page r events
  | .manifest p none =>
    match e.pipelines[p]? with
    | some ⟨_, .listing s m⟩ => some (.put s.manifestPath (.ofBytes (Utf8.encode m)))
    | _ => none
  | _ => none

end Engine

theorem Download.exists_request {d : Download} (h : d.isDone = false) :
    ∃ r, d.request? = some r := by
  unfold isDone at h
  unfold request?
  cases hw : d.windows with
  | nil => rw [hw] at h; cases h
  | cons w ws => exact ⟨_, rfl⟩

/-- A change that giving up on a session can bring about. -/
inductive Change.GivesUp (id : String) : Change → Prop
  | keep : GivesUp id .keep
  | release : GivesUp id (.release id)
  | fail (error : Option String) (now : Instant) : GivesUp id (.conclude id .fail error now)

/-- The worker will not finish its part. -/
inductive WorkerStage.IsLost : WorkerStage → Prop
  | failed (task : Task) (e : Error) : IsLost (.busy task (.done (.error e)))
  | skipped (task : Task) : IsLost (.busy task (.done (.ok .skipped)))
  | crashed (task : Task) : IsLost (.busy task .crashed)
  | ended {exit : WorkerExit} (h : exit ≠ .drained) : IsLost (.ended exit)

/-- What a worker can do with its part, for the session stored under `id`. -/
inductive WorkerStep (v : Shelf) (files : Files) (id : String) :
    WorkerStage → Change → Option Deed → WorkerStage → Prop
  | begun {task : Task} {limit : Nat} {s : Session} {d : Download}
      (found : v.session id = some s) (running : s.status = .start)
      (begins : Download.begin? id task limit = some d) :
    WorkerStep v files id (.busy task .checking) .keep none (.busy task (.moving d))
  | page {task : Task} {d : Download} {r : SearchRequest} (asked : d.request? = some r)
      (events : List Event) :
    WorkerStep v files id (.busy task (.moving d)) .keep (some (.page r events))
      (.busy task (.moving (d.take events)))
  | stored {task : Task} {d : Download} (isDone : d.isDone = true) :
    WorkerStep v files id (.busy task (.moving d)) .keep
      (some (.put d.task.path (.ofBytes (d.file files.coder))))
      (.busy task (.confirming (d.sizes files.coder)))
  | confirmed {task : Task} {size : Sizes} :
    WorkerStep v files id (.busy task (.confirming size)) (.confirm id task.part size) none
      (.busy task (.done (.ok (.uploaded size))))
  | settled {task : Task} {size : Sizes} :
    WorkerStep v files id (.busy task (.done (.ok (.uploaded size)))) .keep none .idle
  | lost {task : Task} {part : PartStage} {c : Change} {w : WorkerStage} (gives : c.GivesUp id)
      (lost : w.IsLost) : WorkerStep v files id (.busy task part) c none w

/-- The pipeline will not finish its session. -/
inductive PipelineStage.IsLost : PipelineStage → Prop
  | failing (e : Error) : IsLost (.failing e)
  | ended (r : Except Error Unit) : IsLost (.ended r)
  | crashed : IsLost .crashed

/-- What a pipeline for the session stored under `id` can do. -/
inductive PipelineStep (v : Shelf) (files : Files) (id : String) :
    PipelineStage → Change → Option Deed → PipelineStage → Prop
  | opened {s : Session} {tasks : List Task} {workers capacity : Nat}
      (found : v.session id = some s) (running : s.status = .start)
      (laidOut : s.tasks? = some (.ok tasks)) :
    PipelineStep v files id .opening .keep none (.draining (.ofTasks workers capacity tasks))
  | fed {pool pool' : Pool} (feeds : pool.feed? = some pool') :
    PipelineStep v files id (.draining pool) .keep none (.draining pool')
  | received {pool pool' : Pool} {k : Nat} (idle : pool.workers[k]? = some .idle)
      (receives : pool.receive? k = some pool') :
    PipelineStep v files id (.draining pool) .keep none (.draining pool')
  | worked {pool : Pool} {k : Nat} {w w' : WorkerStage} {c : Change} {deed : Option Deed}
      (at_work : pool.workers[k]? = some w) (works : WorkerStep v files id w c deed w') :
    PipelineStep v files id (.draining pool) c deed (.draining (pool.setWorker k w'))
  | drained {pool : Pool} (clean : pool.isClean = true) :
    PipelineStep v files id (.draining pool) .keep none .closing
  | checked {s : Session} {m : String} (found : v.session id = some s) (running : s.status = .start)
      (full : s.uploadedCount = s.partCount) (links : Engine.manifest? files s = some m) :
    PipelineStep v files id .closing .keep none (.listing s m)
  | listed {s : Session} {m : String} :
    PipelineStep v files id (.listing s m) .keep
      (some (.put s.manifestPath (.ofBytes (Utf8.encode m)))) (.finishing s.id)
  | finished {i : String} {now : Instant} :
    PipelineStep v files id (.finishing i) (.conclude i .finish none now) none (.ended (.ok ()))
  | unfinished {i : String} {c : Change} {e : Error} (gives : c.GivesUp i) :
    PipelineStep v files id (.finishing i) c none (.failing e)
  | lost {stage stage' : PipelineStage} {c : Change} (going : stage.isEnded = false)
      (gives : c.GivesUp id) (lost : stage'.IsLost) : PipelineStep v files id stage c none stage'

namespace Engine

/-- The files after a deed. -/
def filesAfter (files : Files) : Option Deed → Files
  | some (.put path content) => files.put path content
  | _ => files

/-- One pipeline has taken a step. -/
structure Moved (e : Engine) (m : Move) (e' : Engine) (p : Nat) (id : String)
    (stage : PipelineStage) (c : Change) (stage' : PipelineStage) : Prop where
  found : e.pipelines[p]? = some ⟨id, stage⟩
  step : PipelineStep e.backend.records.shelf e.files id stage c (e.deed? m) stage'
  pipelines : e'.pipelines = e.pipelines.set p ⟨id, stage'⟩
  records : e.backend.records.Took c e'.backend.records
  files : e'.files = filesAfter e.files (e.deed? m)
  settings : e'.settings = e.settings
  now : e'.now = e.now

section Moves

variable {e e' e₁ : Engine} {p k : Nat} {id : String} {stage stage' : PipelineStage} {c : Change}
  {m : Move}

/-- Looking up a session changes nothing. -/
theorem took_of_check {r : Except Error Session} {b : Backend} (hf : e.backend.records.Filed)
    (load : Gives (SessionStore.check id) e.backend r b) :
    e.backend.records.Took .keep b.records :=
  KeyMap.took_keep hf (SessionStore.gives_load hf load).1

theorem search?_eq_some {pool : Pool} {task : Task} {d : Download}
    (found : e.pipelines[p]? = some ⟨id, .draining pool⟩)
    (at_work : pool.workers[k]? = some (.busy task (.moving d))) : e.search? p k = some d := by
  simp only [search?, found, at_work]

theorem deed?_page {d : Download} {r : SearchRequest} {events : List Event}
    (search : e.search? p k = some d) (asked : d.request? = some r) :
    e.deed? (.reply p k (.page (.ok events))) = some (.page r events) := by
  simp only [deed?, search, asked, bind, pure, Option.bind_some]

theorem deed?_stored {d : Download} (search : e.search? p k = some d) :
    e.deed? (.reply p k .stored) =
      some (.put d.task.path (.ofBytes (d.file e.files.coder))) := by
  simp only [deed?, search, Option.map_some]

theorem deed?_listed {s : Session} {text : String}
    (found : e.pipelines[p]? = some ⟨id, .listing s text⟩) :
    e.deed? (.manifest p none) = some (.put s.manifestPath (.ofBytes (Utf8.encode text))) := by
  simp only [deed?, found]

end Moves

end Engine

section Moves

variable {e e' e₁ : Engine} {p k : Nat} {id : String} {stage stage' : PipelineStage} {m : Move}

/-- What an act has made of the storage and the files. -/
def Engine.After (e : Engine) (m : Move) (e₁ : Engine) (c : Change) : Prop :=
  e.backend.records.Took c e₁.backend.records ∧ e₁.files = Engine.filesAfter e.files (e.deed? m)

/-- Failing a session makes a change that giving up can bring about. -/
theorem SessionStore.gives_fail {b b' : Backend} {now : Instant} {message : String}
    {r : Except Error Unit} (hf : b.records.Filed) (hn : now.Valid)
    (gives : Gives (SessionStore.fail now id message) b r b') :
    ∃ c : Change, c.GivesUp id ∧ b.records.Took c b'.records := by
  obtain ⟨-, took⟩ | ⟨-, took⟩ | ⟨-, took⟩ := SessionStore.gives_conclude hf hn (by decide) gives
  · exact ⟨_, .keep, took⟩
  · exact ⟨_, .release, took⟩
  · exact ⟨_, .fail _ _, took⟩

/-- Every act of a worker is a step. -/
theorem WorkerAct.step {w w' : WorkerStage} (hf : e.backend.records.Filed) (hn : e.now.Valid)
    (search : ∀ task d, w = .busy task (.moving d) → e.search? p k = some d)
    (act : WorkerAct e p k id m w e₁ w') :
    ∃ c, WorkerStep e.backend.records.shelf e.files id w c (e.deed? m) w' ∧ e.After m e₁ c := by
  have keep : e.backend.records.Took .keep e.backend.records := KeyMap.took_keep hf rfl
  cases act with
  | unknown load =>
    exact ⟨_, .lost .keep (.failed _ _), Engine.took_of_check hf load, rfl⟩
  | begun load running begins =>
    obtain ⟨same, ⟨_, ⟨⟩⟩ | ⟨_, ⟨⟩, found⟩⟩ := SessionStore.gives_load hf load
    exact ⟨_, .begun found running begins, KeyMap.took_keep hf same, rfl⟩
  | unsearchable load =>
    exact ⟨_, .lost .keep (.crashed _), Engine.took_of_check hf load, rfl⟩
  | late load =>
    exact ⟨_, .lost .keep (.failed _ _), Engine.took_of_check hf load, rfl⟩
  | skipped load =>
    exact ⟨_, .lost .keep (.skipped _), Engine.took_of_check hf load, rfl⟩
  | @page task d events going =>
    obtain ⟨r, asked⟩ := Download.exists_request going
    have deed : e.deed? (.reply p k (.page (.ok events))) = some (.page r events) :=
      Engine.deed?_page (search task d rfl) asked
    refine ⟨.keep, ?_, keep, ?_⟩ <;> rw [deed]
    · exact .page asked events
    · rfl
  | unanswered => exact ⟨_, .lost .keep (.failed _ _), keep, rfl⟩
  | @stored task d done =>
    have deed := Engine.deed?_stored (search task d rfl)
    refine ⟨.keep, ?_, keep, ?_⟩ <;> rw [deed]
    · exact .stored done
    · rfl
  | refused => exact ⟨_, .lost .keep (.failed _ _), keep, rfl⟩
  | died => exact ⟨_, .lost .keep (.crashed _), keep, rfl⟩
  | confirmed gives =>
    obtain ⟨⟨_, ⟨⟩⟩, -⟩ | ⟨-, took⟩ := SessionStore.gives_confirm hf gives
    exact ⟨_, .confirmed, took, rfl⟩
  | unconfirmed gives =>
    obtain ⟨-, took⟩ | ⟨⟨⟩, -⟩ := SessionStore.gives_confirm hf gives
    exact ⟨_, .lost .keep (.failed _ _), took, rfl⟩
  | settled => exact ⟨_, .settled, keep, rfl⟩
  | stopped => exact ⟨_, .lost .keep (.ended (by decide)), keep, rfl⟩
  | interrupted => exact ⟨_, .lost .keep (.ended (by decide)), keep, rfl⟩
  | failed _ gives =>
    obtain ⟨c, givesUp, took⟩ := SessionStore.gives_fail hf hn gives
    exact ⟨c, .lost givesUp (.ended (by simp)), took, rfl⟩
  | unfailed _ gives =>
    obtain ⟨c, givesUp, took⟩ := SessionStore.gives_fail hf hn gives
    exact ⟨c, .lost givesUp (.ended (by simp)), took, rfl⟩
  | reported gives =>
    obtain ⟨c, givesUp, took⟩ := SessionStore.gives_fail hf hn gives
    exact ⟨c, .lost givesUp (.ended (by simp)), took, rfl⟩

/-- Every act of a pipeline is a step. -/
theorem PipelineAct.step (hf : e.backend.records.Filed) (hn : e.now.Valid)
    (found : e.pipelines[p]? = some ⟨id, stage⟩) (act : PipelineAct e p id m stage e₁ stage') :
    ∃ c, PipelineStep e.backend.records.shelf e.files id stage c (e.deed? m) stage' ∧
      e.After m e₁ c := by
  have keep : e.backend.records.Took .keep e.backend.records := KeyMap.took_keep hf rfl
  cases act with
  | unknown load => exact ⟨_, .lost rfl .keep (.ended _), Engine.took_of_check hf load, rfl⟩
  | unneeded load => exact ⟨_, .lost rfl .keep (.ended _), Engine.took_of_check hf load, rfl⟩
  | unlaid load => exact ⟨_, .lost rfl .keep .crashed, Engine.took_of_check hf load, rfl⟩
  | mismatched load => exact ⟨_, .lost rfl .keep (.ended _), Engine.took_of_check hf load, rfl⟩
  | overfull load => exact ⟨_, .lost rfl .keep .crashed, Engine.took_of_check hf load, rfl⟩
  | opened load running laidOut =>
    obtain ⟨-, ⟨_, ⟨⟩⟩ | ⟨_, ⟨⟩, stored⟩⟩ := SessionStore.gives_load hf load
    exact ⟨_, .opened stored running laidOut, Engine.took_of_check hf load, rfl⟩
  | fed feeds => exact ⟨_, .fed feeds, keep, rfl⟩
  | received idle receives => exact ⟨_, .received idle receives, keep, rfl⟩
  | worked at_work works =>
    obtain ⟨c, step, after⟩ := works.step hf hn fun task d hw =>
      Engine.search?_eq_some found (hw ▸ at_work)
    exact ⟨c, .worked at_work step, after⟩
  | drained spent closed clean => exact ⟨_, .drained clean, keep, rfl⟩
  | gaveUp => exact ⟨_, .lost rfl .keep (.ended _), keep, rfl⟩
  | unread load => exact ⟨_, .lost rfl .keep (.ended _), Engine.took_of_check hf load, rfl⟩
  | incomplete load => exact ⟨_, .lost rfl .keep (.ended _), Engine.took_of_check hf load, rfl⟩
  | unlistable load => exact ⟨_, .lost rfl .keep .crashed, Engine.took_of_check hf load, rfl⟩
  | checked load running full links =>
    obtain ⟨-, ⟨_, ⟨⟩⟩ | ⟨_, ⟨⟩, stored⟩⟩ := SessionStore.gives_load hf load
    exact ⟨_, .checked stored running full links, Engine.took_of_check hf load, rfl⟩
  | @listed s text =>
    have deed := Engine.deed?_listed found
    refine ⟨.keep, ?_, keep, ?_⟩ <;> rw [deed]
    · exact .listed
    · rfl
  | unlisted => exact ⟨_, .lost rfl .keep (.failing _), keep, rfl⟩
  | finished gives =>
    obtain ⟨⟨_, ⟨⟩⟩, -⟩ | ⟨⟨_, ⟨⟩⟩, -⟩ | ⟨-, took⟩ :=
      SessionStore.gives_conclude hf hn (by decide) gives
    exact ⟨_, .finished, took, rfl⟩
  | unfinished gives =>
    obtain ⟨-, took⟩ | ⟨-, took⟩ | ⟨⟨⟩, -⟩ := SessionStore.gives_conclude hf hn (by decide) gives
    · exact ⟨_, .unfinished .keep, took, rfl⟩
    · exact ⟨_, .unfinished .release, took, rfl⟩
  | recorded gives =>
    obtain ⟨c, givesUp, took⟩ := SessionStore.gives_fail hf hn gives
    exact ⟨c, .lost rfl givesUp (.ended _), took, rfl⟩
  | unrecorded gives =>
    obtain ⟨c, givesUp, took⟩ := SessionStore.gives_fail hf hn gives
    exact ⟨c, .lost rfl givesUp (.ended _), took, rfl⟩

namespace Engine

/-- A move of a pipeline takes it a step further. -/
theorem moved_at (hf : e.backend.records.Filed) (hn : e.now.Valid) (acts : m.pipeline? = some p)
    (h : e.step? m = some e') : ∃ id stage c stage', e.Moved m e' p id stage c stage' := by
  obtain ⟨id, stage, e₁, stage', acted⟩ := Engine.acted acts h
  obtain ⟨c, step, records, files⟩ := acted.act.step hf hn acted.found
  obtain ⟨settings, now, -⟩ := acted.beside
  refine ⟨id, stage, c, stage', acted.found, step, acted.pipelines, ?_, ?_, settings, now⟩
  · rw [acted.after]
    exact records
  · rw [acted.after]
    exact files

theorem deed?_of_counted (acts : m.pipeline? = none) : e.deed? m = none := by
  cases m <;> first | rfl | cases acts

/-- A move takes one pipeline a step further, or only counts. -/
theorem moved_step (hf : e.backend.records.Filed) (hn : e.now.Valid) (h : e.step? m = some e') :
    (∃ p id stage c stage', e.Moved m e' p id stage c stage') ∨
      e.deed? m = none ∧ ∃ counters, e' = { e with counters } := by
  cases acts : m.pipeline? with
  | some p => exact .inl ⟨p, moved_at hf hn acts h⟩
  | none => exact .inr ⟨deed?_of_counted acts, counted_step acts h⟩

end Engine

end Moves

end LogExport
