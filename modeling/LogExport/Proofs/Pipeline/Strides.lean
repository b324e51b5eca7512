import LogExport.Proofs.Pipeline.Steps
import LogExport.Proofs.Pipeline.Undisturbed

/-! What one move does for a session that runs, on storage that does not fail. There
the answers of storage are known in advance, and the acts of a pipeline come down to
strides. -/

namespace LogExport

open Access

/-- What worker `k` of pipeline `p` does for the session `s`. -/
inductive WorkerStride (e : Engine) (p k : Nat) (s : Session) :
    Move → WorkerStage → Change → Option Deed → WorkerStage → Prop
  | begun {task : Task} {d : Download}
      (begins : Download.begin? s.id task (e.limitFor s) = some d) :
    WorkerStride e p k s (.work p k) (.busy task .checking) .keep none (.busy task (.moving d))
  | unsearchable {task : Task} (never : Download.begin? s.id task (e.limitFor s) = none) :
    WorkerStride e p k s (.work p k) (.busy task .checking) .keep none (.busy task .crashed)
  | page {task : Task} {d : Download} {r : SearchRequest} {events : List Event}
      (asked : d.request? = some r) :
    WorkerStride e p k s (.reply p k (.page (.ok events))) (.busy task (.moving d)) .keep
      (some (.page r events)) (.busy task (.moving (d.take events)))
  | unanswered {task : Task} {d : Download} {err : SearchError} :
    WorkerStride e p k s (.reply p k (.page (.error err))) (.busy task (.moving d)) .keep none
      (.busy task (.done (.error (.search err))))
  | stored {task : Task} {d : Download} (isDone : d.isDone = true) :
    WorkerStride e p k s (.reply p k .stored) (.busy task (.moving d)) .keep
      (some (.put d.task.path (.ofBytes (d.file e.files.coder))))
      (.busy task (.confirming (d.sizes e.files.coder)))
  | refused {task : Task} {d : Download} {f : FileFault} :
    WorkerStride e p k s (.reply p k (.refused f)) (.busy task (.moving d)) .keep none
      (.busy task (.done (.error (.fileStore f))))
  | died {task : Task} {d : Download} :
    WorkerStride e p k s (.reply p k .crash) (.busy task (.moving d)) .keep none
      (.busy task .crashed)
  | confirmed {task : Task} {size : Sizes} (missing : s.uploaded[task.part]? = some false) :
    WorkerStride e p k s (.work p k) (.busy task (.confirming size))
      (.confirm s.id task.part size) none (.busy task (.done (.ok (.uploaded size))))
  | unconfirmed {task : Task} {size : Sizes} {err : Error}
      (known : s.uploaded[task.part]? ≠ some false) :
    WorkerStride e p k s (.work p k) (.busy task (.confirming size)) .keep none
      (.busy task (.done (.error err)))
  | settled {task : Task} {size : Sizes} :
    WorkerStride e p k s (.work p k) (.busy task (.done (.ok (.uploaded size)))) .keep none .idle
  | stopped {task : Task} :
    WorkerStride e p k s (.work p k) (.busy task (.done (.ok .skipped))) .keep none
      (.ended .stopped)
  | interrupted {task : Task} (stopping : e.stopping = true) :
    WorkerStride e p k s (.work p k) (.busy task (.done (.error (.search .cancelled)))) .keep none
      (.ended .interrupted)
  | failed {task : Task} {err : Error}
      (fatal : ¬(err = .search .cancelled ∧ e.stopping = true)) :
    WorkerStride e p k s (.work p k) (.busy task (.done (.error err)))
      (.conclude s.id .fail (some err.text) e.now.reread) none (.ended (.failed err))
  | reported {task : Task} {error : Option String} :
    WorkerStride e p k s (.report p k) (.busy task .crashed)
      (.conclude s.id .fail error e.now.reread) none (.ended (.failed Engine.crashError))

/-- What pipeline `p` does for the session `s`. -/
inductive PipelineStride (e : Engine) (p : Nat) (s : Session) :
    Move → PipelineStage → Change → Option Deed → PipelineStage → Prop
  | opened {tasks : List Task} (laidOut : s.tasks? = some (.ok tasks))
      (fits : e.settings.queueSize ≤ Pool.maxCapacity) :
    PipelineStride e p s (.advance p) .opening .keep none
      (.draining (.ofTasks e.settings.workers e.settings.queueSize tasks))
  | unopened {stage : PipelineStage} (unlaid : ∀ tasks, s.tasks? ≠ some (.ok tasks))
      (ended : stage.isEnded = true) :
    PipelineStride e p s (.advance p) .opening .keep none stage
  | overfull (large : Pool.maxCapacity < e.settings.queueSize) :
    PipelineStride e p s (.advance p) .opening .keep none .crashed
  | fed {pool pool' : Pool} (feeds : pool.feed? = some pool') :
    PipelineStride e p s (.feed p) (.draining pool) .keep none (.draining pool')
  | received {pool pool' : Pool} {k : Nat} (idle : pool.workers[k]? = some .idle)
      (receives : pool.receive? k = some pool') :
    PipelineStride e p s (.work p k) (.draining pool) .keep none (.draining pool')
  | worked {m : Move} {pool : Pool} {k : Nat} {w w' : WorkerStage} {c : Change}
      {deed : Option Deed} (at_work : pool.workers[k]? = some w)
      (works : WorkerStride e p k s m w c deed w') :
    PipelineStride e p s m (.draining pool) c deed (.draining (pool.setWorker k w'))
  | drained {pool : Pool} (clean : pool.isClean = true) :
    PipelineStride e p s (.advance p) (.draining pool) .keep none .closing
  | gaveUp {pool : Pool} (spent : pool.isOver = true) (unclean : pool.isClean = false) :
    PipelineStride e p s (.advance p) (.draining pool) .keep none (.ended (.ok ()))
  | checked {m : String} (full : s.uploadedCount = s.partCount)
      (links : Engine.manifest? e.files s = some m) :
    PipelineStride e p s (.advance p) .closing .keep none (.listing s m)
  | unlistable (never : Engine.manifest? e.files s = none) :
    PipelineStride e p s (.advance p) .closing .keep none .crashed
  | incomplete (lacking : s.uploadedCount ≠ s.partCount) :
    PipelineStride e p s (.advance p) .closing .keep none (.ended (.ok ()))
  | listed {t : Session} {m : String} :
    PipelineStride e p s (.manifest p none) (.listing t m) .keep
      (some (.put t.manifestPath (.ofBytes (Utf8.encode m)))) (.finishing t.id)
  | unlisted {t : Session} {m : String} {f : FileFault} :
    PipelineStride e p s (.manifest p (some f)) (.listing t m) .keep none
      (.failing (.fileStore f))
  | finished :
    PipelineStride e p s (.advance p) (.finishing s.id)
      (.conclude s.id .finish none e.now.reread) none (.ended (.ok ()))
  | recorded {err : Error} :
    PipelineStride e p s (.advance p) (.failing err)
      (.conclude s.id .fail (some err.text) e.now.reread) none (.ended (.ok ()))

namespace SessionStore

variable {b : Backend} {id : String} {s : Session}

/-- A session that runs can be ended. -/
theorem conclude_running (filed : b.records.Filed) (quiet : b.faults = {})
    (found : b.records.shelf.session id = some s) (running : s.status = .start) {now : Instant}
    (clock : now.Valid) {status : Status} (ends : status ≠ .start) (error : Option String) :
    ∃ r, Gives (conclude now id status error) b (.ok ()) { b with records := r } ∧
      b.records.Took (.conclude id status error now.reread) r := by
  obtain ⟨batch, gives⟩ := conclude_quiet filed quiet found running now status error
  rcases gives_conclude filed clock ends gives with ⟨⟨_, he⟩, -⟩ | ⟨⟨_, he⟩, -⟩ | ⟨-, took⟩
  · cases he
  · cases he
  · exact ⟨_, gives, took⟩

/-- A part that is missing can be confirmed. -/
theorem confirm_missing (filed : b.records.Filed) (quiet : b.faults = {})
    (found : b.records.shelf.session id = some s) {part : Nat}
    (missing : s.uploaded[part]? = some false) (size : Sizes) :
    ∃ r, Gives (confirm id part size) b (.ok ()) { b with records := r } ∧
      b.records.Took (.confirm id part size) r := by
  have gives := confirm_quiet quiet found missing size
  rcases gives_confirm filed gives with ⟨⟨_, he⟩, -⟩ | ⟨-, took⟩
  · cases he
  · exact ⟨_, gives, took⟩

theorem confirm_known (quiet : b.faults = {}) (found : b.records.shelf.session id = some s)
    {part : Nat} (known : s.uploaded[part]? ≠ some false) (size : Sizes) :
    ∃ err, Gives (confirm id part size) b (.error err) b := by
  have load := load_quiet quiet found
  cases hp : s.uploaded[part]? with
  | none =>
    refine ⟨.invalidRequest (.partOutOfRange part id s.partCount),
      gives_bind.2 (.inr ⟨s, b, load, ?_⟩)⟩
    simp only [hp]
    exact gives_throw.2 ⟨rfl, rfl⟩
  | some flag =>
    cases flag with
    | false => exact absurd hp known
    | true =>
      refine ⟨.conflict (.confirmed part id), gives_bind.2 (.inr ⟨s, b, load, ?_⟩)⟩
      simp only [hp]
      exact gives_throw.2 ⟨rfl, rfl⟩

end SessionStore

namespace Engine

/-- One pipeline has taken a stride for the session `s`. -/
structure Strode (e : Engine) (m : Move) (e' : Engine) (p : Nat) (s : Session)
    (stage : PipelineStage) (c : Change) (stage' : PipelineStage) : Prop where
  stride : PipelineStride e p s m stage c (e.deed? m) stage'
  pipelines : e'.pipelines = e.pipelines.set p ⟨s.id, stage'⟩
  records : e.backend.records.Took c e'.backend.records
  quiet : e'.backend.faults = {}
  files : e'.files = filesAfter e.files (e.deed? m)
  settings : e'.settings = e.settings
  now : e'.now = e.now
  stopping : e'.stopping = e.stopping

/-- Pipeline `p` is at a stage of its work for `s`, which runs. -/
structure Serves (e : Engine) (p : Nat) (s : Session) (stage : PipelineStage) : Prop
    extends At e p s stage where
  running : s.status = .start

/-- What an act has made of storage that does not fail, and of the files. -/
structure Settled (e : Engine) (m : Move) (e₁ : Engine) (c : Change) : Prop where
  after : e.After m e₁ c
  quiet : e₁.backend.faults = {}

end Engine

section Serves

open Engine

variable {e e' e₁ : Engine} {p k : Nat} {s : Session} {stage stage' : PipelineStage} {m : Move}
  {b : Backend}

namespace Engine.Serves

theorem keep (h : e.Serves p s stage) : e.backend.records.Took .keep e.backend.records :=
  KeyMap.took_keep h.holds.filed rfl

/-- Nothing happens to storage, and nothing is done outside. -/
theorem still (h : e.Serves p s stage) (undone : e.deed? m = none) (counters : Counters) :
    e.Settled m { e with counters } .keep :=
  ⟨⟨h.keep, undone.symm ▸ rfl⟩, h.holds.quiet⟩

/-- What looking up the session gives. -/
theorem loads (h : e.Serves p s stage) {r : Except Error Session}
    (load : Gives (SessionStore.check s.id) e.backend r b) : r = .ok s ∧ b = e.backend :=
  gives_unique load h.holds.load

/-- What ending the session gives. -/
theorem concludes (h : e.Serves p s stage) {status : Status} (ends : status ≠ .start)
    {error : Option String} {r : Except Error Unit}
    (gives : Gives (SessionStore.conclude e.now s.id status error) e.backend r b) :
    r = .ok () ∧ e.backend.records.Took (.conclude s.id status error e.now.reread) b.records ∧
      b.faults = {} := by
  obtain ⟨records, concluded, took⟩ := SessionStore.conclude_running h.holds.filed h.holds.quiet
    h.holds.stored h.running h.clock ends error
  obtain ⟨rfl, rfl⟩ := gives_unique gives concluded
  exact ⟨rfl, took, h.holds.quiet⟩

theorem fails (h : e.Serves p s stage) {message : String} {r : Except Error Unit}
    (gives : Gives (SessionStore.fail e.now s.id message) e.backend r b) :
    r = .ok () ∧ e.backend.records.Took (.conclude s.id .fail (some message) e.now.reread)
      b.records ∧ b.faults = {} :=
  h.concludes (by decide) gives

/-- What confirming a part gives. -/
theorem confirms (h : e.Serves p s stage) {part : Nat} {size : Sizes} {r : Except Error Unit}
    (gives : Gives (SessionStore.confirm s.id part size) e.backend r b) :
    s.uploaded[part]? = some false ∧ r = .ok () ∧
        e.backend.records.Took (.confirm s.id part size) b.records ∧ b.faults = {} ∨
      s.uploaded[part]? ≠ some false ∧ (∃ err, r = .error err) ∧ b = e.backend := by
  by_cases missing : s.uploaded[part]? = some false
  · obtain ⟨records, confirmed, took⟩ :=
      SessionStore.confirm_missing h.holds.filed h.holds.quiet h.holds.stored missing size
    obtain ⟨rfl, rfl⟩ := gives_unique gives confirmed
    exact .inl ⟨missing, rfl, took, h.holds.quiet⟩
  · obtain ⟨err, refused⟩ := SessionStore.confirm_known h.holds.quiet h.holds.stored missing size
    obtain ⟨rfl, rfl⟩ := gives_unique gives refused
    exact .inr ⟨missing, ⟨err, rfl⟩, rfl⟩

end Engine.Serves

/-- Every act of a worker is a stride. -/
theorem WorkerAct.stride {w w' : WorkerStage} (h : e.Serves p s stage)
    (search : ∀ task d, w = .busy task (.moving d) → e.search? p k = some d)
    (act : WorkerAct e p k s.id m w e₁ w') :
    ∃ c, WorkerStride e p k s m w c (e.deed? m) w' ∧ e.Settled m e₁ c := by
  cases act with
  | unknown load => cases (h.loads load).1
  | begun load running begins =>
    obtain ⟨⟨⟩, rfl⟩ := h.loads load
    exact ⟨_, .begun begins, h.still rfl _⟩
  | unsearchable load running never =>
    obtain ⟨⟨⟩, rfl⟩ := h.loads load
    exact ⟨_, .unsearchable never, h.still rfl _⟩
  | late load finished =>
    obtain ⟨⟨⟩, rfl⟩ := h.loads load
    rw [h.running] at finished
    cases finished
  | skipped load ended =>
    obtain ⟨⟨⟩, rfl⟩ := h.loads load
    rw [h.running] at ended
    rcases ended with cancelled | failed
    · cases cancelled
    · cases failed
  | @page task d events going =>
    obtain ⟨r, asked⟩ := Download.exists_request going
    have deed : e.deed? (.reply p k (.page (.ok events))) = some (.page r events) :=
      deed?_page (search task d rfl) asked
    refine ⟨_, deed ▸ .page asked, ⟨h.keep, ?_⟩, h.holds.quiet⟩
    rw [deed]
    rfl
  | unanswered => exact ⟨_, .unanswered, h.still rfl _⟩
  | stored done =>
    have deed := deed?_stored (search _ _ rfl)
    refine ⟨_, deed ▸ .stored done, ⟨h.keep, ?_⟩, h.holds.quiet⟩
    rw [deed]
    rfl
  | refused => exact ⟨_, .refused, h.still rfl _⟩
  | died => exact ⟨_, .died, h.still rfl _⟩
  | confirmed gives =>
    obtain ⟨missing, -, took, quiet⟩ | ⟨-, ⟨_, ⟨⟩⟩, -⟩ := h.confirms gives
    exact ⟨_, .confirmed missing, ⟨took, rfl⟩, quiet⟩
  | unconfirmed gives =>
    obtain ⟨-, ⟨⟩, -⟩ | ⟨known, -, rfl⟩ := h.confirms gives
    exact ⟨_, .unconfirmed known, h.still rfl _⟩
  | settled => exact ⟨_, .settled, h.still rfl _⟩
  | stopped => exact ⟨_, .stopped, h.still rfl _⟩
  | interrupted stopping => exact ⟨_, .interrupted stopping, h.still rfl _⟩
  | failed fatal gives =>
    obtain ⟨-, took, quiet⟩ := h.fails gives
    exact ⟨_, .failed fatal, ⟨took, rfl⟩, quiet⟩
  | unfailed fatal gives => cases (h.fails gives).1
  | reported gives =>
    obtain ⟨-, took, quiet⟩ := h.fails gives
    exact ⟨_, .reported, ⟨took, rfl⟩, quiet⟩

/-- Every act of a pipeline is a stride. -/
theorem PipelineAct.stride (h : e.Serves p s stage)
    (named : ∀ i, stage = .finishing i → i = s.id)
    (act : PipelineAct e p s.id m stage e₁ stage') :
    ∃ c, PipelineStride e p s m stage c (e.deed? m) stage' ∧ e.Settled m e₁ c := by
  cases act with
  | unknown load => cases (h.loads load).1
  | unneeded load ended =>
    obtain ⟨⟨⟩, rfl⟩ := h.loads load
    exact absurd h.running ended
  | unlaid load _ never =>
    obtain ⟨⟨⟩, rfl⟩ := h.loads load
    exact ⟨_, .unopened (by simp [never]) rfl, h.still rfl _⟩
  | mismatched load _ tasks =>
    obtain ⟨⟨⟩, rfl⟩ := h.loads load
    exact ⟨_, .unopened (by simp [tasks]) rfl, h.still rfl _⟩
  | opened load _ laidOut fits =>
    obtain ⟨⟨⟩, rfl⟩ := h.loads load
    exact ⟨_, .opened laidOut fits, h.still rfl _⟩
  | overfull load _ _ large =>
    obtain ⟨⟨⟩, rfl⟩ := h.loads load
    exact ⟨_, .overfull large, h.still rfl _⟩
  | fed feeds => exact ⟨_, .fed feeds, h.still rfl _⟩
  | received idle receives => exact ⟨_, .received idle receives, h.still rfl _⟩
  | worked at_work works =>
    obtain ⟨c, stride, settled⟩ := works.stride h fun task d hw =>
      search?_eq_some h.found (hw ▸ at_work)
    exact ⟨c, .worked at_work stride, settled⟩
  | drained _ _ clean => exact ⟨_, .drained clean, h.still rfl _⟩
  | gaveUp spent _ unclean => exact ⟨_, .gaveUp spent unclean, h.still rfl _⟩
  | unread load => cases (h.loads load).1
  | incomplete load lacking =>
    obtain ⟨⟨⟩, rfl⟩ := h.loads load
    exact ⟨_, .incomplete fun full => lacking ⟨h.running, full⟩, h.still rfl _⟩
  | checked load _ full links =>
    obtain ⟨⟨⟩, rfl⟩ := h.loads load
    exact ⟨_, .checked full links, h.still rfl _⟩
  | unlistable load _ _ never =>
    obtain ⟨⟨⟩, rfl⟩ := h.loads load
    exact ⟨_, .unlistable never, h.still rfl _⟩
  | listed =>
    have deed := deed?_listed h.found
    refine ⟨_, deed ▸ .listed, ⟨h.keep, ?_⟩, h.holds.quiet⟩
    rw [deed]
    rfl
  | unlisted => exact ⟨_, .unlisted, h.still rfl _⟩
  | finished gives =>
    cases named _ rfl
    obtain ⟨-, took, quiet⟩ := h.concludes (by decide) gives
    exact ⟨_, .finished, ⟨took, rfl⟩, quiet⟩
  | unfinished gives =>
    cases named _ rfl
    cases (h.concludes (by decide) gives).1
  | recorded gives =>
    obtain ⟨-, took, quiet⟩ := h.fails gives
    exact ⟨_, .recorded, ⟨took, rfl⟩, quiet⟩
  | unrecorded gives => cases (h.fails gives).1

/-- Every move of the pipeline is one of the strides. -/
theorem Engine.Serves.step (h : e.Serves p s stage) (named : ∀ i, stage = .finishing i → i = s.id)
    (acts : m.pipeline? = some p) (step : e.step? m = some e') :
    ∃ c stage', e.Strode m e' p s stage c stage' := by
  obtain ⟨id, stage₁, e₁, stage', found, act, after⟩ := acted acts step
  cases h.found.symm.trans found
  obtain ⟨c, stride, ⟨took, files⟩, quiet⟩ := act.stride h named
  obtain ⟨settings, now, stopping⟩ := Acted.beside ⟨found, act, after⟩
  exact ⟨c, stage', stride, Acted.pipelines ⟨found, act, after⟩, after ▸ took, after ▸ quiet,
    after ▸ files, settings, now, stopping⟩

end Serves

end LogExport
