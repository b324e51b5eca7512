import Mathlib.Logic.Relation
import LogExport.Proofs.Partition.Tiling
import LogExport.Proofs.Pipeline.Progress

/-! A pipeline that nothing disturbs. If storage does not fail and every search
comes back, one worker can take a session from its first step to its end. -/

namespace LogExport

open Access Relation

namespace Backend

/-- The session is stored, and storage does not fail. -/
structure Holds (b : Backend) (s : Session) : Prop where
  quiet : b.faults = {}
  filed : b.records.Filed
  stored : b.records.shelf.session s.id = some s

variable {b : Backend} {s : Session}

theorem Holds.load (h : b.Holds s) : Gives (SessionStore.check s.id) b (.ok s) b :=
  SessionStore.load_quiet h.quiet h.stored

theorem Holds.confirm (h : b.Holds s) {part : Nat} (missing : s.uploaded[part]? = some false)
    (size : Sizes) :
    ∃ b', Gives (SessionStore.confirm s.id part size) b (.ok ()) b' ∧
      b'.Holds (s.confirm part size) := by
  have hg := SessionStore.confirm_quiet h.quiet h.stored missing size
  refine ⟨_, hg, ?_⟩
  rcases SessionStore.gives_confirm h.filed hg with ⟨⟨_, he⟩, -⟩ | ⟨-, filed, step⟩
  · cases he
  · exact ⟨h.quiet, filed, step.confirmed h.stored⟩

/-- A session that runs can be ended. -/
theorem Holds.conclude (h : b.Holds s) (running : s.status = .start) {now : Instant}
    (hn : now.Valid) {status : Status} (ends : status ≠ .start) (error : Option String) :
    ∃ b', Gives (SessionStore.conclude now s.id status error) b (.ok ()) b' ∧
      b'.Holds (s.ended status error now.reread) := by
  obtain ⟨batch, hg⟩ :=
    SessionStore.conclude_quiet h.filed h.quiet h.stored running now status error
  refine ⟨_, hg, ?_⟩
  rcases SessionStore.gives_conclude h.filed hn ends hg with
    ⟨⟨_, he⟩, -⟩ | ⟨⟨_, he⟩, -⟩ | ⟨-, filed, step⟩
  · cases he
  · cases he
  · exact ⟨h.quiet, filed, step.concluded h.stored⟩

end Backend

namespace Engine

/-- A pipeline is at a stage, and storage holds its session. -/
structure At (e : Engine) (p : Nat) (s : Session) (stage : PipelineStage) : Prop where
  found : e.pipelines[p]? = some ⟨s.id, stage⟩
  holds : e.backend.Holds s
  clock : e.now.Valid

/-- One engine comes from another by moves, with the same settings. -/
def Leads (e e' : Engine) : Prop :=
  ReflTransGen (fun e e' : Engine => ∃ m, e.step? m = some e') e e' ∧ e'.settings = e.settings

theorem Leads.refl (e : Engine) : e.Leads e := ⟨.refl, rfl⟩

theorem Leads.trans {e e' e'' : Engine} (h : e.Leads e') (g : e'.Leads e'') : e.Leads e'' :=
  ⟨h.1.trans g.1, g.2.trans h.2⟩

theorem leads_of_step? {e e' : Engine} {m : Move} (h : e.step? m = some e')
    (settings : e'.settings = e.settings) : e.Leads e' := ⟨.single ⟨m, h⟩, settings⟩

theorem length_pipelines_of_leads {e e' : Engine} (leads : e.Leads e') :
    e'.pipelines.length = e.pipelines.length := by
  obtain ⟨run, -⟩ := leads
  induction run with
  | refl => rfl
  | tail _ step ih =>
    obtain ⟨m, hm⟩ := step
    exact (length_pipelines_of_step? hm).trans ih

section Stages

variable {e e₁ : Engine} {p : Nat} {s s' : Session} {stage : PipelineStage} {pool : Pool}
  {t : Task}

/-- The stage changes last, after changes to the rest of the engine. -/
theorem At.setStage (h : e.At p s stage) (hp : e₁.pipelines = e.pipelines)
    (holds : e₁.backend.Holds s') (hid : s'.id = s.id) (now : e₁.now = e.now)
    {stage' : PipelineStage} : (e₁.setStage p stage').At p s' stage' := by
  refine ⟨?_, holds, now ▸ h.clock⟩
  rw [pipelines_setStage (hp ▸ h.found), hp, hid]
  obtain ⟨hlt, -⟩ := List.getElem?_eq_some_iff.1 h.found
  exact List.getElem?_set_self hlt

/-- A worker of the pool is at a stage. -/
def Works (e : Engine) (p : Nat) (s : Session) (pool : Pool) (w : WorkerStage) : Prop :=
  e.At p s (.draining (pool.setWorker 0 w)) ∧ 0 < pool.workers.length

theorem Works.found {w : WorkerStage} (h : e.Works p s pool w) :
    (pool.setWorker 0 w).workers[0]? = some w :=
  List.getElem?_set_self h.2

theorem Works.put {w : WorkerStage} (h : e.Works p s pool w) (hp : e₁.pipelines = e.pipelines)
    (holds : e₁.backend.Holds s') (hid : s'.id = s.id) (now : e₁.now = e.now) {w' : WorkerStage} :
    (e₁.putWorker p 0 (pool.setWorker 0 w) w').Works p s' pool w' := by
  have hset : (pool.setWorker 0 w).setWorker 0 w' = pool.setWorker 0 w' := by
    simp only [Pool.setWorker, List.set_set]
  refine ⟨?_, h.2⟩
  rw [putWorker, hset]
  exact h.1.setStage hp holds hid now

theorem Works.begins (h : e.Works p s pool (.busy t .checking)) (running : s.status = .start)
    {d : Download} (hd : Download.begin? s.id t (e.limitFor s) = some d) :
    ∃ e', e.Leads e' ∧ e'.Works p s pool (.busy t (.moving d)) := by
  have hb : e.beginPart s.id t = (.moving d, e) := by
    simp only [beginPart, access_eq h.1.holds.load, running]
    rw [show limitFor _ s = e.limitFor s from rfl, hd]
  have hstep : e.step? (.work p 0) =
      some (e.putWorker p 0 (pool.setWorker 0 (.busy t .checking)) (.busy t (.moving d))) := by
    simp only [step?, work?, h.1.found, h.found, hb]
  exact ⟨_, leads_of_step? hstep rfl, h.put rfl h.1.holds rfl rfl⟩

/-- Every window comes back empty. -/
theorem Works.searches {d : Download} (h : e.Works p s pool (.busy t (.moving d)))
    (limit : 0 < d.limit) :
    ∃ e' d', e.Leads e' ∧ e'.Works p s pool (.busy t (.moving d')) ∧ d'.isDone = true := by
  induction hw : d.windows generalizing e d with
  | nil => exact ⟨e, d, .refl e, h, by simp only [Download.isDone, hw, List.isEmpty_nil]⟩
  | cons w ws ih =>
    have hdone : d.isDone = false := by simp only [Download.isDone, hw, List.isEmpty_cons]
    have htake : (d.take []).windows = ws ∧ (d.take []).limit = d.limit := by
      simp [Download.take, limit, hw]
    have hstep : e.step? (.reply p 0 (.page (.ok []))) =
        some (e.putWorker p 0 (pool.setWorker 0 (.busy t (.moving d)))
          (.busy t (.moving (d.take [])))) := by
      simp only [step?, reply?, h.1.found, h.found, movePart, hdone, Bool.false_eq_true, if_false,
        Option.map_some]
    obtain ⟨e', d', leads, works, done⟩ :=
      ih (h.put rfl h.1.holds rfl rfl) (htake.2 ▸ limit) htake.1
    exact ⟨e', d', (leads_of_step? hstep rfl).trans leads, works, done⟩

theorem Works.stores {d : Download} (h : e.Works p s pool (.busy t (.moving d)))
    (done : d.isDone = true) :
    ∃ e', e.Leads e' ∧ e'.Works p s pool (.busy t (.confirming (d.sizes e.files.coder))) := by
  have hstep : e.step? (.reply p 0 .stored) =
      some ({ e with
        files := e.files.put d.task.path (.ofBytes (d.file e.files.coder)) }.putWorker p 0
          (pool.setWorker 0 (.busy t (.moving d)))
          (.busy t (.confirming (d.sizes e.files.coder)))) := by
    simp only [step?, reply?, h.1.found, h.found, movePart, done, if_true, Option.map_some]
  refine ⟨_, leads_of_step? hstep rfl, ?_⟩
  refine h.put ?_ ?_ ?_ ?_
  · rfl
  · exact h.1.holds
  · rfl
  · rfl

theorem Works.confirms {size : Sizes} (h : e.Works p s pool (.busy t (.confirming size)))
    (missing : s.uploaded[t.part]? = some false) :
    ∃ e', e.Leads e' ∧
      e'.Works p (s.confirm t.part size) pool (.busy t (.done (.ok (.uploaded size)))) := by
  obtain ⟨b, hg, holds⟩ := h.1.holds.confirm missing size
  have hc : e.confirmPart s.id t size = (.done (.ok (.uploaded size)), { e with backend := b }) := by
    simp only [confirmPart, access_eq hg]
    rfl
  have hstep : e.step? (.work p 0) = some ({ e with backend := b }.putWorker p 0
      (pool.setWorker 0 (.busy t (.confirming size)))
      (.busy t (.done (.ok (.uploaded size))))) := by
    simp only [step?, work?, h.1.found, h.found, hc]
  refine ⟨_, leads_of_step? hstep rfl, ?_⟩
  refine h.put ?_ ?_ ?_ ?_
  · rfl
  · exact holds
  · rfl
  · rfl

theorem Works.settles {size : Sizes}
    (h : e.Works p s pool (.busy t (.done (.ok (.uploaded size))))) :
    ∃ e', e.Leads e' ∧ e'.Works p s pool .idle := by
  have hstep : ∃ e₁, e.settle s.id (.ok (.uploaded size)) = (.idle, e₁) ∧
      e.step? (.work p 0) = some (e₁.putWorker p 0
        (pool.setWorker 0 (.busy t (.done (.ok (.uploaded size))))) .idle) := by
    refine ⟨_, rfl, ?_⟩
    simp only [step?, work?, h.1.found, h.found, settle]
  obtain ⟨e₁, he, hstep⟩ := hstep
  cases he
  refine ⟨_, leads_of_step? hstep rfl, ?_⟩
  refine h.put ?_ ?_ ?_ ?_
  · rfl
  · exact h.1.holds
  · rfl
  · rfl

/-- The first worker uploads a part that is missing. -/
theorem Works.delivers (h : e.Works p s pool (.busy t .checking)) (running : s.status = .start)
    (limit : 0 < e.limitFor s) (windows : ∃ ws, windows? t.start t.stop t.window = some ws)
    (missing : s.uploaded[t.part]? = some false) :
    ∃ e' size, e.Leads e' ∧ e'.Works p (s.confirm t.part size) pool .idle := by
  obtain ⟨ws, hws⟩ := windows
  have hd : Download.begin? s.id t (e.limitFor s) = some
      { session := s.id, task := t, limit := e.limitFor s, windows := ws, offset := 0,
        events := [] } := by
    simp only [Download.begin?, hws, Option.map_some]
  obtain ⟨e₁, leads₁, h₁⟩ := h.begins running hd
  obtain ⟨e₂, d, leads₂, h₂, done⟩ := h₁.searches limit
  obtain ⟨e₃, leads₃, h₃⟩ := h₂.stores done
  obtain ⟨e₄, leads₄, h₄⟩ := h₃.confirms missing
  obtain ⟨e₅, leads₅, h₅⟩ := h₄.settles
  exact ⟨e₅, _, leads₁.trans (leads₂.trans (leads₃.trans (leads₄.trans leads₅))), h₅⟩

/-- A session that runs is opened with its tasks. -/
theorem At.opens {tasks : List Task} (h : e.At p s .opening) (running : s.status = .start)
    (laidOut : s.tasks? = some (.ok tasks)) (fits : e.settings.queueSize ≤ Pool.maxCapacity) :
    ∃ e', e.Leads e' ∧
      e'.At p s (.draining (.ofTasks e.settings.workers e.settings.queueSize tasks)) := by
  have hopen : e.openSession p s.id = (e.countRunning (· + 1)).setStage p
      (.draining (.ofTasks e.settings.workers e.settings.queueSize tasks)) := by
    unfold openSession
    rw [access_eq (e := e.countRunning (· + 1)) h.holds.load]
    simp only [running, if_true, laidOut]
    exact if_pos fits
  have hstep : e.step? (.advance p) = some ((e.countRunning (· + 1)).setStage p
      (.draining (.ofTasks e.settings.workers e.settings.queueSize tasks))) := by
    simp only [step?, advance?, h.found, hopen]
  refine ⟨_, leads_of_step? hstep rfl, h.setStage ?_ ?_ ?_ ?_⟩
  · rfl
  · exact h.holds
  · rfl
  · rfl

/-- The first worker takes the next task. -/
theorem At.takes {rest : List Task} (h : e.At p s (.draining pool)) (pending : pool.pending = t :: rest)
    (queue : pool.queue = []) (idle : pool.workers[0]? = some .idle) (room : 0 < pool.capacity)
    (opened : pool.closed = false) :
    ∃ e', e.Leads e' ∧ e'.Works p s { pool with pending := rest } (.busy t .checking) := by
  obtain ⟨hlt, hget⟩ := List.getElem?_eq_some_iff.1 idle
  have going : pool.isOver = false := by
    rw [Pool.isOver, List.all_eq_false]
    exact ⟨_, hget ▸ List.getElem_mem hlt, by decide⟩
  have hfeed : e.step? (.feed p) =
      some (e.setStage p (.draining { pool with pending := rest, queue := [t] })) := by
    simp only [step?, feed?, h.found, Pool.feed?, opened, pending, queue, List.length_nil, room,
      going, Bool.false_eq_true, if_false, if_true, Option.map_some, List.nil_append]
  have h₁ : (e.setStage p (.draining { pool with pending := rest, queue := [t] })).At p s
      (.draining { pool with pending := rest, queue := [t] }) := h.setStage rfl h.holds rfl rfl
  have hwork : (e.setStage p (.draining { pool with pending := rest, queue := [t] })).step?
      (.work p 0) = some ((e.setStage p (.draining { pool with pending := rest, queue := [t] })).setStage
        p (.draining ({ pool with pending := rest }.setWorker 0 (.busy t .checking)))) := by
    simp only [step?, work?, h₁.found, idle, Pool.receive?, Option.map_some, queue, Pool.setWorker]
  exact ⟨_, (leads_of_step? hfeed rfl).trans (leads_of_step? hwork rfl),
    h₁.setStage rfl h.holds rfl rfl, hlt⟩

/-- The tasks are for different parts that are all missing, and no other parts
are. -/
structure Missing (s : Session) (tasks : List Task) : Prop where
  flags : ∀ t ∈ tasks, s.uploaded[t.part]? = some false
  apart : (tasks.map Task.part).Nodup
  rest : ∀ flag i, s.uploaded[i]? = some flag → flag = true ∨ i ∈ tasks.map Task.part

theorem Missing.confirm {rest : List Task} (h : Missing s (t :: rest)) (size : Sizes) :
    Missing (s.confirm t.part size) rest := by
  obtain ⟨hnot, apart⟩ := List.nodup_cons.1 h.apart
  refine ⟨fun u hu => ?_, apart, fun flag i hi => ?_⟩
  · have hne : t.part ≠ u.part := fun he => hnot (he ▸ List.mem_map_of_mem hu)
    simp only [Session.confirm, List.getElem?_set, hne, if_false]
    exact h.flags u (List.mem_cons_of_mem t hu)
  · simp only [Session.confirm, List.getElem?_set] at hi
    split_ifs at hi with he hlt
    · cases hi
      exact .inl rfl
    · refine (h.rest flag i hi).imp_right fun hmem => ?_
      exact (List.mem_cons.1 hmem).resolve_left fun h' => he h'.symm

/-- One task after the other is done, until none is missing. -/
theorem At.uploads {tasks : List Task} (h : e.At p s (.draining pool))
    (running : s.status = .start) (limit : 0 < e.limitFor s) (pending : pool.pending = tasks)
    (queue : pool.queue = []) (idle : pool.workers[0]? = some .idle) (room : 0 < pool.capacity)
    (opened : pool.closed = false)
    (windows : ∀ t ∈ tasks, ∃ ws, windows? t.start t.stop t.window = some ws)
    (missing : Missing s tasks) :
    ∃ e' s', e.Leads e' ∧ e'.At p s' (.draining { pool with pending := [] }) ∧ s.Grown s' ∧
      s'.status = .start ∧ s'.Full := by
  induction tasks generalizing e s pool with
  | nil =>
    refine ⟨e, s, .refl e, ?_, .refl s, running, fun flag hflag => ?_⟩
    · rw [← pending]
      exact h
    · obtain ⟨i, hi⟩ := List.getElem?_of_mem hflag
      exact (missing.rest flag i hi).resolve_right (by simp)
  | cons t rest ih =>
    obtain ⟨e₁, leads₁, h₁⟩ := h.takes pending queue idle room opened
    have limit₁ : 0 < e₁.limitFor s := by
      simp only [limitFor, leads₁.2]
      exact limit
    obtain ⟨e₂, size, leads₂, h₂⟩ := h₁.delivers running limit₁ (windows t List.mem_cons_self)
      (missing.flags t List.mem_cons_self)
    have same : { pool with pending := rest }.setWorker 0 .idle =
        { pool with pending := rest } := by
      obtain ⟨hlt, hget⟩ := List.getElem?_eq_some_iff.1 idle
      rw [Pool.setWorker, ← hget, List.set_getElem_self]
    have at₂ : e₂.At p (s.confirm t.part size) (.draining { pool with pending := rest }) :=
      same ▸ h₂.1
    have limit₂ : 0 < e₂.limitFor (s.confirm t.part size) := by
      simp only [limitFor, leads₂.2]
      exact limit₁
    obtain ⟨e', s', leads, at', grown, running', full⟩ :=
      ih at₂ running limit₂ rfl queue idle room opened
        (fun u hu => windows u (List.mem_cons_of_mem t hu)) (missing.confirm size)
    exact ⟨e', s', leads₁.trans (leads₂.trans leads), at',
      (Session.grown_confirm s t.part size).trans grown, running', full⟩

/-- The queue is closed after the last task, or when no worker is left. -/
theorem At.shuts (h : e.At p s (.draining pool)) (last : pool.pending = [] ∨ pool.isOver = true)
    (opened : pool.closed = false) :
    ∃ e', e.Leads e' ∧ e'.At p s (.draining { pool with closed := true }) := by
  have shut : pool.feed? = some { pool with closed := true } := by
    cases hp : pool.pending with
    | nil => simp only [Pool.feed?, opened, hp, Bool.false_eq_true, if_false]
    | cons t rest =>
      have spent := last.resolve_left (hp ▸ List.cons_ne_nil t rest)
      simp only [Pool.feed?, opened, hp, spent, Bool.false_eq_true, if_false, if_true]
  have hstep : e.step? (.feed p) =
      some (e.setStage p (.draining { pool with closed := true })) := by
    simp only [step?, feed?, h.found, shut, Option.map_some]
  exact ⟨_, leads_of_step? hstep rfl, h.setStage rfl h.holds rfl rfl⟩

/-- The workers find the queue empty, one after the other. -/
theorem At.drains {n m : Nat} (h : e.At p s (.draining pool)) (queue : pool.queue = [])
    (closed : pool.closed = true)
    (workers : pool.workers =
      List.replicate n (.ended .drained) ++ List.replicate m WorkerStage.idle) :
    ∃ e', e.Leads e' ∧ e'.At p s .closing := by
  induction m generalizing e pool n with
  | zero =>
    rw [List.replicate_zero, List.append_nil] at workers
    have ended : pool.isOver = true := by
      rw [Pool.isOver, workers, List.all_replicate]
      simp [WorkerStage.isEnded]
    have clean : pool.isClean = true := by
      rw [Pool.isClean, workers, List.all_replicate]
      simp
    have hstep : e.step? (.advance p) = some (e.setStage p .closing) := by
      simp only [step?, advance?, h.found, ended, closed, clean, and_self, if_true]
    exact ⟨_, leads_of_step? hstep rfl, h.setStage rfl h.holds rfl rfl⟩
  | succ m ih =>
    have next : pool.workers[n]? = some .idle := by
      rw [workers, List.getElem?_append_right (by simp)]
      simp [List.replicate_succ]
    have hstep : e.step? (.work p n) =
        some (e.setStage p (.draining (pool.setWorker n (.ended .drained)))) := by
      simp only [step?, work?, h.found, next, Pool.receive?, queue, closed, if_true,
        Option.map_some]
    have h₁ : (e.setStage p (.draining (pool.setWorker n (.ended .drained)))).At p s
        (.draining (pool.setWorker n (.ended .drained))) := h.setStage rfl h.holds rfl rfl
    have workers₁ : (pool.setWorker n (.ended .drained)).workers =
        List.replicate (n + 1) (.ended .drained) ++ List.replicate m WorkerStage.idle := by
      rw [Pool.setWorker, workers, List.replicate_succ (n := m),
        List.set_append_right _ _ (by simp), List.length_replicate, Nat.sub_self, List.set_cons_zero,
        List.replicate_succ', List.append_assoc, List.singleton_append]
    obtain ⟨e', leads, at'⟩ := ih h₁ queue closed workers₁
    exact ⟨e', (leads_of_step? hstep rfl).trans leads, at'⟩

/-- All parts are uploaded: the list is stored, and the session finishes. -/
theorem At.closes {ps : List Partition} (h : e.At p s .closing) (running : s.status = .start)
    (full : s.Full) (parts : s.parts? = some ps) :
    ∃ e' s', e.Leads e' ∧ e'.At p s' (.ended (.ok ())) ∧ s.Grown s' ∧ s'.status = .finish := by
  have count : s.uploadedCount = s.partCount :=
    List.count_eq_length.2 fun flag hflag => (full flag hflag).symm
  obtain ⟨m, hm⟩ : ∃ m, manifest? e.files s = some m := by
    simp only [manifest?, parts, Option.map_some]
    exact ⟨_, rfl⟩
  have hclose : e.closeSession p s.id = e.setStage p (.listing s m) := by
    unfold closeSession
    rw [access_eq h.holds.load]
    simp only [running, count, and_self, if_true, hm]
  have hstep₁ : e.step? (.advance p) = some (e.setStage p (.listing s m)) := by
    simp only [step?, advance?, h.found, hclose]
  have h₁ : (e.setStage p (.listing s m)).At p s (.listing s m) :=
    h.setStage rfl h.holds rfl rfl
  obtain ⟨e₂, hstep₂, settings₂, h₂⟩ : ∃ e₂,
      (e.setStage p (.listing s m)).step? (.manifest p none) = some e₂ ∧
        e₂.settings = e.settings ∧ e₂.At p s (.finishing s.id) := by
    simp only [step?, listed?, h₁.found]
    refine ⟨_, rfl, rfl, h₁.setStage ?_ ?_ ?_ ?_⟩
    · rfl
    · exact h₁.holds
    · rfl
    · rfl
  obtain ⟨b, hg, holds⟩ :
      ∃ b, Gives (SessionStore.finish e₂.now s.id) e₂.backend (.ok ()) b ∧
        b.Holds (s.ended .finish none e₂.now.reread) :=
    h₂.holds.conclude running h₂.clock (by decide) none
  obtain ⟨e₃, hstep₃, settings₃, h₃⟩ : ∃ e₃, e₂.step? (.advance p) = some e₃ ∧
      e₃.settings = e₂.settings ∧ e₃.At p (s.ended .finish none e₂.now.reread) (.ended (.ok ())) := by
    simp only [step?, advance?, h₂.found, finishSession, access_eq hg]
    refine ⟨_, rfl, rfl, h₂.setStage ?_ ?_ ?_ ?_⟩
    · rfl
    · exact holds
    · rfl
    · rfl
  exact ⟨e₃, _, (leads_of_step? hstep₁ rfl).trans
    ((leads_of_step? hstep₂ settings₂).trans (leads_of_step? hstep₃ settings₃)), h₃,
    Session.grown_ended s .finish none _, rfl⟩

/-- The tasks of a session are its missing parts. -/
theorem missing_of_tasks? {tasks : List Task} (h : s.tasks? = some (.ok tasks)) :
    Missing s tasks ∧ ∃ ps, s.LaidOut ps := by
  obtain ⟨ps, laidOut, -⟩ := Session.tasks?_eq_ok_iff.1 h
  refine ⟨⟨fun t ht => ?_, ?_, fun flag i hi => ?_⟩, ps, laidOut⟩
  · obtain ⟨p, -, missing, rfl⟩ := (laidOut.mem_tasks_iff h).1 ht
    exact missing
  · exact List.pairwise_map.2 ((Session.ascending_of_tasks? h).imp Nat.ne_of_lt)
  · cases flag with
    | true => exact .inl rfl
    | false => exact .inr (Session.mem_parts_of_missing h hi)

/-- A stored session whose range keeps away from the begin of the calendar has
its tasks, and they have their windows. -/
theorem exists_tasks (settled : s.Settled) (hle : s.start ≤ s.stop)
    (count : partitionCount? s.start s.stop s.partLength = some s.partCount)
    (partRoom : s.start.HasRoom s.partLength.step) (windowRoom : s.start.HasRoom s.window.step) :
    ∃ tasks, s.tasks? = some (.ok tasks) ∧
      ∀ t ∈ tasks, ∃ ws, windows? t.start t.stop t.window = some ws := by
  obtain ⟨ps, hps, hlen, hall⟩ :=
    partitions?_isSome settled.start settled.stop hle partRoom count
  refine ⟨(ps.filter fun p => s.uploaded[p.index]? != some true).map s.taskOf, ?_, ?_⟩
  · exact Session.tasks?_eq_ok_iff.2 ⟨ps, ⟨hps, hlen⟩, rfl⟩
  intro t ht
  obtain ⟨q, hq, rfl⟩ := List.mem_map.1 ht
  obtain ⟨hstart, hstop⟩ := hall q (List.mem_filter.1 hq).1
  exact windows?_isSome hstop (windowRoom.mono hstart)

/-- From its first step a pipeline can come to its end, with the session
finished. -/
theorem At.finishes {tasks : List Task} (h : e.At p s .opening) (running : s.status = .start)
    (limit : 0 < e.limitFor s) (fits : e.settings.queueSize ≤ Pool.maxCapacity)
    (laidOut : s.tasks? = some (.ok tasks))
    (windows : ∀ t ∈ tasks, ∃ ws, windows? t.start t.stop t.window = some ws) :
    ∃ e' s', e.Leads e' ∧ e'.At p s' (.ended (.ok ())) ∧ s.Grown s' ∧ s'.status = .finish := by
  obtain ⟨missing, ps, hps⟩ := missing_of_tasks? laidOut
  obtain ⟨e₁, leads₁, h₁⟩ := h.opens running laidOut fits
  have limit₁ : 0 < e₁.limitFor s := by
    simp only [limitFor, leads₁.2]
    exact limit
  obtain ⟨e₂, s₂, leads₂, h₂, grown₂, running₂, full⟩ := h₁.uploads running limit₁ rfl rfl
    (by simp [Pool.ofTasks]) (by simp [Pool.ofTasks]) rfl windows missing
  obtain ⟨e₃, leads₃, h₃⟩ := h₂.shuts (.inl rfl) rfl
  obtain ⟨e₄, leads₄, h₄⟩ := h₃.drains (n := 0) rfl rfl rfl
  obtain ⟨e₅, s₅, leads₅, h₅, grown₅, finished⟩ :=
    h₄.closes running₂ full (grown₂.laidOut hps).parts
  exact ⟨e₅, s₅, leads₁.trans (leads₂.trans (leads₃.trans (leads₄.trans leads₅))), h₅,
    grown₂.trans grown₅, finished⟩

end Stages

end Engine

end LogExport
