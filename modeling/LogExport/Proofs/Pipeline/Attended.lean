import LogExport.Proofs.Pipeline.Strides

/-! A pipeline attends to a session that runs if it goes on until all parts are
uploaded, or else fails the session. Without a shutdown it does not stop
attending before the session has ended. -/

namespace LogExport

/-- The task of a part that the worker still has to confirm. -/
def WorkerStage.task? : WorkerStage → Option Task
  | busy _ (.done (.ok (.uploaded _))) => none
  | busy t _ => some t
  | _ => none

/-- The worker does not leave while the session runs and tasks are left. -/
def WorkerStage.isKeen : WorkerStage → Bool
  | busy _ (.done (.ok .skipped)) => false
  | ended .drained => true
  | ended _ => false
  | _ => true

/-- A part that is missing after a confirmation is another one, and was missing
before. -/
theorem Session.missing_of_confirm {s : Session} {part i : Nat} {size : Sizes}
    (h : (s.confirm part size).uploaded[i]? = some false) :
    s.uploaded[i]? = some false ∧ part ≠ i := by
  simp only [confirm, List.getElem?_set] at h
  split_ifs at h with hi
  · cases h
  · exact ⟨h, hi⟩

namespace Pool

/-- The tasks of all parts that are still to be confirmed. -/
def tasks (pool : Pool) : List Task :=
  pool.pending ++ pool.queue ++ pool.workers.filterMap WorkerStage.task?

variable {pool pool' : Pool} {k : Nat} {w w' : WorkerStage}

/-- One worker has one task or none; the others are what remains. -/
theorem exists_rest (at_work : pool.workers[k]? = some w) :
    ∃ rest, pool.tasks.Perm (w.task?.toList ++ rest) ∧
      ∀ w', (pool.setWorker k w').tasks.Perm (w'.task?.toList ++ rest) := by
  obtain ⟨hlt, hget⟩ := List.getElem?_eq_some_iff.1 at_work
  have split (u : WorkerStage) (before after : List WorkerStage) :
      (pool.pending ++ pool.queue ++ (before ++ u :: after).filterMap WorkerStage.task?).Perm
        (u.task?.toList ++ (pool.pending ++ pool.queue ++
          (before.filterMap WorkerStage.task? ++ after.filterMap WorkerStage.task?))) := by
    rw [List.filterMap_append, List.filterMap_cons]
    cases u.task? with
    | none => exact .refl _
    | some t =>
      simp only [Option.toList_some, List.singleton_append]
      rw [← List.append_assoc, ← List.append_assoc]
      exact List.perm_middle
  refine ⟨pool.pending ++ pool.queue ++ ((pool.workers.take k).filterMap WorkerStage.task? ++
    (pool.workers.drop (k + 1)).filterMap WorkerStage.task?), ?_, fun w' => ?_⟩
  · have hw : pool.workers = pool.workers.take k ++ w :: pool.workers.drop (k + 1) := by
      rw [← hget, List.getElem_cons_drop, List.take_append_drop]
    have := split w (pool.workers.take k) (pool.workers.drop (k + 1))
    rwa [← hw] at this
  · rw [tasks, setWorker, List.set_eq_take_append_cons_drop, if_pos hlt]
    exact split w' (pool.workers.take k) (pool.workers.drop (k + 1))

theorem perm_feed (feeds : pool.feed? = some pool') : pool'.tasks.Perm pool.tasks := by
  obtain ⟨-, ⟨t, rest, hp, -, rfl⟩ | ⟨-, rfl⟩⟩ := feed?_eq_some feeds
  · simp only [tasks, hp]
    refine List.Perm.append_right _ ?_
    rw [← List.append_assoc]
    exact List.perm_append_singleton _ _
  · exact .refl _

theorem perm_receive (idle : pool.workers[k]? = some .idle)
    (receives : pool.receive? k = some pool') : pool'.tasks.Perm pool.tasks := by
  rcases receive?_eq_some receives with ⟨t, rest, hq, rfl⟩ | ⟨-, -, rfl⟩
  · obtain ⟨others, hall, hset⟩ := @exists_rest { pool with queue := rest } k .idle idle
    have first : pool.tasks.Perm (t :: tasks { pool with queue := rest }) := by
      simp only [tasks, hq, List.append_assoc, List.cons_append]
      exact List.perm_middle
    exact (hset _).trans ((hall.symm.cons t).trans first.symm)
  · obtain ⟨others, hall, hset⟩ := exists_rest idle
    exact (hset _).trans hall.symm

/-- The workers go on until every part that is missing is confirmed. -/
structure Attends (pool : Pool) (s : Session) : Prop where
  manned : pool.workers ≠ []
  keen : ∀ w ∈ pool.workers, w.isKeen = true
  closed : pool.closed = true → pool.pending = []
  drained : .ended .drained ∈ pool.workers → pool.closed = true ∧ pool.queue = []
  covers : ∀ i, s.uploaded[i]? = some false → i ∈ pool.tasks.map Task.part

variable {s s' : Session}

theorem attends_ofTasks {workers capacity : Nat} {tasks : List Task}
    (laidOut : s.tasks? = some (.ok tasks)) : (ofTasks workers capacity tasks).Attends s := by
  have idle {w : WorkerStage} (h : w ∈ (ofTasks workers capacity tasks).workers) : w = .idle :=
    List.eq_of_mem_replicate h
  refine ⟨?_, fun w hw => ?_, nofun, fun hw => ?_, fun i hi => ?_⟩
  · simp only [ofTasks, ne_eq, List.replicate_eq_nil_iff]
    omega
  · rw [idle hw]
    rfl
  · cases idle hw
  · have missing := ((Engine.missing_of_tasks? laidOut).1.rest false i hi).resolve_left (by decide)
    simp only [Pool.tasks, ofTasks, List.append_nil, List.map_append]
    exact List.mem_append_left _ missing

/-- A worker may change as long as it keeps its task, or the part is no longer
missing. -/
theorem Attends.setWorker (h : pool.Attends s) (at_work : pool.workers[k]? = some w)
    (keen : w'.isKeen = true)
    (left : w' = .ended .drained → pool.closed = true ∧ pool.queue = [])
    (covers : ∀ i, s'.uploaded[i]? = some false → s.uploaded[i]? = some false ∧
      ∀ t, w.task? = some t → w'.task? = some t ∨ t.part ≠ i) :
    (pool.setWorker k w').Attends s' := by
  refine ⟨?_, fun u hu => ?_, h.closed, fun hu => ?_, fun i hi => ?_⟩
  · simpa [Pool.setWorker] using h.manned
  · rcases List.mem_or_eq_of_mem_set hu with hu | rfl
    · exact h.keen u hu
    · exact keen
  · rcases List.mem_or_eq_of_mem_set hu with hu | hu
    · exact h.drained hu
    · exact left hu.symm
  · obtain ⟨rest, hall, hset⟩ := exists_rest at_work
    obtain ⟨hi, kept⟩ := covers i hi
    rw [((hset w').map _).mem_iff]
    have hmem := (hall.map _).mem_iff.1 (h.covers i hi)
    simp only [List.map_append, List.mem_append, List.mem_map, Option.mem_toList] at hmem ⊢
    rcases hmem with ⟨t, ht, hpart⟩ | hmem
    · exact .inl ⟨t, (kept t ht).resolve_right fun hne => hne hpart, hpart⟩
    · exact .inr hmem

theorem Attends.receive (h : pool.Attends s) (idle : pool.workers[k]? = some .idle)
    (receives : pool.receive? k = some pool') : pool'.Attends s := by
  have perm := perm_receive idle receives
  have covers : ∀ i, s.uploaded[i]? = some false → i ∈ pool'.tasks.map Task.part :=
    fun i hi => (perm.map _).mem_iff.2 (h.covers i hi)
  rcases receive?_eq_some receives with ⟨t, rest, hq, rfl⟩ | ⟨hq, closed, rfl⟩
  · refine ⟨by simpa [Pool.setWorker] using h.manned, fun u hu => ?_, h.closed, fun hu => ?_, covers⟩
    · rcases List.mem_or_eq_of_mem_set hu with hu | rfl
      · exact h.keen u hu
      · rfl
    · rcases List.mem_or_eq_of_mem_set hu with hu | hu
      · rw [(h.drained hu).2] at hq
        cases hq
      · cases hu
  · exact h.setWorker idle rfl (fun _ => ⟨closed, hq⟩) fun i hi => ⟨hi, fun t ht => by cases ht⟩

/-- When all workers have found the queue empty, no part is missing. -/
theorem Attends.full (h : pool.Attends s) (clean : pool.isClean = true) : s.Full := by
  have ended : ∀ w ∈ pool.workers, w = .ended .drained := by
    intro w hw
    have := List.all_eq_true.1 clean w hw
    split at this
    · rfl
    · cases this
  obtain ⟨w, hw⟩ := List.exists_mem_of_ne_nil _ h.manned
  obtain ⟨closed, queue⟩ := h.drained (ended w hw ▸ hw)
  have pending := h.closed closed
  have none_left : pool.tasks = [] := by
    simp only [Pool.tasks, pending, queue, List.nil_append, List.filterMap_eq_nil_iff]
    intro w hw
    rw [ended w hw]
    rfl
  intro flag hflag
  obtain ⟨i, hi⟩ := List.getElem?_of_mem hflag
  cases flag with
  | true => rfl
  | false =>
    have := h.covers i hi
    rw [none_left] at this
    cases this

/-- Keen workers end only when the queue is empty. -/
theorem Attends.eq_drained (h : pool.Attends s) (spent : pool.isOver = true)
    (hw : w ∈ pool.workers) : w = .ended .drained := by
  have ended := List.all_eq_true.1 spent w hw
  have keen := h.keen w hw
  cases w with
  | ended exit =>
    cases exit with
    | drained => rfl
    | _ => cases keen
  | _ => cases ended

theorem Attends.clean (h : pool.Attends s) (spent : pool.isOver = true) : pool.isClean = true :=
  List.all_eq_true.2 fun w hw => by rw [h.eq_drained spent hw]

theorem Attends.drained_of_isOver (h : pool.Attends s) (spent : pool.isOver = true) :
    .ended .drained ∈ pool.workers := by
  obtain ⟨w, hw⟩ := List.exists_mem_of_ne_nil _ h.manned
  exact h.eq_drained spent hw ▸ hw

theorem Attends.feed (h : pool.Attends s) (feeds : pool.feed? = some pool') : pool'.Attends s := by
  have covers : ∀ i, s.uploaded[i]? = some false → i ∈ pool'.tasks.map Task.part :=
    fun i hi => ((perm_feed feeds).map _).mem_iff.2 (h.covers i hi)
  obtain ⟨opened, ⟨t, rest, hp, -, rfl⟩ | ⟨ends, rfl⟩⟩ := feed?_eq_some feeds
  · refine ⟨h.manned, h.keen, fun closed => ?_, fun hw => ?_, covers⟩
    · cases opened.symm.trans closed
    · cases opened.symm.trans (h.drained hw).1
  · refine ⟨h.manned, h.keen, fun _ => ?_, fun hw => ⟨rfl, (h.drained hw).2⟩, covers⟩
    rcases ends with empty | spent
    · exact empty
    · cases opened.symm.trans (h.drained (h.drained_of_isOver spent)).1

theorem Attends.confirm (h : pool.Attends s) (part : Nat) (size : Sizes) :
    pool.Attends (s.confirm part size) :=
  { h with covers := fun i hi => h.covers i (Session.missing_of_confirm hi).1 }

end Pool

/-- The tasks of the session can be laid out: no bound of a part leaves the
calendar, and there are as many parts as flags. -/
def Session.Layable (s : Session) : Prop := ∃ ps, s.LaidOut ps

theorem Session.Grown.layable_iff {s s' : Session} (h : s.Grown s') :
    s'.Layable ↔ s.Layable := exists_congr fun _ => h.laidOut_iff

theorem Session.Layable.exists_tasks {s : Session} (h : s.Layable) :
    ∃ tasks, s.tasks? = some (.ok tasks) := by
  obtain ⟨ps, laidOut⟩ := h
  exact ⟨_, tasks?_eq_ok_iff.2 ⟨ps, laidOut, rfl⟩⟩

/-- A pipeline of the session gets beyond its first stage: the tasks can be laid out,
and a queue of the size that is set can be made. -/
structure Engine.CanOpen (e : Engine) (s : Session) : Prop where
  layable : s.Layable
  fits : e.settings.queueSize ≤ Pool.maxCapacity

theorem Session.Grown.canOpen_iff {s s' : Session} {e e' : Engine} (h : s.Grown s')
    (settings : e'.settings = e.settings) : e'.CanOpen s' ↔ e.CanOpen s := by
  constructor
  · rintro ⟨layable, fits⟩
    exact ⟨h.layable_iff.1 layable, settings ▸ fits⟩
  · rintro ⟨layable, fits⟩
    exact ⟨h.layable_iff.2 layable, settings.symm ▸ fits⟩

/-- The pipeline will upload all parts of the session, or fail it. -/
def PipelineStage.Attends (s : Session) : PipelineStage → Prop
  | opening => True
  | draining pool => pool.Attends s
  | closing => s.Full
  | listing t _ => t.id = s.id
  | finishing id => id = s.id
  | failing _ => True
  | ended _ => False
  | crashed => False

theorem PipelineStage.Attends.going {s : Session} {stage : PipelineStage} (h : stage.Attends s) :
    stage.isEnded = false := by
  cases stage with
  | ended => exact h.elim
  | crashed => exact h.elim
  | _ => rfl

/-- Confirmations by others do not keep a pipeline from attending. -/
theorem PipelineStage.Attends.confirm {s : Session} {stage : PipelineStage} (h : stage.Attends s)
    (part : Nat) (size : Sizes) : stage.Attends (s.confirm part size) := by
  cases stage with
  | draining pool => exact Pool.Attends.confirm h part size
  | closing => exact (Session.grown_confirm s part size).full h
  | _ => exact h

/-- What comes of a stride: the session has ended, or its pipeline attends to it
as before, and may have confirmed a part. -/
def Attended (s : Session) (c : Change) (stage : PipelineStage) : Prop :=
  (∃ status error now, c = .conclude s.id status error now) ∨
    (c = .keep ∧ stage.Attends s) ∨
    ∃ part size, c = .confirm s.id part size ∧ stage.Attends (s.confirm part size)

section Strides

variable {e : Engine} {p k : Nat} {s : Session} {m : Move} {pool : Pool} {w w' : WorkerStage}
  {c : Change} {deed : Option Deed} {stage stage' : PipelineStage}

theorem WorkerStride.attended (works : WorkerStride e p k s m w c deed w')
    (going : e.stopping = false) (at_work : pool.workers[k]? = some w) (h : pool.Attends s) :
    Attended s c (.draining (pool.setWorker k w')) := by
  -- Without a change the worker keeps its task.
  have keeps {u : WorkerStage} (keen : u.isKeen = true) (busy : u ≠ .ended .drained)
      (task : ∀ t, w.task? = some t → u.task? = some t) :
      Attended s .keep (.draining (pool.setWorker k u)) :=
    .inr (.inl ⟨rfl, h.setWorker at_work keen (fun hu => absurd hu busy)
      fun i hi => ⟨hi, fun t ht => .inl (task t ht)⟩⟩)
  have keen := h.keen w (List.mem_of_getElem? at_work)
  cases works with
  | begun => exact keeps rfl nofun fun _ ht => ht
  | unsearchable => exact keeps rfl nofun fun _ ht => ht
  | page => exact keeps rfl nofun fun _ ht => ht
  | unanswered => exact keeps rfl nofun fun _ ht => ht
  | stored => exact keeps rfl nofun fun _ ht => ht
  | refused => exact keeps rfl nofun fun _ ht => ht
  | died => exact keeps rfl nofun fun _ ht => ht
  | @confirmed task size missing =>
    refine .inr (.inr ⟨_, _, rfl, h.setWorker at_work rfl nofun fun i hi => ?_⟩)
    obtain ⟨hi, other⟩ := Session.missing_of_confirm hi
    exact ⟨hi, fun t ht => by cases ht; exact .inr other⟩
  | unconfirmed => exact keeps rfl nofun fun _ ht => ht
  | settled => exact keeps rfl nofun fun _ ht => ht
  | stopped => cases keen
  | interrupted stopping =>
    rw [going] at stopping
    cases stopping
  | failed => exact .inl ⟨_, _, _, rfl⟩
  | reported => exact .inl ⟨_, _, _, rfl⟩

/-- A pipeline goes on attending to a session that runs until it has ended it. -/
theorem PipelineStride.attended (h : PipelineStride e p s m stage c deed stage')
    (going : e.stopping = false) (opens : e.CanOpen s) (attends : stage.Attends s) :
    Attended s c stage' := by
  cases h with
  | opened laidOut => exact .inr (.inl ⟨rfl, Pool.attends_ofTasks laidOut⟩)
  | unopened unlaid =>
    obtain ⟨tasks, laidOut⟩ := opens.layable.exists_tasks
    exact absurd laidOut (unlaid tasks)
  | overfull large => exact absurd opens.fits (Nat.not_le_of_lt large)
  | fed feeds => exact .inr (.inl ⟨rfl, Pool.Attends.feed attends feeds⟩)
  | received idle receives => exact .inr (.inl ⟨rfl, Pool.Attends.receive attends idle receives⟩)
  | worked at_work works => exact works.attended going at_work attends
  | drained clean => exact .inr (.inl ⟨rfl, Pool.Attends.full attends clean⟩)
  | gaveUp spent unclean =>
    rw [Pool.Attends.clean attends spent] at unclean
    cases unclean
  | checked => exact .inr (.inl ⟨rfl, rfl⟩)
  | unlistable never =>
    obtain ⟨ps, parts, -⟩ := opens.layable
    simp only [Engine.manifest?, parts, Option.map_some] at never
    cases never
  | incomplete lacking =>
    exact absurd (List.count_eq_length.2 fun flag hflag => (attends flag hflag).symm) lacking
  | listed => exact .inr (.inl ⟨rfl, attends⟩)
  | unlisted => exact .inr (.inl ⟨rfl, trivial⟩)
  | finished => exact .inl ⟨_, _, _, rfl⟩
  | recorded => exact .inl ⟨_, _, _, rfl⟩

end Strides

end LogExport
