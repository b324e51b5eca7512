import LogExport.Proofs.Pipeline.Attended
import LogExport.Proofs.Session.Ledger

/-! A pipeline that is answered from an archive, with a file store that takes
everything. Its workers have what the archive has for their parts, so that the
books of the session stay right with every move. Only a session whose parts
cannot be searched fails. -/

namespace LogExport

/-- Moves that an archive and a file store that takes everything bring about.
Searches are cancelled only by a shutdown. -/
def Archive.Allows (a : Archive) (e : Engine) : Move → Prop
  | .reply p k (.page (.ok events)) =>
    ∀ d r, e.search? p k = some d → d.request? = some r → events = a.page r
  | .reply _ _ (.page (.error err)) => err = .cancelled ∧ e.stopping = true
  | .reply _ _ (.refused _) => False
  | .reply _ _ .crash => False
  | .manifest _ fault => fault = none
  | _ => True

/-- The tasks are for different parts that are all missing. -/
structure Session.Lacks (s : Session) (tasks : List Task) : Prop where
  missing : ∀ t ∈ tasks, s.uploaded[t.part]? = some false
  apart : (tasks.map Task.part).Nodup

namespace Session.Lacks

variable {s : Session} {tasks tasks' : List Task} {t : Task}

theorem perm (h : s.Lacks tasks) (same : tasks'.Perm tasks) : s.Lacks tasks' where
  missing t ht := h.missing t (same.mem_iff.1 ht)
  apart := (same.map _).nodup_iff.2 h.apart

theorem sublist (h : s.Lacks tasks) (fewer : tasks'.Sublist tasks) : s.Lacks tasks' where
  missing t ht := h.missing t (fewer.subset ht)
  apart := h.apart.sublist (fewer.map _)

/-- Confirming one of the parts does not touch the others. -/
theorem confirm (h : s.Lacks (t :: tasks)) (size : Sizes) :
    (s.confirm t.part size).Lacks tasks := by
  obtain ⟨hnot, apart⟩ := List.nodup_cons.1 h.apart
  refine ⟨fun u hu => ?_, apart⟩
  have hne : t.part ≠ u.part := fun he => hnot (he ▸ List.mem_map_of_mem hu)
  simp only [Session.confirm, List.getElem?_set, hne, if_false]
  exact h.missing u (List.mem_cons_of_mem t hu)

end Session.Lacks

/-- A worker that has what the archive has for its part. It stops only for a
shutdown, and dies only over a part that cannot be searched. -/
inductive WorkerStage.Faithful (a : Archive) (stopping : Bool) (s : Session) (files : Files) :
    WorkerStage → Prop
  | idle : Faithful a stopping s files .idle
  | checking {t : Task} (owns : s.Owns t) : Faithful a stopping s files (.busy t .checking)
  | moving {t : Task} {d : Download} (owns : s.Owns t) (follows : a.Follows t d) :
    Faithful a stopping s files (.busy t (.moving d))
  | confirming {t : Task} (owns : s.Owns t) (stored : a.Stored files t) :
    Faithful a stopping s files (.busy t (.confirming (a.sizes files.coder t)))
  | settling {t : Task} {size : Sizes} :
    Faithful a stopping s files (.busy t (.done (.ok (.uploaded size))))
  | cancelled {t : Task} (stops : stopping = true) :
    Faithful a stopping s files (.busy t (.done (.error (.search .cancelled))))
  | unsearchable {t : Task} (owns : s.Owns t) (never : ¬ t.Searchable) :
    Faithful a stopping s files (.busy t .crashed)
  | drained : Faithful a stopping s files (.ended .drained)
  | interrupted (stops : stopping = true) : Faithful a stopping s files (.ended .interrupted)

/-- Workers of a pool whose tasks are for different missing parts. -/
structure Pool.Faithful (a : Archive) (stopping : Bool) (s : Session) (files : Files)
    (pool : Pool) : Prop where
  each : pool.Each s.Owns (WorkerStage.Faithful a stopping s files)
  lacks : s.Lacks pool.tasks
  room : 0 < pool.capacity

def PipelineStage.Faithful (a : Archive) (base : Files) (stopping : Bool) (s : Session)
    (files : Files) : PipelineStage → Prop
  | opening => True
  | draining pool => s.Layable ∧ pool.Faithful a stopping s files
  | closing => s.Layable
  | listing t m =>
    t = s ∧ s.Full ∧ ∃ ps, s.LaidOut ps ∧ m = linkList base.linkBase s.pathRoot ps
  | finishing id => id = s.id ∧ a.Complete base s files
  | failing _ => False
  | ended _ => True
  | crashed => True

/-- What comes of a stride: the books are right afterwards, or the session fails
because its parts cannot be searched. -/
inductive Archive.Kept (a : Archive) (base : Files) (stopping : Bool) (s : Session)
    (files : Files) : Change → Option Deed → PipelineStage → Prop
  | on {deed : Option Deed} {stage : PipelineStage}
      (ledger : a.Ledger base s (Engine.filesAfter files deed))
      (faithful : stage.Faithful a base stopping s (Engine.filesAfter files deed)) :
    Kept a base stopping s files .keep deed stage
  | confirmed {t : Task} {stage : PipelineStage}
      (ledger : a.Ledger base (s.confirm t.part (a.sizes files.coder t)) files)
      (faithful : stage.Faithful a base stopping (s.confirm t.part (a.sizes files.coder t)) files) :
    Kept a base stopping s files (.confirm s.id t.part (a.sizes files.coder t)) none stage
  | finished {now : Instant} (complete : a.Complete base s files) :
    Kept a base stopping s files (.conclude s.id .finish none now) none (.ended (.ok ()))
  | failed {error : Option String} {now : Instant} {stage : PipelineStage}
      (never : ¬ s.Searchable) :
    Kept a base stopping s files (.conclude s.id .fail error now) none stage

section Workers

variable {a : Archive} {stopping stopping' : Bool} {s s' : Session} {files files' : Files}
  {pool pool' : Pool} {k : Nat} {w w' : WorkerStage} {t : Task}

theorem WorkerStage.Faithful.mono (h : w.Faithful a stopping s files) (grown : s.Grown s')
    (stops : stopping = true → stopping' = true) (coder : files'.coder = files.coder)
    (kept : ∀ t, s.Owns t → a.Stored files t → a.Stored files' t) :
    w.Faithful a stopping' s' files' := by
  cases h with
  | idle => exact .idle
  | checking owns => exact .checking (grown.owns owns)
  | moving owns follows => exact .moving (grown.owns owns) follows
  | confirming owns stored =>
    rw [← coder]
    exact .confirming (grown.owns owns) (kept _ owns stored)
  | settling => exact .settling
  | cancelled h => exact .cancelled (stops h)
  | unsearchable owns never => exact .unsearchable (grown.owns owns) never
  | drained => exact .drained
  | interrupted h => exact .interrupted (stops h)

namespace Pool

theorem Faithful.mono (h : pool.Faithful a stopping s files)
    (stops : stopping = true → stopping' = true) (coder : files'.coder = files.coder)
    (kept : ∀ t, s.Owns t → a.Stored files t → a.Stored files' t) :
    pool.Faithful a stopping' s files' :=
  { h with each := h.each.imp (fun _ owns => owns) fun _ hw => hw.mono (.refl s) stops coder kept }

theorem faithful_ofTasks {workers capacity : Nat} {tasks : List Task}
    (laidOut : s.tasks? = some (.ok tasks)) :
    (ofTasks workers capacity tasks).Faithful a stopping s files := by
  obtain ⟨missing, -⟩ := Engine.missing_of_tasks? laidOut
  obtain ⟨ps, parts, htasks⟩ := Option.map_eq_some_iff.1 laidOut
  split_ifs at htasks with length
  cases htasks
  refine ⟨each_ofTasks (fun t ht => ?_) .idle, ?_, by simp [ofTasks]⟩
  · obtain ⟨p, hp, rfl⟩ := List.mem_map.1 ht
    exact ⟨ps, p, ⟨parts, length⟩, (List.mem_filter.1 hp).1, rfl⟩
  · have none_at_work (n : Nat) :
        (List.replicate n WorkerStage.idle).filterMap WorkerStage.task? = [] := by
      rw [List.filterMap_eq_nil_iff]
      intro w hw
      rw [List.eq_of_mem_replicate hw]
      rfl
    simp only [Pool.tasks, ofTasks, List.append_nil, none_at_work]
    exact ⟨missing.flags, missing.apart⟩

theorem Faithful.feed (h : pool.Faithful a stopping s files) (feeds : pool.feed? = some pool') :
    pool'.Faithful a stopping s files := by
  refine ⟨h.each.feed feeds, h.lacks.perm (perm_feed feeds), ?_⟩
  obtain ⟨-, ⟨t, rest, -, -, rfl⟩ | ⟨-, rfl⟩⟩ := feed?_eq_some feeds <;> exact h.room

theorem Faithful.receive (h : pool.Faithful a stopping s files)
    (idle : pool.workers[k]? = some .idle) (receives : pool.receive? k = some pool') :
    pool'.Faithful a stopping s files := by
  refine ⟨h.each.receive (fun _ => .checking) .drained receives,
    h.lacks.perm (perm_receive idle receives), ?_⟩
  rcases receive?_eq_some receives with ⟨t, rest, -, rfl⟩ | ⟨-, -, rfl⟩ <;> exact h.room

/-- A worker that goes on has the same task or none. -/
theorem Faithful.setWorker (h : pool.Faithful a stopping s files)
    (at_work : pool.workers[k]? = some w) (faithful : w'.Faithful a stopping s files)
    (task : ∀ t, w'.task? = some t → w.task? = some t) :
    (pool.setWorker k w').Faithful a stopping s files := by
  refine ⟨h.each.setWorker faithful, ?_, h.room⟩
  obtain ⟨rest, hall, hset⟩ := exists_rest at_work
  refine ((h.lacks.perm hall.symm).sublist ?_).perm (hset w')
  refine List.Sublist.append_right ?_ rest
  cases ht : w'.task? with
  | none => exact List.nil_sublist _
  | some t => rw [task t ht]

/-- A worker whose part is confirmed has no task any more. -/
theorem Faithful.confirm (h : pool.Faithful a stopping s files)
    (at_work : pool.workers[k]? = some w) (task : w.task? = some t) (size : Sizes) :
    (pool.setWorker k (.busy t (.done (.ok (.uploaded size))))).Faithful a stopping
      (s.confirm t.part size) files := by
  have grown := Session.grown_confirm s t.part size
  obtain ⟨rest, hall, hset⟩ := exists_rest at_work
  have lacks := h.lacks.perm hall.symm
  rw [task] at lacks
  refine ⟨Each.setWorker ?_ .settling, (lacks.confirm size).perm (hset _), h.room⟩
  exact h.each.imp (fun _ => grown.owns) fun _ hw => hw.mono grown id rfl fun _ _ stored => stored

/-- The part of a worker that still has a task is missing. -/
theorem Faithful.missing (h : pool.Faithful a stopping s files)
    (at_work : pool.workers[k]? = some w) (task : w.task? = some t) :
    s.uploaded[t.part]? = some false := by
  obtain ⟨rest, hall, -⟩ := exists_rest at_work
  refine h.lacks.missing t (hall.mem_iff.2 ?_)
  rw [task]
  exact List.mem_cons_self

end Pool

end Workers

/-- What is done to other files does not matter, nor does a shutdown. -/
theorem PipelineStage.Faithful.alike {a : Archive} {base files files' : Files} {s : Session}
    {stopping stopping' : Bool} {stage : PipelineStage} (h : stage.Faithful a base stopping s files)
    (stops : stopping = true → stopping' = true) (same : files.Alike s.id files')
    (rooted : s.Rooted) : stage.Faithful a base stopping' s files' := by
  cases stage with
  | draining pool =>
    exact ⟨h.1, h.2.mono stops same.coder fun _ owns stored => stored.alike same rooted owns⟩
  | finishing => exact ⟨h.1, h.2.alike same rooted⟩
  | _ => exact h

section Strides

variable {a : Archive} {base : Files} {e : Engine} {p k : Nat} {s : Session} {m : Move}
  {pool : Pool} {w w' : WorkerStage} {c : Change} {deed : Option Deed}
  {stage stage' : PipelineStage}

theorem Session.Searchable.layable (h : s.Searchable) : s.Layable := by
  obtain ⟨ps, laidOut, -⟩ := h
  exact ⟨ps, laidOut⟩

theorem Session.Owns.searchable {t : Task} (owns : s.Owns t) (searchable : s.Searchable) :
    t.Searchable := by
  obtain ⟨ps, p, laidOut, hp, rfl⟩ := owns
  obtain ⟨ps', laidOut', all⟩ := searchable
  exact all p (laidOut.unique laidOut' ▸ hp)

theorem WorkerStride.faithful (works : WorkerStride e p k s m w c deed w')
    (allowed : a.Allows e m)
    (searching : ∀ t d, w = .busy t (.moving d) → e.search? p k = some d)
    (pages : 0 < s.batchSize) (aligned : s.Aligned) (ledger : a.Ledger base s e.files)
    (layable : s.Layable) (at_work : pool.workers[k]? = some w)
    (h : pool.Faithful a e.stopping s e.files) :
    a.Kept base e.stopping s e.files c deed (.draining (pool.setWorker k w')) := by
  have limit : 0 < e.limitFor s := by
    rw [Engine.limitFor, if_neg pages.ne']
    exact pages
  -- The books do not change while a worker goes on with its task.
  have goes_on {u : WorkerStage} (faithful : u.Faithful a e.stopping s e.files)
      (task : ∀ t, u.task? = some t → w.task? = some t) :
      a.Kept base e.stopping s e.files .keep none (.draining (pool.setWorker k u)) :=
    .on ledger ⟨layable, h.setWorker at_work faithful task⟩
  have worker := h.each.workers w (List.mem_of_getElem? at_work)
  cases works with
  | begun begins =>
    cases worker with
    | checking owns =>
      exact goes_on (.moving owns (Archive.follows_begin limit begins).1) fun _ ht => ht
  | unsearchable never =>
    cases worker with
    | checking owns =>
      exact goes_on (.unsearchable owns (Archive.unsearchable_of_begin never)) fun _ ht => ht
  | @page t d r events asked =>
    cases worker with
    | moving owns follows =>
      obtain rfl := allowed d r (searching t d rfl) asked
      exact .on ledger
        ⟨layable, h.setWorker at_work (.moving owns (follows.take asked)) fun _ ht => ht⟩
  | unanswered =>
    obtain ⟨rfl, stops⟩ := allowed
    exact goes_on (.cancelled stops) fun _ ht => ht
  | @stored t d isDone =>
    cases worker with
    | moving owns follows =>
      obtain ⟨content, sizes⟩ := follows.done isDone e.files.coder
      have yields : a.Yields base s d.task.path (.ofBytes (d.file e.files.coder)) := by
        rw [content, follows.task, ledger.coder]
        exact .part owns
      have stored : a.Stored (e.files.put d.task.path (.ofBytes (d.file e.files.coder))) t := by
        refine ⟨follows.searchable, ?_⟩
        rw [Files.object?_put, follows.task, if_pos rfl, content]
        rfl
      refine .on (ledger.put aligned yields)
        ⟨layable, Pool.Faithful.setWorker ?_ at_work ?_ fun _ ht => ht⟩
      · exact h.mono id rfl fun t owns stored => stored.put aligned owns ledger.coder yields
      · rw [sizes]
        exact .confirming owns stored
  | refused => exact allowed.elim
  | died => exact allowed.elim
  | @confirmed t size missing =>
    cases worker with
    | confirming owns stored =>
      exact .confirmed (ledger.confirm missing owns stored)
        ⟨(Session.grown_confirm s _ _).layable_iff.2 layable, h.confirm at_work rfl _⟩
  | unconfirmed known => exact absurd (h.missing at_work rfl) known
  | settled => exact goes_on .idle (by rintro _ ⟨⟩)
  | stopped => cases worker
  | interrupted stopping => exact goes_on (.interrupted stopping) (by rintro _ ⟨⟩)
  | failed fatal =>
    cases worker with
    | cancelled stops => exact absurd ⟨rfl, stops⟩ fatal
  | reported =>
    cases worker with
    | unsearchable owns never => exact .failed fun all => never (owns.searchable all)

/-- The books of the session stay right with every stride, unless it fails. -/
theorem PipelineStride.faithful (h : PipelineStride e p s m stage c deed stage')
    (allowed : a.Allows e m) (found : e.pipelines[p]? = some ⟨s.id, stage⟩)
    (pages : 0 < s.batchSize) (aligned : s.Aligned) (ledger : a.Ledger base s e.files)
    (faithful : stage.Faithful a base e.stopping s e.files) :
    a.Kept base e.stopping s e.files c deed stage' := by
  cases h with
  | opened laidOut =>
    exact .on ledger ⟨(Engine.missing_of_tasks? laidOut).2, Pool.faithful_ofTasks laidOut⟩
  | unopened unlaid ended =>
    refine .on ledger ?_
    cases stage' with
    | ended => trivial
    | crashed => trivial
    | _ => cases ended
  | overfull => exact .on ledger trivial
  | fed feeds => exact .on ledger ⟨faithful.1, faithful.2.feed feeds⟩
  | received idle receives => exact .on ledger ⟨faithful.1, faithful.2.receive idle receives⟩
  | @worked m pool k w w' c deed at_work works =>
    refine works.faithful allowed (fun t d hw => ?_) pages aligned ledger faithful.1 at_work
      faithful.2
    subst hw
    simp only [Engine.search?, found, at_work]
  | drained => exact .on ledger faithful.1
  | gaveUp => exact .on ledger trivial
  | @checked m full links =>
    obtain ⟨ps, laidOut⟩ := faithful
    simp only [Engine.manifest?, laidOut.parts, Option.map_some, Option.some.injEq] at links
    refine .on ledger ⟨rfl, fun flag hflag => (List.count_eq_length.1 full flag hflag).symm, ps,
      laidOut, ?_⟩
    show m = linkList base.linkBase s.pathRoot ps
    rw [← links, ← ledger.linkBase]
    rfl
  | unlistable => exact .on ledger trivial
  | incomplete => exact .on ledger trivial
  | listed =>
    obtain ⟨rfl, full, ps, laidOut, rfl⟩ := faithful
    refine .on (ledger.put aligned (.manifest laidOut)) ⟨rfl, full, ps, laidOut, ?_⟩
    exact (Files.object?_put _ _ _ _).trans (if_pos rfl)
  | unlisted => cases allowed
  | finished => exact .finished faithful.2
  | recorded => exact faithful.elim

end Strides

end LogExport
