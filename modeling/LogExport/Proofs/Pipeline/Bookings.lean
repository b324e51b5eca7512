import Mathlib.Algebra.BigOperators.Group.List.Basic
import Mathlib.Algebra.Group.Prod
import Mathlib.Tactic.Abel
import LogExport.Proofs.Pipeline.Progress

/-! What a move enters in the books. Every session that a pipeline ends is counted,
with one exception: not when the death of a worker is noticed. A part is counted by
the worker that was told it is confirmed, in a step of its own. A pipeline is counted
as running from its first step until it ends with a result. -/

namespace LogExport

open Access

/-- Uploads in numbers: how many, and their bytes before and after packing. -/
abbrev Tally := Nat × Nat × Nat

def Sizes.tally (size : Sizes) : Tally := (1, size.unpacked, size.packed)

def Counters.tally (c : Counters) : Tally := (c.parts, c.unpacked, c.packed)

/-- What a worker knows to be confirmed and has not counted yet. -/
def WorkerStage.uncounted : WorkerStage → Tally
  | busy _ (.done (.ok (.uploaded size))) => size.tally
  | _ => 0

/-- A worker that has lost its part counts nothing. -/
theorem WorkerStage.IsLost.uncounted {w : WorkerStage} (h : w.IsLost) : w.uncounted = 0 := by
  cases h <;> rfl

namespace PipelineStage

def uncounted : PipelineStage → Tally
  | draining pool => (pool.workers.map WorkerStage.uncounted).sum
  | _ => 0

/-- Whether the pipeline is counted as running. -/
def occupies : PipelineStage → Nat
  | opening => 0
  | ended _ => 0
  | _ => 1

end PipelineStage

/-- A sum after one entry was replaced. -/
theorem sum_map_set {α M : Type*} [AddCommMonoid M] (f : α → M) {xs : List α} {i : Nat} {x : α}
    (h : xs[i]? = some x) (y : α) : ((xs.set i y).map f).sum + f x = (xs.map f).sum + f y := by
  induction xs generalizing i with
  | nil => cases h
  | cons z zs ih =>
    cases i with
    | zero =>
      obtain rfl : z = x := Option.some.inj h
      rw [List.set_cons_zero, List.map_cons, List.sum_cons, List.map_cons, List.sum_cons,
        add_right_comm, add_comm (f y), add_right_comm]
    | succ i =>
      rw [List.set_cons_succ, List.map_cons, List.sum_cons, List.map_cons, List.sum_cons, add_assoc,
        ih h, add_assoc]

namespace Pool

variable {pool pool' : Pool} {k : Nat} {w : WorkerStage}

theorem uncounted_setWorker (at_work : pool.workers[k]? = some w) (w' : WorkerStage) :
    (PipelineStage.draining (pool.setWorker k w')).uncounted + w.uncounted =
      (PipelineStage.draining pool).uncounted + w'.uncounted :=
  sum_map_set WorkerStage.uncounted at_work w'

theorem uncounted_of_isOver (drained : pool.isOver = true) :
    (PipelineStage.draining pool).uncounted = 0 := by
  refine List.sum_eq_zero fun x hx => ?_
  obtain ⟨w, hw, rfl⟩ := List.mem_map.1 hx
  have ended := List.all_eq_true.1 drained w hw
  cases w with
  | ended => rfl
  | _ => cases ended

theorem uncounted_ofTasks (workers capacity : Nat) (tasks : List Task) :
    (PipelineStage.draining (.ofTasks workers capacity tasks)).uncounted = 0 := by
  refine List.sum_eq_zero fun x hx => ?_
  obtain ⟨w, hw, rfl⟩ := List.mem_map.1 hx
  rw [List.eq_of_mem_replicate hw]
  rfl

end Pool

/-- The session that a change ends, with a status. -/
def Change.ended? (status : Status) : Change → Option String
  | conclude id st _ _ => if st = status then some id else none
  | _ => none

/-- How many sessions a change ends with a status. -/
def Change.ends (status : Status) (c : Change) : Nat := (c.ended? status).toList.length

/-- The ends of sessions are counted, but for so many that failed. -/
structure Counters.Enters (k k' : Counters) (c : Change) (unnoted : Nat) : Prop where
  started : k'.started = k.started
  finished : k'.finished = k.finished + c.ends .finish
  failed : k'.failed + unnoted = k.failed + c.ends .fail
  cancelled : k'.cancelled = k.cancelled + c.ends .cancel

theorem Counters.enters_of_quiet {k k' : Counters} {c : Change} (quiet : ∀ st, c.ended? st = none)
    (started : k'.started = k.started) (finished : k'.finished = k.finished)
    (failed : k'.failed = k.failed) (cancelled : k'.cancelled = k.cancelled) :
    k.Enters k' c 0 := by
  have none (st : Status) : c.ends st = 0 := by rw [Change.ends, quiet]; rfl
  constructor <;> simpa only [none, Nat.add_zero]

theorem Counters.enters_keep (k : Counters) : k.Enters k .keep 0 :=
  Counters.enters_of_quiet (fun _ => rfl) rfl rfl rfl rfl

namespace Engine

/-- The upload that is confirmed by a move: the store says so to a worker. -/
def confirmed? (e : Engine) : Move → Option Sizes
  | .work p k =>
    match e.pipelines[p]? with
    | some ⟨id, .draining pool⟩ =>
      match pool.workers[k]? with
      | some (.busy task (.confirming size)) =>
        if (e.access (SessionStore.confirm id task.part size)).1.isOk then some size else none
      | _ => none
    | _ => none
  | _ => none

/-- The session that fails because the death of a worker is noticed. -/
def unnoted? (e : Engine) : Move → Option String
  | .report p k =>
    match e.pipelines[p]? with
    | some ⟨id, .draining pool⟩ =>
      match pool.workers[k]? with
      | some (.busy _ .crashed) =>
        if (e.failSession id InternalFault.workerPanicked.text).1.isOk then some id else none
      | _ => none
    | _ => none
  | _ => none

/-- One pipeline has taken a step, and the books are kept. -/
structure Booked (e : Engine) (m : Move) (e' : Engine) (p : Nat) (id : String)
    (stage : PipelineStage) (c : Change) (stage' : PipelineStage) : Prop where
  found : e.pipelines[p]? = some ⟨id, stage⟩
  pipelines : e'.pipelines = e.pipelines.set p ⟨id, stage'⟩
  records : e.backend.records.Took c e'.backend.records
  /-- No session is new. -/
  old : c.started? = none
  ends : e.counters.Enters e'.counters c (e.unnoted? m).toList.length
  tally : e'.counters.tally + stage'.uncounted =
    e.counters.tally + stage.uncounted + ((e.confirmed? m).toList.map Sizes.tally).sum
  running : stage.occupies ≤ e.counters.running →
    e'.counters.running + stage.occupies = e.counters.running + stage'.occupies
  /-- A pipeline crashes only over a session whose parts leave the calendar, or when
  its queue cannot be made. -/
  stranded : stage' = .crashed → ∃ s, e'.backend.records.shelf.session id = some s ∧
    (s.parts? = none ∨ Pool.maxCapacity < e.settings.queueSize)

section Moves

variable {e e' e₁ : Engine} {p k : Nat} {id : String} {stage stage' : PipelineStage} {c : Change}
  {m : Move} {pool : Pool} {w w' : WorkerStage}

theorem booked_setStage (found : e.pipelines[p]? = some ⟨id, stage⟩)
    (hp : e₁.pipelines = e.pipelines) (records : e.backend.records.Took c e₁.backend.records)
    (old : c.started? = none)
    (ends : e.counters.Enters e₁.counters c (e.unnoted? m).toList.length)
    (tally : e₁.counters.tally + stage'.uncounted =
      e.counters.tally + stage.uncounted + ((e.confirmed? m).toList.map Sizes.tally).sum)
    (running : stage.occupies ≤ e.counters.running →
      e₁.counters.running + stage.occupies = e.counters.running + stage'.occupies)
    (stranded : stage' = .crashed → ∃ s, e₁.backend.records.shelf.session id = some s ∧
      (s.parts? = none ∨ Pool.maxCapacity < e.settings.queueSize)) :
    e.Booked m (e₁.setStage p stage') p id stage c stage' :=
  { found, records, old, ends, tally, running, stranded
    pipelines := by rw [pipelines_setStage (hp ▸ found), hp] }

/-- A step on which nothing is counted. -/
theorem booked_quiet (found : e.pipelines[p]? = some ⟨id, stage⟩)
    (hp : e₁.pipelines = e.pipelines) (counters : e₁.counters = e.counters)
    (records : e.backend.records.Took .keep e₁.backend.records)
    (noted : e.unnoted? m = none) (unasked : e.confirmed? m = none)
    (uncounted : stage'.uncounted = stage.uncounted) (occupies : stage'.occupies = stage.occupies)
    (goes : stage' ≠ .crashed) :
    e.Booked m (e₁.setStage p stage') p id stage .keep stage' := by
  refine booked_setStage found hp records rfl ?_ ?_ ?_ fun h => absurd h goes
  · rw [noted, counters]
    exact Counters.enters_of_quiet (fun _ => rfl) rfl rfl rfl rfl
  · rw [unasked, counters, uncounted]
    rfl
  · intro
    rw [counters, occupies]

/-- A worker has taken a step. -/
theorem booked_putWorker (found : e.pipelines[p]? = some ⟨id, .draining pool⟩)
    (at_work : pool.workers[k]? = some w) (hp : e₁.pipelines = e.pipelines)
    (records : e.backend.records.Took c e₁.backend.records) (old : c.started? = none)
    (ends : e.counters.Enters e₁.counters c (e.unnoted? m).toList.length)
    (tally : e₁.counters.tally + w'.uncounted =
      e.counters.tally + w.uncounted + ((e.confirmed? m).toList.map Sizes.tally).sum)
    (running : e₁.counters.running = e.counters.running) :
    e.Booked m (e₁.putWorker p k pool w') p id (.draining pool) c
      (.draining (pool.setWorker k w')) := by
  refine booked_setStage found hp records old ends ?_ (fun _ => ?_) nofun
  · have split := Pool.uncounted_setWorker at_work w'
    refine add_right_cancel (b := w.uncounted) ?_
    calc e₁.counters.tally + _ + w.uncounted
        = e₁.counters.tally + w'.uncounted + (PipelineStage.draining pool).uncounted := by
          rw [add_assoc, split, add_comm _ w'.uncounted, ← add_assoc]
      _ = _ := by
          rw [tally]
          abel
  · rw [running]
    rfl

/-- A step of a worker on which nothing is counted. -/
theorem booked_work (found : e.pipelines[p]? = some ⟨id, .draining pool⟩)
    (at_work : pool.workers[k]? = some w) (hp : e₁.pipelines = e.pipelines)
    (counters : e₁.counters = e.counters) (records : e.backend.records.Took c e₁.backend.records)
    (quiet : ∀ st, c.ended? st = none) (old : c.started? = none)
    (noted : e.unnoted? m = none)
    (tally : w'.uncounted = w.uncounted + ((e.confirmed? m).toList.map Sizes.tally).sum) :
    e.Booked m (e₁.putWorker p k pool w') p id (.draining pool) c
      (.draining (pool.setWorker k w')) := by
  refine booked_putWorker found at_work hp records old ?_ ?_ (congrArg _ counters)
  · rw [noted, counters]
    exact Counters.enters_of_quiet quiet rfl rfl rfl rfl
  · rw [counters, tally, add_assoc]

/-- What cannot be ended is kept, or gives back the lock. -/
theorem took_of_unended {b : Backend} {now : Instant} {status : Status} {error : Option String}
    {err : Error} (hf : e.backend.records.Filed) (hn : now.Valid) (ends : status ≠ .start)
    (gives : Gives (SessionStore.conclude now id status error) e.backend (.error err) b) :
    ∃ c : Change, e.backend.records.Took c b.records ∧ c.started? = none ∧
      ∀ st, c.ended? st = none := by
  obtain ⟨-, took⟩ | ⟨-, took⟩ | ⟨⟨⟩, -⟩ := SessionStore.gives_conclude hf hn ends gives
  · exact ⟨_, took, rfl, fun _ => rfl⟩
  · exact ⟨_, took, rfl, fun _ => rfl⟩

theorem took_of_ended {b : Backend} {now : Instant} {status : Status} {error : Option String}
    (hf : e.backend.records.Filed) (hn : now.Valid) (ends : status ≠ .start)
    (gives : Gives (SessionStore.conclude now id status error) e.backend (.ok ()) b) :
    e.backend.records.Took (.conclude id status error now.reread) b.records := by
  obtain ⟨⟨_, ⟨⟩⟩, -⟩ | ⟨⟨_, ⟨⟩⟩, -⟩ | ⟨-, took⟩ := SessionStore.gives_conclude hf hn ends gives
  exact took

/-- Every act of a worker is entered. -/
theorem booked_worker (hf : e.backend.records.Filed) (hn : e.now.Valid)
    (found : e.pipelines[p]? = some ⟨id, .draining pool⟩) (at_work : pool.workers[k]? = some w)
    (act : WorkerAct e p k id m w e₁ w') :
    ∃ c, e.Booked m (e₁.putWorker p k pool w') p id (.draining pool) c
      (.draining (pool.setWorker k w')) := by
  have keep : e.backend.records.Took .keep e.backend.records := KeyMap.took_keep hf rfl
  have none (st : Status) : Change.keep.ended? st = none := rfl
  have unasked (h : ∀ task size, w ≠ .busy task (.confirming size)) :
      e.confirmed? (.work p k) = .none := by
    simp only [confirmed?, found, at_work]
    split
    · next task size same => exact absurd (Option.some.inj same) (h task size)
    · rfl
  cases act with
  | unknown load =>
    exact ⟨_, booked_work found at_work rfl rfl (took_of_check hf load) none rfl rfl
      (by rw [unasked nofun]; rfl)⟩
  | begun load =>
    exact ⟨_, booked_work found at_work rfl rfl (took_of_check hf load) none rfl rfl
      (by rw [unasked nofun]; rfl)⟩
  | unsearchable load =>
    exact ⟨_, booked_work found at_work rfl rfl (took_of_check hf load) none rfl rfl
      (by rw [unasked nofun]; rfl)⟩
  | late load =>
    exact ⟨_, booked_work found at_work rfl rfl (took_of_check hf load) none rfl rfl
      (by rw [unasked nofun]; rfl)⟩
  | skipped load =>
    exact ⟨_, booked_work found at_work rfl rfl (took_of_check hf load) none rfl rfl
      (by rw [unasked nofun]; rfl)⟩
  | page => exact ⟨_, booked_work found at_work rfl rfl keep none rfl rfl rfl⟩
  | unanswered => exact ⟨_, booked_work found at_work rfl rfl keep none rfl rfl rfl⟩
  | stored => exact ⟨_, booked_work found at_work rfl rfl keep none rfl rfl rfl⟩
  | refused => exact ⟨_, booked_work found at_work rfl rfl keep none rfl rfl rfl⟩
  | died => exact ⟨_, booked_work found at_work rfl rfl keep none rfl rfl rfl⟩
  | @confirmed task size b gives =>
    obtain ⟨⟨_, ⟨⟩⟩, -⟩ | ⟨-, took⟩ := SessionStore.gives_confirm hf gives
    have confirmed : e.confirmed? (.work p k) = some size := by
      simp only [confirmed?, found, at_work, access_eq gives]
      rfl
    refine ⟨_, booked_work found at_work rfl rfl took (fun _ => rfl) rfl rfl ?_⟩
    rw [confirmed]
    exact (zero_add _).symm.trans (congrArg _ (List.sum_singleton).symm)
  | @unconfirmed task size b err gives =>
    obtain ⟨-, took⟩ | ⟨⟨⟩, -⟩ := SessionStore.gives_confirm hf gives
    have unconfirmed : e.confirmed? (.work p k) = .none := by
      simp only [confirmed?, found, at_work, access_eq gives]
      rfl
    exact ⟨_, booked_work found at_work rfl rfl took none rfl rfl (by rw [unconfirmed]; rfl)⟩
  | settled =>
    refine ⟨_, booked_putWorker found at_work rfl keep rfl ?_ ?_ rfl⟩
    · exact Counters.enters_of_quiet none rfl rfl rfl rfl
    · rw [unasked nofun]
      rfl
  | stopped => exact ⟨_, booked_work found at_work rfl rfl keep none rfl rfl
      (by rw [unasked nofun]; rfl)⟩
  | interrupted => exact ⟨_, booked_work found at_work rfl rfl keep none rfl rfl
      (by rw [unasked nofun]; rfl)⟩
  | failed _ gives =>
    refine ⟨_, booked_putWorker found at_work rfl (took_of_ended hf hn (by decide) gives) rfl
      ⟨rfl, rfl, rfl, rfl⟩ ?_ rfl⟩
    rw [unasked nofun]
    rfl
  | unfailed _ gives =>
    obtain ⟨c, took, old, quiet⟩ := took_of_unended hf hn (by decide) gives
    exact ⟨c, booked_work found at_work rfl rfl took quiet old rfl (by rw [unasked nofun]; rfl)⟩
  | @reported task r b gives =>
    have unnoted : e.unnoted? (.report p k) = if r.isOk then some id else .none := by
      simp only [unnoted?, found, at_work, failSession, access_eq gives]
    cases r with
    | ok =>
      refine ⟨_, booked_putWorker found at_work rfl (took_of_ended hf hn (by decide) gives) rfl ?_
        rfl rfl⟩
      rw [unnoted]
      exact ⟨rfl, rfl, rfl, rfl⟩
    | error err =>
      obtain ⟨c, took, old, quiet⟩ := took_of_unended hf hn (by decide) gives
      exact ⟨c, booked_work found at_work rfl rfl took quiet old unnoted rfl⟩

/-- A pipeline ends with a result, and is no longer counted as running. -/
theorem booked_close {r : Except Error Unit} (found : e.pipelines[p]? = some ⟨id, stage⟩)
    (hp : e₁.pipelines = e.pipelines) (records : e.backend.records.Took c e₁.backend.records)
    (old : c.started? = none)
    (ends : e.counters.Enters e₁.counters c (e.unnoted? m).toList.length)
    (tally : e₁.counters.tally = e.counters.tally) (unasked : e.confirmed? m = none)
    (uncounted : stage.uncounted = 0)
    (running : e₁.counters.running + stage.occupies = e.counters.running + 1) :
    e.Booked m (e₁.close p r) p id stage c (.ended r) := by
  show e.Booked m ((e₁.countRunning (· - 1)).setStage p (.ended r)) p id stage c (.ended r)
  refine booked_setStage found hp records old ?_ ?_ ?_ nofun
  · exact ⟨ends.started, ends.finished, ends.failed, ends.cancelled⟩
  · rw [unasked, uncounted]
    exact tally
  · intro le
    show e₁.counters.running - 1 + _ = _ + 0
    omega

/-- Every act of a pipeline is entered. -/
theorem booked_act (hf : e.backend.records.Filed) (hn : e.now.Valid)
    (found : e.pipelines[p]? = some ⟨id, stage⟩) (act : PipelineAct e p id m stage e₁ stage') :
    ∃ c, e.Booked m (e₁.setStage p stage') p id stage c stage' := by
  have keep : e.backend.records.Took .keep e.backend.records := KeyMap.took_keep hf rfl
  have quiet := e.counters.enters_keep
  have opened : e.counters.Enters { e.counters with running := e.counters.running + 1 } .keep 0 :=
    Counters.enters_of_quiet (fun _ => rfl) rfl rfl rfl rfl
  have stored {s : Session} {b : Backend} (load : Gives (SessionStore.check id) e.backend (.ok s) b) :
      b.records.shelf.session id = some s := by
    obtain ⟨same, ⟨_, ⟨⟩⟩ | ⟨_, ⟨⟩, stored⟩⟩ := SessionStore.gives_load hf load
    rwa [same]
  cases act with
  | unknown load =>
    exact ⟨_, booked_close found rfl (took_of_check hf load) rfl opened rfl rfl rfl rfl⟩
  | unneeded load =>
    exact ⟨_, booked_close found rfl (took_of_check hf load) rfl opened rfl rfl rfl rfl⟩
  | mismatched load =>
    exact ⟨_, booked_close found rfl (took_of_check hf load) rfl opened rfl rfl rfl rfl⟩
  | unlaid load running never =>
    exact ⟨_, booked_setStage found rfl (took_of_check hf load) rfl opened rfl (fun _ => rfl)
      fun _ => ⟨_, stored load, .inl (Option.map_eq_none_iff.1 never)⟩⟩
  | overfull load running laidOut large =>
    exact ⟨_, booked_setStage found rfl (took_of_check hf load) rfl opened rfl (fun _ => rfl)
      fun _ => ⟨_, stored load, .inr large⟩⟩
  | opened load =>
    refine ⟨_, booked_setStage found rfl (took_of_check hf load) rfl opened ?_ (fun _ => rfl) nofun⟩
    rw [Pool.uncounted_ofTasks]
    rfl
  | fed feeds =>
    refine ⟨_, booked_quiet found rfl rfl keep rfl rfl ?_ rfl nofun⟩
    obtain ⟨-, ⟨t, rest, -, -, rfl⟩ | ⟨-, rfl⟩⟩ := Pool.feed?_eq_some feeds <;> rfl
  | @received pool pool' k idle receives =>
    have unasked : e.confirmed? (.work p k) = none := by simp only [confirmed?, found, idle]
    refine ⟨_, booked_quiet found rfl rfl keep rfl unasked ?_ rfl nofun⟩
    rcases Pool.receive?_eq_some receives with ⟨t, rest, -, rfl⟩ | ⟨-, -, rfl⟩
    · exact @Pool.uncounted_setWorker { pool with queue := rest } k .idle idle _
    · exact Pool.uncounted_setWorker idle _
  | worked at_work works => exact booked_worker hf hn found at_work works
  | drained spent =>
    exact ⟨_, booked_quiet found rfl rfl keep rfl rfl (Pool.uncounted_of_isOver spent).symm rfl
      nofun⟩
  | gaveUp spent =>
    exact ⟨_, booked_close found rfl keep rfl quiet rfl rfl (Pool.uncounted_of_isOver spent) rfl⟩
  | unread load =>
    exact ⟨_, booked_close found rfl (took_of_check hf load) rfl quiet rfl rfl rfl rfl⟩
  | incomplete load =>
    exact ⟨_, booked_close found rfl (took_of_check hf load) rfl quiet rfl rfl rfl rfl⟩
  | checked load =>
    exact ⟨_, booked_quiet found rfl rfl (took_of_check hf load) rfl rfl rfl rfl nofun⟩
  | unlistable load running full never =>
    exact ⟨_, booked_setStage found rfl (took_of_check hf load) rfl quiet rfl (fun _ => rfl)
      fun _ => ⟨_, stored load, .inl (Option.map_eq_none_iff.1 never)⟩⟩
  | listed => exact ⟨_, booked_quiet found rfl rfl keep rfl rfl rfl rfl nofun⟩
  | unlisted => exact ⟨_, booked_quiet found rfl rfl keep rfl rfl rfl rfl nofun⟩
  | finished gives =>
    exact ⟨_, booked_close found rfl (took_of_ended hf hn (by decide) gives) rfl
      ⟨rfl, rfl, rfl, rfl⟩ rfl rfl rfl rfl⟩
  | unfinished gives =>
    obtain ⟨c, took, old, none⟩ := took_of_unended hf hn (by decide) gives
    exact ⟨c, booked_setStage found rfl took old (Counters.enters_of_quiet none rfl rfl rfl rfl) rfl
      (fun _ => rfl) nofun⟩
  | recorded gives =>
    exact ⟨_, booked_close found rfl (took_of_ended hf hn (by decide) gives) rfl
      ⟨rfl, rfl, rfl, rfl⟩ rfl rfl rfl rfl⟩
  | unrecorded gives =>
    obtain ⟨c, took, old, none⟩ := took_of_unended hf hn (by decide) gives
    exact ⟨c, booked_close found rfl took old (Counters.enters_of_quiet none rfl rfl rfl rfl) rfl rfl
      rfl rfl⟩

/-- Every move of a pipeline keeps the books. -/
theorem booked_of_step (hf : e.backend.records.Filed) (hn : e.now.Valid)
    (acts : m.pipeline? = some p) (h : e.step? m = some e') :
    ∃ id stage c stage', e.Booked m e' p id stage c stage' := by
  obtain ⟨id, stage, e₁, stage', found, act, rfl⟩ := acted acts h
  obtain ⟨c, booked⟩ := booked_act hf hn found act
  exact ⟨id, stage, c, stage', booked⟩

end Moves

end Engine

end LogExport
