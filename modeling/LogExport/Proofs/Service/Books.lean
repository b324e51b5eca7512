import Mathlib.Algebra.Order.BigOperators.Group.List
import Mathlib.Data.Set.Card
import LogExport.Proofs.Pipeline.Bookings
import LogExport.Proofs.Service.SoftCancel

/-! The books of a service. Every event counts the session that its change ends and the
upload that the store confirmed, at once or when the worker goes on, so the books are
kept over a run. Only a session that fails with the death of a worker is not counted. -/

namespace LogExport

open Access

/-- A change that stores nothing anew. -/
theorem Change.forall_started {c : Change} {P : Session → Prop} (old : c.started? = none) :
    ∀ s, c.started? = some s → P s :=
  fun s hs => absurd (old.symm.trans hs) (Option.some_ne_none s).symm

namespace Shelf

variable {v v' : Shelf} {c : Change} {status : Status} {id i : String} {s t : Session}
  {holder : Option String}

/-- The sessions that have ended with a status. -/
def ended (v : Shelf) (status : Status) : Set String :=
  {id | ∃ s, v.session id = some s ∧ s.status = status}

theorem mem_ended : id ∈ v.ended status ↔ ∃ s, v.session id = some s ∧ s.status = status := Iff.rfl

theorem mem_ended_update :
    id ∈ ended ⟨Function.update v.session i (some t), holder⟩ status ↔
      id = i ∧ t.status = status ∨ id ≠ i ∧ id ∈ v.ended status := by
  rw [mem_ended, mem_ended]
  dsimp only
  by_cases h : id = i
  · subst h
    simp
  · simp [h]

theorem mem_ended_iff (found : v.session id = some s) : id ∈ v.ended status ↔ s.status = status := by
  rw [mem_ended, found]
  simp

/-- A session ends once: what has ended before stays, and what a change ends is added. -/
theorem Step.mem_ended (step : v.Step c v') (new : ∀ s, c.started? = some s → v.session s.id = none)
    (ends : status ≠ .start) :
    (id ∈ v'.ended status ↔ id ∈ v.ended status ∨ c.ended? status = some id) ∧
      (c.ended? status = some id → id ∉ v.ended status) := by
  cases step with
  | @start s running =>
    have absent : s.id ∉ v.ended status := by
      rintro ⟨u, found, -⟩
      rw [new s rfl] at found
      cases found
    refine ⟨?_, nofun⟩
    rw [mem_ended_update, running]
    simp only [Ne.symm ends, and_false, false_or, Change.ended?, reduceCtorEq, or_false]
    exact and_iff_right_of_imp fun h he => absent (he ▸ h)
  | @conclude i s st error now found running =>
    have before : i ∉ v.ended status := by
      rw [mem_ended_iff found, running]
      exact ends.symm
    have status' : (s.ended st error now).status = st := rfl
    rw [mem_ended_update, status']
    unfold Change.ended?
    by_cases hid : id = i
    · subst hid
      simp [before]
    · simp [hid, Ne.symm hid]
  | @confirm i s part size found =>
    refine ⟨?_, nofun⟩
    rw [mem_ended_update]
    by_cases hid : id = i
    · subst hid
      have status' : (s.confirm part size).status = s.status := rfl
      simp [mem_ended_iff found, status', Change.ended?]
    · simp [hid, Change.ended?]
  | _ => exact ⟨(or_iff_left nofun).symm, nofun⟩

/-- What a change ends is all that has ended since. -/
theorem Step.encard_ended (step : v.Step c v')
    (new : ∀ s, c.started? = some s → v.session s.id = none) (ends : status ≠ .start) :
    v.ended status ⊆ v'.ended status ∧
      (v'.ended status \ v.ended status).encard = c.ends status := by
  have mem (id : String) :
      (id ∈ v'.ended status ↔ id ∈ v.ended status ∨ c.ended? status = some id) ∧
        (c.ended? status = some id → id ∉ v.ended status) := step.mem_ended new ends
  refine ⟨fun id h => (mem id).1.2 (.inl h), ?_⟩
  have added : v'.ended status \ v.ended status = {id | c.ended? status = some id} := by
    ext id
    obtain ⟨after, before⟩ := mem id
    rw [Set.mem_sdiff, after]
    exact ⟨fun h => h.1.resolve_left h.2, fun h => ⟨.inr h, before h⟩⟩
  rw [added, Change.ends]
  cases c.ended? status with
  | none => simp
  | some i =>
    have single : {id | some i = some id} = ({i} : Set String) := by
      ext id
      simp [eq_comm]
    rw [single]
    simp

end Shelf

namespace Engine

variable {e e' e'' : Engine} {ev : Event} {c : Change} {user : Option String} {id : String}
  {h h' : List (Engine × Event)}

/-- The sessions that have ended with a status. -/
def ended (e : Engine) (status : Status) : Set String := e.backend.records.shelf.ended status

/-- The upload that the store confirms. -/
def upload? (e : Engine) : Event → Option Sizes
  | .move m => e.confirmed? m
  | _ => none

/-- The session that fails without being counted. -/
def silent? (e : Engine) : Event → Option String
  | .move m => e.unnoted? m
  | _ => none

/-- What the workers know to be confirmed and have not counted yet. -/
def uncounted (e : Engine) : Tally := (e.pipelines.map fun x => x.stage.uncounted).sum

/-- How many pipelines have begun and have not ended with a result. -/
def occupied (e : Engine) : Nat := (e.pipelines.map fun x => x.stage.occupies).sum

/-- A run in which no start is accepted under an id that is stored, with what the
service was before each event. -/
inductive Course : Engine → List (Engine × Event) → Engine → Prop
  | nil (e : Engine) : Course e [] e
  | cons {e e' e'' : Engine} {ev : Event} {h : List (Engine × Event)} (new : ev.IsNew e)
      (step : Step e ev e') (rest : Course e' h e'') : Course e ((e, ev) :: h) e''

/-- The books agree with what has happened in between. -/
structure Balanced (h : List (Engine × Event)) (e e' : Engine) : Prop where
  kept : ∀ status, status ≠ .start → e.ended status ⊆ e'.ended status
  started : e'.counters.started =
    e.counters.started + (h.filterMap fun x => x.2.acquired?).length
  finished : (e'.counters.finished : ℕ∞) =
    e.counters.finished + (e'.ended .finish \ e.ended .finish).encard
  failed : (e'.counters.failed : ℕ∞) + (h.filterMap fun x => x.1.silent? x.2).length =
    e.counters.failed + (e'.ended .fail \ e.ended .fail).encard
  cancelled : (e'.counters.cancelled : ℕ∞) =
    e.counters.cancelled + (e'.ended .cancel \ e.ended .cancel).encard
  tally : e'.counters.tally + e'.uncounted =
    e.counters.tally + e.uncounted + ((h.filterMap fun x => x.1.upload? x.2).map Sizes.tally).sum
  running : e.counters.running = e.occupied → e'.counters.running = e'.occupied

theorem Balanced.nil (e : Engine) : Balanced [] e e := by
  constructor <;> simp

/-- Between three moments, what has ended is counted once. -/
theorem encard_ended_trans {status : Status} (first : e.ended status ⊆ e'.ended status)
    (second : e'.ended status ⊆ e''.ended status) :
    (e''.ended status \ e.ended status).encard =
      (e'.ended status \ e.ended status).encard + (e''.ended status \ e'.ended status).encard := by
  rw [add_comm, ← Set.encard_union_eq (Set.disjoint_sdiff_left.mono_right Set.sdiff_subset),
    Set.sdiff_union_sdiff_cancel second first]

theorem Balanced.trans (first : Balanced h e e') (second : Balanced h' e' e'') :
    Balanced (h ++ h') e e'' where
  kept status ends := (first.kept status ends).trans (second.kept status ends)
  started := by
    rw [second.started, first.started, List.filterMap_append, List.length_append, Nat.add_assoc]
  finished := by
    rw [second.finished, first.finished, encard_ended_trans (first.kept _ (by decide))
      (second.kept _ (by decide)), add_assoc]
  failed := by
    rw [encard_ended_trans (first.kept _ (by decide)) (second.kept _ (by decide)), ← add_assoc,
      ← first.failed, add_right_comm, ← second.failed, List.filterMap_append, List.length_append]
    push_cast
    abel
  cancelled := by
    rw [second.cancelled, first.cancelled, encard_ended_trans (first.kept _ (by decide))
      (second.kept _ (by decide)), add_assoc]
  tally := by
    rw [second.tally, first.tally, List.filterMap_append, List.map_append, List.sum_append,
      add_assoc]
  running even := second.running (first.running even)

/-- An event keeps the books if it counts the session that its change ends. -/
theorem balanced_of_enters (records : e.backend.records.Took c e'.backend.records)
    (new : ∀ s, c.started? = some s → e.backend.records.shelf.session s.id = none)
    (started : e'.counters.started = e.counters.started + ev.acquired?.toList.length)
    (finished : e'.counters.finished = e.counters.finished + c.ends .finish)
    (failed : e'.counters.failed + (e.silent? ev).toList.length =
      e.counters.failed + c.ends .fail)
    (cancelled : e'.counters.cancelled = e.counters.cancelled + c.ends .cancel)
    (tally : e'.counters.tally + e'.uncounted =
      e.counters.tally + e.uncounted + ((e.upload? ev).toList.map Sizes.tally).sum)
    (running : e.counters.running = e.occupied → e'.counters.running = e'.occupied) :
    Balanced [(e, ev)] e e' := by
  have single {α : Type} (f : Engine × Event → Option α) :
      [(e, ev)].filterMap f = (f (e, ev)).toList := by
    cases hf : f (e, ev) <;> simp [hf]
  have ended (status : Status) (ends : status ≠ .start) := records.2.encard_ended new ends
  constructor
  case kept => exact fun status ends => (ended status ends).1
  case started => rw [started, single]
  case finished =>
    rw [finished, Engine.ended, Engine.ended, (ended _ (by decide)).2]
    push_cast
    rfl
  case failed =>
    rw [single, Engine.ended, Engine.ended, (ended _ (by decide)).2]
    exact_mod_cast failed
  case cancelled =>
    rw [cancelled, Engine.ended, Engine.ended, (ended _ (by decide)).2]
    push_cast
    rfl
  case tally => rw [tally, single]
  case running => exact running

/-- An event on which nothing is counted. -/
theorem balanced_quiet (records : e.backend.records.Took c e'.backend.records)
    (old : c.started? = none) (endless : ∀ status, c.ended? status = none)
    (counters : ∃ requests limited, e'.counters = { e.counters with requests, limited })
    (pipelines : e'.pipelines = e.pipelines) (free : ev.acquired? = none)
    (noted : e.silent? ev = none) (unasked : e.upload? ev = none) :
    Balanced [(e, ev)] e e' := by
  obtain ⟨requests, limited, counters⟩ := counters
  have ends (status : Status) : c.ends status = 0 := by rw [Change.ends, endless]; rfl
  refine balanced_of_enters records (Change.forall_started old) ?_ ?_ ?_ ?_ ?_ ?_
  · rw [counters, free]
    rfl
  · rw [counters, ends]
    rfl
  · rw [counters, ends, noted]
    rfl
  · rw [counters, ends]
    rfl
  · rw [counters, unasked, uncounted, uncounted, pipelines]
    exact (add_zero _).symm
  · rw [counters, occupied, occupied, pipelines]
    exact id

/-- What touches only the backend keeps the books. -/
theorem balanced_access {b : Backend} (hf : e.backend.records.Filed) (free : ev.acquired? = none)
    (noted : e.silent? ev = none) (unasked : e.upload? ev = none)
    (h : b.records = e.backend.records) : Balanced [(e, ev)] e { e with backend := b } :=
  balanced_quiet (KeyMap.took_keep hf h) rfl (fun _ => rfl) ⟨_, _, rfl⟩ rfl free noted unasked

theorem Booked.balanced {m : Move} {p : Nat} {stage stage' : PipelineStage}
    (h : e.Booked m e' p id stage c stage') : Balanced [(e, .move m)] e e' := by
  refine balanced_of_enters h.records (Change.forall_started h.old) h.ends.started
    h.ends.finished h.ends.failed h.ends.cancelled ?_ fun even => ?_
  · have split : e'.uncounted + stage.uncounted = e.uncounted + stage'.uncounted := by
      rw [uncounted, h.pipelines]
      exact sum_map_set (fun x : Pipeline => x.stage.uncounted) h.found ⟨id, stage'⟩
    refine add_right_cancel (b := stage.uncounted) ?_
    calc e'.counters.tally + e'.uncounted + stage.uncounted
        = e'.counters.tally + stage'.uncounted + e.uncounted := by
          rw [add_assoc, split, add_comm e.uncounted, ← add_assoc]
      _ = _ := by
          rw [h.tally, upload?]
          abel
  · have split : e'.occupied + stage.occupies = e.occupied + stage'.occupies := by
      rw [occupied, h.pipelines]
      exact sum_map_set (fun x : Pipeline => x.stage.occupies) h.found ⟨id, stage'⟩
    have counted : stage.occupies ≤ e.counters.running :=
      even ▸ List.le_sum_of_mem (List.mem_map.2 ⟨_, List.mem_of_getElem? h.found, rfl⟩)
    have running := h.running counted
    omega

/-- A pipeline that is launched has counted nothing. -/
theorem uncounted_launch (e : Engine) (id : String) :
    (e.launch id).uncounted = e.uncounted ∧ (e.launch id).occupied = e.occupied := by
  constructor
  · simp [uncounted, launch, PipelineStage.uncounted]
  · simp [occupied, launch, PipelineStage.occupies]

/-- A start or a restore is counted, and launches a pipeline. -/
theorem balanced_begin {b : Backend} (records : e.backend.records.Took c b.records)
    (new : ∀ s, c.started? = some s → e.backend.records.shelf.session s.id = none)
    (endless : ∀ status, c.ended? status = none) (acquired : ev.acquired? = some id)
    (noted : e.silent? ev = none) (unasked : e.upload? ev = none) :
    Balanced [(e, ev)] e ({ e with backend := b }.begin id) := by
  have ends (status : Status) : c.ends status = 0 := by rw [Change.ends, endless]; rfl
  have launched := uncounted_launch
    ({ e with backend := b }.count fun k => { k with started := k.started + 1 }) id
  refine balanced_of_enters records new ?_ ?_ ?_ ?_ ?_ fun even => ?_
  · rw [acquired]
    rfl
  · rw [ends]
    rfl
  · rw [ends, noted]
    rfl
  · rw [ends]
    rfl
  · rw [unasked, begin, launched.1]
    exact (add_zero _).symm
  · rw [begin, launched.2]
    exact even

theorem balanced_start {r : ExportRequest} {answer : Except Error String}
    (hf : e.backend.records.Filed) (hn : e.now.Valid)
    (hp : e.settings.pageSize ≤ Numeral.maxUInt64) (exact : r.Exact)
    (new : (Event.start user r answer).IsNew e) (h : e.start user r = some (answer, e')) :
    Balanced [(e, .start user r answer)] e e' := by
  unfold Engine.start at h
  obtain ⟨prepared, hprep, h⟩ := Option.map_eq_some_iff.1 h
  cases prepared with
  | error err =>
    cases h
    exact balanced_access hf rfl rfl rfl rfl
  | ok s =>
    obtain ⟨name, a, b, parts, allowed, sound, bounds, count, rfl⟩ := prepare_eq_ok hprep
    have hstore : (e.newSession name r a b parts).Storable :=
      storable_newSession hn hp exact sound bounds
    rcases hg : (SessionStore.start (e.newSession name r a b parts)).run.run e.backend with ⟨res, bk⟩
    dsimp only at h
    rw [access_eq hg] at h
    rcases SessionStore.gives_start hf hstore rfl hg with ⟨⟨err, rfl⟩, took⟩ | ⟨rfl, took⟩
    · cases h
      exact balanced_quiet took rfl (fun _ => rfl) ⟨_, _, rfl⟩ rfl rfl rfl rfl
    · cases h
      refine balanced_begin took (fun i hi => ?_) (fun _ => rfl) rfl rfl rfl
      cases hi
      exact new.unstored

theorem balanced_restore {answer : Except Error Unit} (hf : e.backend.records.Filed)
    (h : e.restore user id = (answer, e')) :
    Balanced [(e, .restore user id answer)] e e' := by
  unfold Engine.restore at h
  split at h
  · cases h
    exact balanced_access hf rfl rfl rfl rfl
  rcases hg : (SessionStore.lockForRestore id).run.run e.backend with ⟨res, b⟩
  rw [access_eq hg] at h
  rcases SessionStore.gives_lockForRestore hf hg with ⟨⟨err, rfl⟩, took⟩ | ⟨⟨s, rfl⟩, took⟩
  · cases h
    exact balanced_quiet took rfl (fun _ => rfl) ⟨_, _, rfl⟩ rfl rfl rfl rfl
  · cases h
    exact balanced_begin took (Change.forall_started rfl) (fun _ => rfl) rfl rfl rfl

theorem balanced_cancel {answer : Except Error Unit} (hf : e.backend.records.Filed)
    (hn : e.now.Valid) (h : e.cancel user id = (answer, e')) :
    Balanced [(e, .cancel user id answer)] e e' := by
  unfold Engine.cancel at h
  split at h
  · cases h
    exact balanced_access hf rfl rfl rfl rfl
  rcases hg : (SessionStore.cancel e.now id).run.run e.backend with ⟨res, b⟩
  rw [access_eq hg] at h
  rcases SessionStore.gives_conclude hf hn (by decide) hg with
    ⟨⟨err, rfl⟩, took⟩ | ⟨⟨err, rfl⟩, took⟩ | ⟨rfl, took⟩
  · cases h
    exact balanced_quiet took rfl (fun _ => rfl) ⟨_, _, rfl⟩ rfl rfl rfl rfl
  · cases h
    exact balanced_quiet took rfl (fun _ => rfl) ⟨_, _, rfl⟩ rfl rfl rfl rfl
  · cases h
    exact balanced_of_enters took (Change.forall_started rfl) rfl rfl rfl rfl (add_zero _).symm
      (fun even => even)

/-- Every event keeps the books. -/
theorem Step.balanced (sound : e.Sound) (new : ev.IsNew e) (step : Step e ev e') :
    Balanced [(e, ev)] e e' := by
  have hf := sound.filed
  have keep := KeyMap.took_keep hf rfl
  cases step with
  | start exact h => exact balanced_start hf sound.now sound.pageSize exact new h
  | restore h => exact balanced_restore hf h
  | cancel h => exact balanced_cancel hf sound.now h
  | check user id =>
    unfold Engine.check
    split
    · exact balanced_access hf rfl rfl rfl rfl
    rcases hg : (SessionStore.check id).run.run e.backend with ⟨res, b⟩
    rw [access_eq hg]
    exact balanced_access hf rfl rfl rfl (SessionStore.gives_load hf hg).1
  | all user =>
    unfold Engine.all
    split
    · exact balanced_access hf rfl rfl rfl rfl
    rcases hg : SessionStore.all.run.run e.backend with ⟨res, b⟩
    rw [access_eq hg]
    exact balanced_access hf rfl rfl rfl (SessionStore.gives_all hg).1
  | shutdown => exact balanced_quiet keep rfl (fun _ => rfl) ⟨_, _, rfl⟩ rfl rfl rfl rfl
  | @move m _ h =>
    cases acts : m.pipeline? with
    | some p =>
      obtain ⟨id, stage, c, stage', booked⟩ := booked_of_step hf sound.now acts h
      exact booked.balanced
    | none =>
      cases m with
      | asked =>
        cases h
        exact balanced_quiet keep rfl (fun _ => rfl) ⟨_, _, rfl⟩ rfl rfl rfl rfl
      | limited =>
        cases h
        exact balanced_quiet keep rfl (fun _ => rfl) ⟨_, _, rfl⟩ rfl rfl rfl rfl
      | _ => cases acts
  | clock valid => exact balanced_quiet keep rfl (fun _ => rfl) ⟨_, _, rfl⟩ rfl rfl rfl rfl
  | faults plan => exact balanced_quiet keep rfl (fun _ => rfl) ⟨_, _, rfl⟩ rfl rfl rfl rfl

theorem Course.balanced (course : Course e h e') (sound : e.Sound) : Balanced h e e' := by
  induction course with
  | nil e => exact .nil e
  | cons new step rest ih => exact (step.balanced sound new).trans (ih (sound.step step))

end Engine

end LogExport
