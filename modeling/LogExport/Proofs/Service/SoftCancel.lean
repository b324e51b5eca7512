import Mathlib.Data.Finset.Card
import LogExport.Proofs.Service.Creation
import LogExport.Proofs.Service.Draining
import LogExport.Proofs.Service.Release

/-! A cancelled session comes to rest. A worker that looks for the status of the
session after it has ended does nothing more for it, so what is still confirmed
was under way before, one part for each worker at most. -/

namespace LogExport

open Access

/-- The task of a worker that has seen its session run and has not come to an end
with the part since. Only such a worker searches, uploads and confirms. -/
def WorkerStage.flight? : WorkerStage → Option Task
  | busy t (.moving _) => some t
  | busy t (.confirming _) => some t
  | _ => none

/-- The task that worker `k` has under way. -/
def PipelineStage.flight? (k : Nat) : PipelineStage → Option Task
  | draining pool => pool.workers[k]?.bind WorkerStage.flight?
  | _ => none

theorem WorkerStage.IsLost.flight? {w : WorkerStage} (h : w.IsLost) : w.flight? = none := by
  cases h <;> rfl

section Steps

variable {v v' : Shelf} {files : Files} {id : String} {s : Session} {c : Change}
  {deed : Option Deed} {k : Nat} {t : Task}

/-- For a session that has ended, no worker begins with a part. -/
theorem WorkerStep.flight? {w w' : WorkerStage} (step : WorkerStep v files id w c deed w')
    (found : v.session id = some s) (left : s.status ≠ .start) (h : w'.flight? = some t) :
    w.flight? = some t := by
  cases step with
  | begun found' running =>
    rw [found] at found'
    cases found'
    exact absurd running left
  | page => exact h
  | stored => exact h
  | confirmed => cases h
  | settled => cases h
  | lost _ lost =>
    rw [lost.flight?] at h
    cases h

theorem Pool.flight?_setWorker {pool : Pool} {j : Nat} {w w' : WorkerStage}
    (at_work : pool.workers[j]? = some w) (kept : w'.flight? = some t → w.flight? = some t)
    (h : (pool.setWorker j w').workers[k]?.bind WorkerStage.flight? = some t) :
    pool.workers[k]?.bind WorkerStage.flight? = some t := by
  by_cases hj : j = k
  · subst hj
    obtain ⟨hlt, -⟩ := List.getElem?_eq_some_iff.1 at_work
    rw [setWorker, List.getElem?_set_self hlt, Option.bind_some] at h
    rw [at_work, Option.bind_some]
    exact kept h
  · rwa [getElem?_setWorker hj] at h

theorem PipelineStep.flight? {stage stage' : PipelineStage}
    (step : PipelineStep v files id stage c deed stage') (found : v.session id = some s)
    (left : s.status ≠ .start) (h : stage'.flight? k = some t) : stage.flight? k = some t := by
  cases step with
  | opened found' running =>
    rw [found] at found'
    cases found'
    exact absurd running left
  | fed feeds =>
    rw [PipelineStage.flight?, Pool.workers_of_feed feeds] at h
    exact h
  | @received pool pool' j idle receives =>
    rcases Pool.receive?_eq_some receives with ⟨u, rest, -, rfl⟩ | ⟨-, -, rfl⟩
    · exact @Pool.flight?_setWorker _ _ { pool with queue := rest } _ _ _ idle
        (fun h => by cases h) h
    · exact Pool.flight?_setWorker idle (fun h => by cases h) h
  | worked at_work works =>
    exact Pool.flight?_setWorker at_work (works.flight? found left) h
  | lost _ _ lost => cases lost <;> cases h
  | _ => cases h

/-- The workers of a pool stay as many as they are. -/
theorem PipelineStep.crew {stage : PipelineStage} {pool' : Pool}
    (step : PipelineStep v files id stage c deed (.draining pool')) :
    stage = .opening ∨
      ∃ pool, stage = .draining pool ∧ pool'.workers.length = pool.workers.length := by
  cases step with
  | opened => exact .inl rfl
  | @fed pool _ feeds => exact .inr ⟨pool, rfl, by rw [Pool.workers_of_feed feeds]⟩
  | @received pool _ k idle receives =>
    rcases Pool.receive?_eq_some receives with ⟨u, rest, -, rfl⟩ | ⟨-, -, rfl⟩
    · exact .inr ⟨pool, rfl, List.length_set⟩
    · exact .inr ⟨pool, rfl, List.length_set⟩
  | @worked pool => exact .inr ⟨pool, rfl, List.length_set⟩
  | lost _ _ lost => cases lost

end Steps

namespace Engine

/-- The session and the task that worker `k` of pipeline `p` has under way. -/
def flight? (e : Engine) (p k : Nat) : Option (String × Task) :=
  e.pipelines[p]?.bind fun x => (x.stage.flight? k).map (x.session, ·)

/-- The session for which a part is being confirmed. -/
def confirms? (e : Engine) : Event → Option String
  | .move (.work p k) =>
    match e.pipelines[p]? with
    | some ⟨id, .draining pool⟩ =>
      match pool.workers[k]? with
      | some (.busy _ (.confirming _)) => some id
      | _ => none
    | _ => none
  | _ => none

/-- No start is accepted under an id that is stored. -/
def Event.IsNew (e : Engine) : Event → Prop
  | .start _ _ (.ok id) => e.backend.records.get? (SessionKey.encode id) = none
  | _ => True

/-- A stretch of a run in which no start is accepted under an id that is stored,
with the sessions for which parts are confirmed in its course. -/
inductive Stretch : Engine → List String → Engine → Prop
  | nil (e : Engine) : Stretch e [] e
  | cons {e e' e'' : Engine} {ev : Event} {ids : List String} (new : ev.IsNew e)
      (step : Step e ev e') (rest : Stretch e' ids e'') :
    Stretch e ((e.confirms? ev).toList ++ ids) e''

variable {e e' e'' : Engine} {ev : Event} {c : Change} {id : String} {s : Session} {t : Task}
  {p q k : Nat} {ids : List String}

theorem flight?_eq_some :
    e.flight? p k = some (id, t) ↔
      ∃ stage, e.pipelines[p]? = some ⟨id, stage⟩ ∧ stage.flight? k = some t := by
  constructor
  · intro h
    obtain ⟨⟨i, stage⟩, found, h⟩ := Option.bind_eq_some_iff.1 h
    obtain ⟨u, hu, he⟩ := Option.map_eq_some_iff.1 h
    cases he
    exact ⟨stage, found, hu⟩
  · rintro ⟨stage, found, h⟩
    rw [flight?, found, Option.bind_some, h]
    rfl

/-- A worker that has no part under way neither searches nor uploads nor
confirms. -/
theorem still_of_flight? (h : e.flight? p k = none) :
    (∀ r, e.deed? (.reply p k r) = none) ∧ e.confirms? (.move (.work p k)) = none := by
  have idle {id : String} {pool : Pool} {w : WorkerStage}
      (found : e.pipelines[p]? = some ⟨id, .draining pool⟩) (at_work : pool.workers[k]? = some w) :
      w.flight? = none := by
    rw [flight?, found, Option.bind_some, PipelineStage.flight?, at_work, Option.bind_some,
      Option.map_eq_none_iff] at h
    exact h
  have search : e.search? p k = none := by
    unfold search?
    split
    · next found =>
      split
      · next at_work => cases idle found at_work
      · rfl
    · rfl
  constructor
  · intro r
    cases r with
    | page answer =>
      cases answer with
      | error => rfl
      | ok => simp only [deed?, search]; rfl
    | _ => simp only [deed?, search, Option.map_none]
  · simp only [confirms?]
    split
    · next found =>
      split
      · next at_work => cases idle found at_work
      · rfl
    · rfl

/-- A pipeline that is beyond its first stage was there before, and is where it
was unless it has moved. -/
theorem Effect.found_before {stage' : PipelineStage} (effect : Effect e ev c e')
    (found : e'.pipelines[p]? = some ⟨id, stage'⟩) (begun : stage' ≠ .opening) :
    e.pipelines[p]? = some ⟨id, stage'⟩ ∨
      ∃ m stage, ev = .move m ∧ e.Moved m e' p id stage c stage' := by
  have launched {i : String} (hp : e'.pipelines = e.pipelines ++ [⟨i, .opening⟩]) :
      e.pipelines[p]? = some ⟨id, stage'⟩ := by
    rw [hp, List.getElem?_append] at found
    split_ifs at found
    · exact found
    · cases List.mem_singleton.1 (List.mem_of_getElem? found)
      exact absurd rfl begun
  cases effect with
  | quiet _ _ _ pipelines => exact .inl (pipelines ▸ found)
  | started _ _ _ _ _ pipelines => exact .inl (launched pipelines)
  | restored pipelines => exact .inl (launched pipelines)
  | @moved m q i stage stage₁ c e' moved =>
    have after := found
    rw [moved.pipelines, List.getElem?_set] at after
    split_ifs at after with hq hlt
    · subst hq
      cases after
      exact .inr ⟨m, stage, rfl, moved⟩
    · exact .inl after

/-- While a session has ended, the parts under way for it were under way before. -/
theorem Effect.flight? (effect : Effect e ev c e')
    (found : e.backend.records.shelf.session id = some s) (left : s.status ≠ .start)
    (h : e'.flight? p k = some (id, t)) : e.flight? p k = some (id, t) := by
  obtain ⟨stage', at', flying⟩ := flight?_eq_some.1 h
  rcases effect.found_before at' (by rintro rfl; cases flying) with
    same | ⟨m, stage, -, moved⟩
  · exact flight?_eq_some.2 ⟨stage', same, flying⟩
  · exact flight?_eq_some.2 ⟨stage, moved.found, moved.step.flight? found left flying⟩

/-- A call that confirms a part is the end of its flight. -/
theorem Step.lands (step : Step e ev e') (call : e.confirms? ev = some id) :
    ∃ p k t, e.flight? p k = some (id, t) ∧ e'.flight? p k = none := by
  unfold confirms? at call
  split at call
  · next p k =>
    split at call
    · next i pool found =>
      split at call
      · next t size at_work =>
        cases call
        refine ⟨p, k, t, flight?_eq_some.2 ⟨_, found, ?_⟩, ?_⟩
        · simp only [PipelineStage.flight?, at_work, Option.bind_some, WorkerStage.flight?]
        · cases step with
          | move h =>
            obtain ⟨e₁, w', pool', act, after, at_work'⟩ := work_step found at_work nofun h
            rw [Engine.flight?, after, Option.bind_some, PipelineStage.flight?, at_work',
              Option.bind_some]
            cases act <;> rfl
      · cases call
    · cases call
  · cases call

/-! ### One pipeline for each session -/

/-- A session has one pipeline at most, and the pipeline as many workers as the
settings tell. -/
structure Crewed (e : Engine) : Prop extends e.Watched where
  single : (e.pipelines.map Pipeline.session).Nodup
  crew : ∀ p pool, e.pool? p = some pool → pool.workers.length = max 1 e.settings.workers

theorem crewed_of_create {t : ExportSettings} {b b' : Backend} {now : Instant} {files : Files}
    (clock : now.Valid) (pages : t.pageSize ≤ Numeral.maxUInt64)
    (create : create t b now files = (.ok e, b')) : e.Crewed := by
  obtain ⟨-, -, -, empty, -⟩ := created create
  refine ⟨watched_of_create clock pages create, ?_, fun p pool draining => ?_⟩
  · rw [empty]
    exact List.nodup_nil
  · obtain ⟨id, found⟩ := pool?_eq_some.1 draining
    rw [empty] at found
    cases found

/-- An accepted start has an id of its own. -/
theorem Event.IsNew.unstored {user : Option String} {r : ExportRequest}
    (new : (Event.start user r (.ok id)).IsNew e) : e.backend.records.shelf.session id = none :=
  Option.bind_eq_none_iff.2 fun _ hbs => absurd (new.symm.trans hbs) nofun

/-- What is stored anew is stored under an id of its own. -/
theorem Effect.unstored (effect : Effect e ev (.start s) e') (new : ev.IsNew e) :
    e.backend.records.shelf.session s.id = none := by
  cases effect with
  | quiet _ _ mild => cases mild
  | started => exact new.unstored
  | moved moved => cases moved.step.acquired?.1

/-- Whoever takes the lock has no pipeline yet. -/
theorem Watched.fresh (h : e.Watched) (effect : Effect e ev c e') (new : ev.IsNew e)
    (acquired : c.acquired? = some id) : ¬ e.Launched id := by
  intro launched
  obtain ⟨s, found⟩ := h.stored id launched
  cases effect with
  | quiet _ _ mild => cases mild <;> cases acquired
  | started =>
    cases acquired
    exact Option.some_ne_none s (found.symm.trans new.unstored)
  | restored _ _ _ _ records =>
    cases acquired
    obtain ⟨⟨u, found', running⟩, free⟩ := records.2.of_restore
    rw [h.guarded.sole id u launched found' running] at free
    cases free
  | moved moved =>
    rw [moved.step.acquired?.1] at acquired
    cases acquired

theorem Crewed.step (h : e.Crewed) (new : ev.IsNew e) (step : Step e ev e') : e'.Crewed := by
  obtain ⟨c, effect⟩ := h.sound.effect step
  refine ⟨h.toWatched.step step, ?_, fun p pool draining => ?_⟩
  · rw [effect.launched]
    refine List.nodup_append.2 ⟨h.single, ?_, fun i hi j hj => ?_⟩
    · cases c.acquired? <;> simp
    · rintro rfl
      exact h.toWatched.fresh effect new (Option.mem_toList.1 hj) hi
  · rw [effect.settings]
    obtain ⟨i, found⟩ := pool?_eq_some.1 draining
    rcases effect.found_before found nofun with same | ⟨m, stage, rfl, moved⟩
    · exact h.crew p pool (pool?_eq_some.2 ⟨i, same⟩)
    rcases moved.step.crew with rfl | ⟨pool₀, rfl, same⟩
    · by_cases acts : m.pipeline? = some p
      · cases step with
        | move hm => exact crew_of_opened moved.found acts hm found
      · have kept := step.pipeline_kept h.sound (by rintro _ ⟨⟩; exact acts) moved.found
        rw [found] at kept
        cases kept
    · rw [same]
      exact h.crew p pool₀ (pool?_eq_some.2 ⟨i, moved.found⟩)

theorem Crewed.alone {stage stage' : PipelineStage} (h : e.Crewed)
    (one : e.pipelines[p]? = some ⟨id, stage⟩) (other : e.pipelines[q]? = some ⟨id, stage'⟩) :
    p = q := by
  have hp : (e.pipelines.map Pipeline.session)[p]? = some id := by rw [List.getElem?_map, one]; rfl
  have hq : (e.pipelines.map Pipeline.session)[q]? = some id := by
    rw [List.getElem?_map, other]
    rfl
  obtain ⟨hlt, -⟩ := List.getElem?_eq_some_iff.1 hp
  exact (List.getElem?_inj hlt h.single).1 (hp.trans hq.symm)

/-- Whoever has a part of a session under way is one of the workers of one
pipeline. -/
theorem Crewed.exists_own (h : e.Crewed) (id : String) :
    ∃ p, ∀ q k t, e.flight? q k = some (id, t) → q = p ∧ k < max 1 e.settings.workers := by
  have hired {q k : Nat} {t : Task} (flying : e.flight? q k = some (id, t)) :
      ∃ stage, e.pipelines[q]? = some ⟨id, stage⟩ ∧ k < max 1 e.settings.workers := by
    obtain ⟨stage, at', flying⟩ := flight?_eq_some.1 flying
    cases stage with
    | draining pool =>
      obtain ⟨w, at_work, -⟩ := Option.bind_eq_some_iff.1 flying
      obtain ⟨hlt, -⟩ := List.getElem?_eq_some_iff.1 at_work
      exact ⟨_, at', h.crew q pool (pool?_eq_some.2 ⟨id, at'⟩) ▸ hlt⟩
    | _ => cases flying
  by_cases idle : ∃ p k t, e.flight? p k = some (id, t)
  · obtain ⟨p, k, t, flying⟩ := idle
    obtain ⟨stage, at', -⟩ := hired flying
    refine ⟨p, fun q j u flying' => ?_⟩
    obtain ⟨stage', at'', hlt⟩ := hired flying'
    exact ⟨h.alone at'' at', hlt⟩
  · exact ⟨0, fun q k t flying => absurd ⟨q, k, t, flying⟩ idle⟩

/-! ### After a session has ended -/

theorem Watched.status_step (h : e.Watched) (new : ev.IsNew e) (step : Step e ev e')
    (found : e.backend.records.shelf.session id = some s) (left : s.status ≠ .start) :
    ∃ s', e'.backend.records.shelf.session id = some s' ∧ s'.status = s.status := by
  obtain ⟨c, effect⟩ := h.sound.effect step
  refine effect.records.2.status_kept (fun u hc hid => ?_) found left
  subst hc hid
  exact Option.some_ne_none s (found.symm.trans (effect.unstored new))

/-- The workers of a pipeline that have a part under way for a session. -/
def underWay (e : Engine) (id : String) (p w : Nat) : Finset Nat :=
  (Finset.range w).filter fun k => (e.flight? p k).map Prod.fst = some id

theorem mem_underWay {w : Nat} :
    k ∈ e.underWay id p w ↔ k < w ∧ ∃ t, e.flight? p k = some (id, t) := by
  simp [underWay]

theorem Stretch.crewed (run : Stretch e ids e') (h : e.Crewed) : e'.Crewed := by
  induction run with
  | nil => exact h
  | cons new step _ ih => exact ih (h.step new step)

theorem Stretch.status (run : Stretch e ids e') (h : e.Watched)
    (found : e.backend.records.shelf.session id = some s) (left : s.status ≠ .start) :
    ∃ s', e'.backend.records.shelf.session id = some s' ∧ s'.status = s.status := by
  induction run generalizing s with
  | nil => exact ⟨s, found, rfl⟩
  | cons new step _ ih =>
    obtain ⟨s', found', same⟩ := h.status_step new step found left
    obtain ⟨s'', found'', same'⟩ := ih (h.step step) found' (same ▸ left)
    exact ⟨s'', found'', same'.trans same⟩

theorem Stretch.flight? (run : Stretch e ids e') (h : e.Watched)
    (found : e.backend.records.shelf.session id = some s) (left : s.status ≠ .start)
    (flying : e'.flight? p k = some (id, t)) : e.flight? p k = some (id, t) := by
  induction run generalizing s with
  | nil => exact flying
  | cons new step _ ih =>
    obtain ⟨s', found', same⟩ := h.status_step new step found left
    obtain ⟨c, effect⟩ := h.sound.effect step
    exact effect.flight? found left (ih (h.step step) found' (same ▸ left) flying)

/-- Each part that is confirmed is one under way less. -/
theorem Stretch.count_le {w : Nat} (run : Stretch e ids e') (h : e.Watched)
    (found : e.backend.records.shelf.session id = some s) (left : s.status ≠ .start)
    (own : ∀ q k t, e.flight? q k = some (id, t) → q = p ∧ k < w) :
    ids.count id + (e'.underWay id p w).card ≤ (e.underWay id p w).card := by
  induction run generalizing s with
  | nil => simp
  | @cons e e' e'' ev ids new step _ ih =>
    obtain ⟨s', found', same⟩ := h.status_step new step found left
    obtain ⟨c, effect⟩ := h.sound.effect step
    have before {q k : Nat} {t : Task} (flying : e'.flight? q k = some (id, t)) :
        e.flight? q k = some (id, t) := effect.flight? found left flying
    have rest := ih (h.step step) found' (same ▸ left) fun q k t flying => own q k t (before flying)
    have fewer : e'.underWay id p w ⊆ e.underWay id p w := fun k hk => by
      obtain ⟨hlt, t, flying⟩ := mem_underWay.1 hk
      exact mem_underWay.2 ⟨hlt, t, before flying⟩
    rw [List.count_append]
    by_cases call : e.confirms? ev = some id
    · obtain ⟨q, k, t, flying, landed⟩ := step.lands call
      obtain ⟨rfl, hlt⟩ := own q k t flying
      have less : e'.underWay id q w ⊂ e.underWay id q w := by
        refine Finset.ssubset_iff_subset_ne.2 ⟨fewer, fun same => ?_⟩
        have hk := same ▸ mem_underWay.2 ⟨hlt, t, flying⟩
        obtain ⟨-, u, flying'⟩ := mem_underWay.1 hk
        rw [landed] at flying'
        cases flying'
      have card := Finset.card_lt_card less
      rw [call, Option.toList_some, List.count_singleton_self]
      omega
    · have card := Finset.card_le_card fewer
      have none : (e.confirms? ev).toList.count id = 0 :=
        List.count_eq_zero.2 fun hid => call (Option.mem_toList.1 hid)
      omega

/-- A worker that looks for the status after the session has ended loses its part. -/
theorem Sound.turns_away {pool : Pool} (h : e.Sound)
    (at' : e.pipelines[p]? = some ⟨id, .draining pool⟩)
    (at_work : pool.workers[k]? = some (.busy t .checking))
    (found : e.backend.records.shelf.session id = some s) (left : s.status ≠ .start)
    (step : e.step? (.work p k) = some e') :
    ∃ pool' w, e'.pipelines[p]? = some ⟨id, .draining pool'⟩ ∧ pool'.workers[k]? = some w ∧
      w.IsLost := by
  obtain ⟨e₁, w', pool', act, after, at_work'⟩ := work_step at' at_work nofun step
  refine ⟨pool', w', after, at_work', ?_⟩
  cases act with
  | begun load running =>
    obtain ⟨-, ⟨_, ⟨⟩⟩ | ⟨_, ⟨⟩, found'⟩⟩ := SessionStore.gives_load h.filed load
    rw [found] at found'
    cases found'
    exact absurd running left
  | unknown => exact .failed _ _
  | unsearchable => exact .crashed _
  | late => exact .failed _ _
  | skipped => exact .skipped _

theorem Stretch.settings (run : Stretch e ids e') (h : e.Watched) : e'.settings = e.settings := by
  induction run with
  | nil => rfl
  | cons new step _ ih =>
    obtain ⟨c, effect⟩ := h.sound.effect step
    exact (ih (h.step step)).trans effect.settings

/-- A session comes to rest soon after it has been cancelled or has failed. In
every run of a service alone on its storage in which no start is accepted under
an id that is stored, whatever storage, the search service and the file store do,
from any moment on at which the session has ended so
(a) the parts that are under way for it were under way then, in the hands of the
same workers, and workers without such a part neither search nor upload nor
confirm;
(b) whoever looks for its status loses the part;
(c) no more parts are confirmed for it than there are workers;
(d) it stays cancelled or failed. -/
theorem ended_comes_to_rest {settings : ExportSettings} {b b' : Backend} {now : Instant}
    {files : Files} {e₀ e₁ e₂ : Engine} {early late : List String} (clock : now.Valid)
    (pages : settings.pageSize ≤ Numeral.maxUInt64)
    (create : create settings b now files = (.ok e₀, b')) (before : Stretch e₀ early e₁)
    (found : e₁.backend.records.shelf.session id = some s)
    (left : s.status = .cancel ∨ s.status = .fail) (after : Stretch e₁ late e₂) :
    (∀ p k t, e₂.flight? p k = some (id, t) → e₁.flight? p k = some (id, t)) ∧
    (∀ p k, e₂.flight? p k = none →
      (∀ r, e₂.deed? (.reply p k r) = none) ∧ e₂.confirms? (.move (.work p k)) = none) ∧
    (∀ p k t pool e₃, e₂.pipelines[p]? = some ⟨id, .draining pool⟩ →
      pool.workers[k]? = some (.busy t .checking) → e₂.step? (.work p k) = some e₃ →
      ∃ pool' w, e₃.pipelines[p]? = some ⟨id, .draining pool'⟩ ∧ pool'.workers[k]? = some w ∧
        w.IsLost) ∧
    late.count id ≤ settings.workers ∧
    ∃ s', e₂.backend.records.shelf.session id = some s' ∧ s'.status = s.status := by
  have crewed₀ := crewed_of_create clock pages create
  have crewed := before.crewed crewed₀
  have ended : s.status ≠ .start := by rcases left with hs | hs <;> rw [hs] <;> nofun
  obtain ⟨s', found', same⟩ := after.status crewed.toWatched found ended
  have held : ∀ p k t, e₂.flight? p k = some (id, t) → e₁.flight? p k = some (id, t) :=
    fun p k t => after.flight? crewed.toWatched found ended
  have sound := (after.crewed crewed).sound
  refine ⟨held, fun p k => still_of_flight?, fun p k t pool e₃ at' at_work =>
    sound.turns_away at' at_work found' (same ▸ ended), ?_, s', found', same⟩
  obtain ⟨p, own⟩ := crewed.exists_own id
  obtain ⟨length, valid, same⟩ := settings_of_create create
  have manned : max 1 e₁.settings.workers = settings.workers := by
    rw [before.settings crewed₀.toWatched, same]
    exact Nat.max_eq_right (ExportSettings.pos_of_validate valid).1
  rw [manned] at own
  have spent := after.count_le crewed.toWatched found ended own
  have most : (e₁.underWay id p settings.workers).card ≤ settings.workers :=
    (Finset.card_filter_le _ _).trans_eq (Finset.card_range _)
  omega

theorem isNew_move (e : Engine) (m : Move) : Event.IsNew e (.move m) := trivial

theorem stretch_of_leads (leads : e.Leads e') : ∃ ids, Stretch e ids e' := by
  refine Relation.ReflTransGen.head_induction_on leads.1 ⟨[], .nil e'⟩ ?_
  rintro a b ⟨m, hm⟩ - ⟨ids, rest⟩
  exact ⟨_, .cons (isNew_move a m) (.move hm) rest⟩

theorem Stretch.append {ids' : List String} (run : Stretch e ids e') (next : Stretch e' ids' e'') :
    Stretch e (ids ++ ids') e'' := by
  induction run with
  | nil => exact next
  | cons new step _ ih =>
    rw [List.append_assoc]
    exact .cons new step (ih next)

/-- The sample can be cancelled while a worker is about to confirm a part, and the
worker goes on. -/
theorem audit_can_confirm_late :
    ∃ e₀ b early e₁ e₂ e₃ s, create hourly {} newYear { linkBase := "" } = (.ok e₀, b) ∧
      Stretch e₀ early e₁ ∧ Step e₁ (.cancel none auditId (.ok ())) e₂ ∧
      Stretch e₂ [auditId] e₃ ∧ e₂.backend.records.shelf.session auditId = some s ∧
      s.status = .cancel := by
  obtain ⟨e₀, b, e₁, created, start, quiet, allowed, pages, fits, bounds, room, count, empty⟩ :
      ∃ e₀ b e₁, create hourly {} newYear { linkBase := "" } = (.ok e₀, b) ∧
        Step e₀ (.start none audit (.ok auditId)) e₁ ∧ e₁.backend.faults = {} ∧
        e₁.authorize none = .ok anonymous ∧ 0 < e₀.settings.pageSize ∧
        e₀.settings.queueSize ≤ Pool.maxCapacity ∧
        e₀.settings.partLength.normalize? audit.start audit.stop =
          some (newYear, ⟨1704070800, 0⟩) ∧
        newYear.HasRoom e₀.settings.partLength.step ∧
        partitionCount? newYear ⟨1704070800, 0⟩ e₀.settings.partLength.length = some 1 ∧
        Event.IsNew e₀ (.start none audit (.ok auditId)) :=
    ⟨_, _, _, rfl, .start exact_audit rfl, rfl, rfl, by decide, by decide, rfl, by decide, rfl, rfl⟩
  have crewed₀ := crewed_of_create (by decide) (by decide) created
  obtain ⟨c, effect⟩ := crewed₀.sound.effect start
  -- The first worker comes as far as to have the part stored.
  obtain ⟨e₄, s, pool, t, d₀, leads₄, works₄, limit, hid, running, -⟩ :=
    effect.begins_part crewed₀.sound.now quiet pages fits bounds ⟨by decide, by decide⟩ room count
  obtain ⟨e₅, d, leads₅, works₅, done⟩ := works₄.searches limit
  obtain ⟨e₆, leads₆, works₆⟩ := works₅.stores done
  have leads : e₁.Leads e₆ := leads₄.trans (leads₅.trans leads₆)
  obtain ⟨ids, moves⟩ := stretch_of_leads leads
  have before := Stretch.cons empty start moves
  -- Now the session is cancelled.
  have crewed := before.crewed crewed₀
  have held : e₆.backend.records.shelf.holder = some s.id :=
    crewed.guarded.sole s.id s (List.mem_map.2 ⟨_, List.mem_of_getElem? works₆.1.found, rfl⟩)
      works₆.1.holds.stored running
  have allowed₆ : e₆.authorize none = .ok anonymous := by
    rw [← allowed]
    simp only [authorize, leads.2]
  obtain ⟨e₇, cancel, -, -, -, -, cancelled⟩ := cancel_quiet allowed₆ crewed.sound.filed
    crewed.sound.now works₆.1.holds.quiet works₆.1.holds.stored running held
  have same := launched_cancel cancel
  have found₇ := works₆.1.found
  rw [← same] at found₇
  obtain ⟨e₈, confirm⟩ : ∃ e₈, e₇.step? (.work e₀.pipelines.length 0) = some e₈ := by
    simp only [step?, work?, found₇, works₆.found]
    exact ⟨_, rfl⟩
  have told : e₇.confirms? (.move (.work e₀.pipelines.length 0)) = some auditId := by
    simp only [confirms?, found₇, works₆.found, hid]
  have late := Stretch.cons (isNew_move e₇ _) (.move confirm) (.nil e₈)
  rw [told] at late
  exact ⟨e₀, b, _, e₆, e₇, e₈, _, created, before, .cancel (hid ▸ cancel), late, hid ▸ cancelled,
    rfl⟩

theorem ended_comes_to_rest_audit :
    ∃ e₀ b early e₁ e₂ e₃, create hourly {} newYear { linkBase := "" } = (.ok e₀, b) ∧
      Stretch e₀ early e₁ ∧ Step e₁ (.cancel none auditId (.ok ())) e₂ ∧
      Stretch e₂ [auditId] e₃ ∧ [auditId].count auditId ≤ hourly.workers ∧
      ∃ s, e₃.backend.records.shelf.session auditId = some s ∧ s.status = .cancel := by
  obtain ⟨e₀, b, early, e₁, e₂, e₃, s, created, before, cancel, after, found, cancelled⟩ :=
    audit_can_confirm_late
  have until' := before.append (Stretch.cons (by trivial) cancel (.nil e₂))
  obtain ⟨-, -, -, bounded, s', found', same⟩ := ended_comes_to_rest (by decide) (by decide) created
    until' found (.inl cancelled) after
  exact ⟨e₀, b, early, e₁, e₂, e₃, created, before, cancel, after, bounded, s', found',
    same.trans cancelled⟩

end Engine

end LogExport
