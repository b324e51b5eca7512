import LogExport.Proofs.Pipeline.Acts
import LogExport.Proofs.Pipeline.Turnover
import LogExport.Service.Calls

/-! The pools of an engine. While the workers of a pipeline are at it, its acts are
steps of its pool, and the acts of other pipelines leave the pool alone. -/

namespace LogExport

open Access

/-- What a move of the pipeline tells. -/
def Pool.news (pool : Pool) : Move → News
  | .work _ k =>
    match pool.workers[k]? with
    | some .idle =>
      match pool.queue with
      | t :: _ => .received k t
      | [] => .drained k
    | some (.busy t (.done r)) => .returned t (some r)
    | _ => .quiet
  | .report _ k =>
    match pool.workers[k]? with
    | some (.busy t .crashed) => .returned t none
    | _ => .quiet
  | _ => .quiet

section Acts

variable {e e₁ : Engine} {p k : Nat} {id : String} {pool pool' : Pool} {m : Move}

theorem Pool.step_of_receive (idle : pool.workers[k]? = some .idle)
    (receives : pool.receive? k = some pool') : pool.Step (pool.news (.work p k)) pool' := by
  rcases receive?_eq_some receives with ⟨t, rest, queue, rfl⟩ | ⟨queue, closed, rfl⟩
  · have told : pool.news (.work p k) = .received k t := by simp only [news, idle, queue]
    rw [told]
    exact .received idle queue
  · have told : pool.news (.work p k) = .drained k := by simp only [news, idle, queue]
    rw [told]
    exact .drained idle queue closed

/-- What a worker does is a step of its pool. -/
theorem WorkerAct.turn {w w' : WorkerStage} (act : WorkerAct e p k id m w e₁ w')
    (at_work : pool.workers[k]? = some w) : pool.Step (pool.news m) (pool.setWorker k w') := by
  cases act with
  | settled =>
    simp only [Pool.news, at_work]
    exact .uploaded at_work
  | stopped =>
    simp only [Pool.news, at_work]
    exact .left at_work nofun
  | interrupted =>
    simp only [Pool.news, at_work]
    exact .left at_work nofun
  | failed =>
    simp only [Pool.news, at_work]
    exact .left at_work nofun
  | unfailed =>
    simp only [Pool.news, at_work]
    exact .left at_work nofun
  | reported =>
    simp only [Pool.news, at_work]
    exact .died at_work nofun
  | _ =>
    simp only [Pool.news, at_work]
    exact .called at_work rfl

theorem WorkerAct.eq_of_work {j : Nat} {w w' : WorkerStage}
    (act : WorkerAct e p j id (.work p k) w e₁ w') : j = k := by
  cases act <;> rfl

/-- The stage that follows when all workers have ended. Only if all of them have
drained the queue does the pipeline go on. -/
def Pool.sequel (pool : Pool) : PipelineStage :=
  if pool.isClean then .closing else .ended (.ok ())

/-- While the workers are at it, an act is a step of the pool, or the last one. -/
theorem PipelineAct.turn {stage' : PipelineStage}
    (act : PipelineAct e p id m (.draining pool) e₁ stage') :
    (∃ pool', stage' = .draining pool' ∧ pool.Step (pool.news m) pool') ∨
      pool.news m = .quiet ∧ pool.isOver = true ∧ stage' = pool.sequel := by
  cases act with
  | fed feeds => exact .inl ⟨_, rfl, .fed feeds⟩
  | received idle receives => exact .inl ⟨_, rfl, Pool.step_of_receive idle receives⟩
  | worked at_work works => exact .inl ⟨_, rfl, works.turn at_work⟩
  | drained spent _ clean => exact .inr ⟨rfl, spent, by rw [Pool.sequel, if_pos clean]⟩
  | gaveUp spent _ unclean =>
    exact .inr ⟨rfl, spent, by rw [Pool.sequel, unclean, if_neg Bool.false_ne_true]⟩

/-- A pool that is opened has as many workers as the settings tell. -/
theorem PipelineAct.crew (act : PipelineAct e p id m .opening e₁ (.draining pool)) :
    pool.workers.length = max 1 e.settings.workers := by
  cases act with
  | opened => exact List.length_replicate

end Acts

namespace Engine

/-- The pool of a pipeline whose workers are at it. -/
def pool? (e : Engine) (p : Nat) : Option Pool :=
  match e.pipelines[p]? with
  | some ⟨_, .draining pool⟩ => some pool
  | _ => none

variable {e e' e₁ : Engine} {p q : Nat} {id i : String} {pool : Pool} {m : Move}
  {stage stage' : PipelineStage}

theorem pool?_eq_some :
    e.pool? p = some pool ↔ ∃ id, e.pipelines[p]? = some ⟨id, .draining pool⟩ := by
  unfold pool?
  constructor
  · intro h
    split at h
    · next id pool' found =>
      cases h
      exact ⟨id, found⟩
    · cases h
  · rintro ⟨id, found⟩
    rw [found]

theorem pool?_congr (h : e'.pipelines[p]? = e.pipelines[p]?) : e'.pool? p = e.pool? p := by
  rw [pool?, pool?, h]

theorem pool?_setStage (found : e.pipelines[p]? = some ⟨id, .draining pool⟩) (pool' : Pool) :
    (e.setStage p (.draining pool')).pool? p = some pool' := by
  refine pool?_eq_some.2 ⟨id, ?_⟩
  obtain ⟨hlt, -⟩ := List.getElem?_eq_some_iff.1 found
  rw [pipelines_setStage found, List.getElem?_set_self hlt]

theorem pool?_of_sequel (after : e.pipelines[p]? = some ⟨id, pool.sequel⟩) : e.pool? p = none := by
  rw [pool?, after, Pool.sequel]
  cases pool.isClean <;> rfl

/-- An act brings its pipeline to the stage after it. -/
theorem Acted.found_after (h : e.Acted m e' p id stage e₁ stage') :
    e'.pipelines[p]? = some ⟨id, stage'⟩ := by
  rw [h.pipelines, List.getElem?_set_self (List.getElem?_eq_some_iff.1 h.found).1]

theorem Acted.pool?_of_ne (h : e.Acted m e' q i stage e₁ stage') (other : q ≠ p) :
    e'.pool? p = e.pool? p :=
  pool?_congr (by rw [h.pipelines, List.getElem?_set_ne other])

/-- What a move of a pipeline does while its workers are at it. -/
theorem pool_step (found : e.pipelines[p]? = some ⟨id, .draining pool⟩)
    (acts : m.pipeline? = some p) (h : e.step? m = some e') :
    (∃ pool', e'.pool? p = some pool' ∧ pool.Step (pool.news m) pool') ∨
      pool.news m = .quiet ∧ pool.isOver = true ∧ e'.pipelines[p]? = some ⟨id, pool.sequel⟩ := by
  obtain ⟨_, _, e₁, stage', acted⟩ := acted acts h
  cases found.symm.trans acted.found
  have after := acted.found_after
  rcases acted.act.turn with ⟨pool', rfl, step⟩ | ⟨told, spent, rfl⟩
  · exact .inl ⟨pool', pool?_eq_some.2 ⟨id, after⟩, step⟩
  · exact .inr ⟨told, spent, after⟩

/-- A move of another pipeline, or of none, leaves the pool alone. -/
theorem pool?_of_other (other : m.pipeline? ≠ some p) (h : e.step? m = some e') :
    e'.pool? p = e.pool? p := by
  cases acts : m.pipeline? with
  | some q =>
    obtain ⟨_, _, _, _, acted⟩ := acted acts h
    exact acted.pool?_of_ne fun same => other (same ▸ acts)
  | none =>
    obtain ⟨counters, rfl⟩ := counted_step acts h
    rfl

/-- A worker with a part acts when it is its turn. -/
theorem work_step {k : Nat} {w : WorkerStage}
    (found : e.pipelines[p]? = some ⟨id, .draining pool⟩) (at_work : pool.workers[k]? = some w)
    (busy : w ≠ .idle) (h : e.step? (.work p k) = some e') :
    ∃ e₁ w' pool', WorkerAct e p k id (.work p k) w e₁ w' ∧
      e'.pipelines[p]? = some ⟨id, .draining pool'⟩ ∧ pool'.workers[k]? = some w' := by
  obtain ⟨_, _, e₁, stage', acted⟩ := acted rfl h
  cases found.symm.trans acted.found
  have after := acted.found_after
  cases acted.act with
  | received idle => exact absurd (Option.some.inj (at_work.symm.trans idle)) busy
  | worked at_work' works =>
    cases works.eq_of_work
    cases at_work.symm.trans at_work'
    exact ⟨e₁, _, _, works, after, List.getElem?_set_self (List.getElem?_eq_some_iff.1 at_work).1⟩

theorem crew_of_opened (found : e.pipelines[p]? = some ⟨id, .opening⟩)
    (acts : m.pipeline? = some p) (h : e.step? m = some e')
    (draining : e'.pipelines[p]? = some ⟨id, .draining pool⟩) :
    pool.workers.length = max 1 e.settings.workers := by
  obtain ⟨_, _, e₁, stage', acted⟩ := acted acts h
  cases found.symm.trans acted.found
  cases draining.symm.trans acted.found_after
  exact acted.act.crew

/-! ### Calls -/

/-- New pipelines are launched after the ones that are there. -/
theorem pool?_of_append {new : List Pipeline} (same : e'.pipelines = e.pipelines ++ new)
    (draining : e.pool? p = some pool) : e'.pool? p = some pool := by
  obtain ⟨id, found⟩ := pool?_eq_some.1 draining
  obtain ⟨hlt, -⟩ := List.getElem?_eq_some_iff.1 found
  exact pool?_eq_some.2 ⟨id, by rw [same, List.getElem?_append_left hlt, found]⟩

theorem launched_start {user : Option String} {r : ExportRequest} {answer : Except Error String}
    (h : e.start user r = some (answer, e')) : ∃ new, e'.pipelines = e.pipelines ++ new := by
  unfold Engine.start at h
  obtain ⟨prepared, -, h⟩ := Option.map_eq_some_iff.1 h
  cases prepared with
  | error err =>
    cases h
    exact ⟨[], (List.append_nil _).symm⟩
  | ok s =>
    rcases hg : (SessionStore.start s).run.run e.backend with ⟨r, b⟩
    dsimp only at h
    rw [access_eq hg] at h
    cases r with
    | error err =>
      cases h
      exact ⟨[], (List.append_nil _).symm⟩
    | ok _ =>
      cases h
      exact ⟨_, rfl⟩

theorem launched_restore {user : Option String} {answer : Except Error Unit}
    (h : e.restore user id = (answer, e')) : ∃ new, e'.pipelines = e.pipelines ++ new := by
  unfold Engine.restore at h
  split at h
  · cases h
    exact ⟨[], (List.append_nil _).symm⟩
  rcases hg : (SessionStore.lockForRestore id).run.run e.backend with ⟨r, b⟩
  rw [access_eq hg] at h
  cases r with
  | error err =>
    cases h
    exact ⟨[], (List.append_nil _).symm⟩
  | ok _ =>
    cases h
    exact ⟨_, rfl⟩

theorem launched_cancel {user : Option String} {answer : Except Error Unit}
    (h : e.cancel user id = (answer, e')) : e'.pipelines = e.pipelines := by
  unfold Engine.cancel at h
  split at h
  · cases h
    rfl
  rcases hg : (SessionStore.cancel e.now id).run.run e.backend with ⟨r, b⟩
  rw [access_eq hg] at h
  cases r <;> cases h <;> rfl

end Engine

end LogExport
