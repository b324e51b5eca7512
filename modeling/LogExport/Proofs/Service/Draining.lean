import LogExport.Proofs.Pipeline.Pools
import LogExport.Proofs.Service.Lock

/-! The drain of a queue, from the launch of the workers until the queue is closed
and the last of them has ended. A queue that is larger than one can be made is not
drained: its pipeline crashes before. The receiving end of the queue is shared: a
worker takes it, waits with it for a task, and lets go of it with the receipt.
Meanwhile anything may happen to the service. -/

namespace LogExport

open Access

namespace Engine

/-- What an event tells of the tasks of a pipeline. -/
def news (e : Engine) (p : Nat) : Event → Pool.News
  | .move m =>
    if m.pipeline? = some p then
      match e.pool? p with
      | some pool => pool.news m
      | none => .quiet
    else .quiet
  | _ => .quiet

variable {e e' : Engine} {p : Nat} {id : String} {pool : Pool} {ev : Event}

/-- While the workers of a pipeline are at it, an event leaves the pool alone, is
a step of the pool, or ends the drain. -/
theorem Step.drains (step : Step e ev e') (found : e.pipelines[p]? = some ⟨id, .draining pool⟩) :
    (e.news p ev = .quiet ∧ e'.pool? p = some pool) ∨
      (∃ pool', e'.pool? p = some pool' ∧ pool.Step (e.news p ev) pool') ∨
      e.news p ev = .quiet ∧ pool.isOver = true ∧
        e'.pipelines[p]? = some ⟨id, pool.sequel⟩ := by
  have draining : e.pool? p = some pool := pool?_eq_some.2 ⟨id, found⟩
  cases step with
  | start exact h =>
    obtain ⟨new, same⟩ := launched_start h
    exact .inl ⟨rfl, pool?_of_append same draining⟩
  | restore h =>
    obtain ⟨new, same⟩ := launched_restore h
    exact .inl ⟨rfl, pool?_of_append same draining⟩
  | cancel h =>
    refine .inl ⟨rfl, ?_⟩
    rw [pool?, launched_cancel h]
    exact draining
  | check user i =>
    refine .inl ⟨rfl, ?_⟩
    unfold Engine.check
    split <;> exact draining
  | all user =>
    refine .inl ⟨rfl, ?_⟩
    unfold Engine.all
    split <;> exact draining
  | shutdown => exact .inl ⟨rfl, draining⟩
  | clock valid => exact .inl ⟨rfl, draining⟩
  | faults plan => exact .inl ⟨rfl, draining⟩
  | @move m e' h =>
    by_cases acts : m.pipeline? = some p
    · have told : e.news p (.move m) = pool.news m := by simp only [news, acts, draining, if_true]
      rw [told]
      exact .inr (pool_step found acts h)
    · have told : e.news p (.move m) = .quiet := by simp only [news, acts, if_false]
      exact .inl ⟨told, (pool?_of_other acts h).trans draining⟩

end Engine

/-- A service, and what was told of the tasks of one of its pipelines. -/
structure Drain where
  engine : Engine
  log : Pool.Log := {}

namespace Drain

/-- Worker `k` has the receiving end of the queue. -/
def seat (d : Drain) (k : Nat) : Drain := { d with log.receiver := some k }

/-- A step while the workers of pipeline `p` are at it. -/
inductive Step (p : Nat) : Drain → Drain → Prop
  /-- An idle worker takes the receiving end of the queue. -/
  | seat {d : Drain} {pool : Pool} {k : Nat} (draining : d.engine.pool? p = some pool)
      (idle : pool.workers[k]? = some .idle) (free : d.log.receiver = none) :
    Step p d (d.seat k)
  /-- Something happens to the service, where only the worker that has the
  receiving end receives. -/
  | event {d : Drain} {pool : Pool} {ev : Engine.Event} {e' : Engine}
      (draining : d.engine.pool? p = some pool) (step : Engine.Step d.engine ev e')
      (turn : ∀ k, (d.engine.news p ev).receiver? = some k → d.log.receiver = some k) :
    Step p d ⟨e', d.log.add (d.engine.news p ev)⟩

/-- Any number of steps. -/
abbrev Reaches (p : Nat) : Drain → Drain → Prop := Relation.ReflTransGen (Step p)

/-- How many steps are left at most, calls counted as one. -/
def cost (p : Nat) (d : Drain) : Nat :=
  match d.engine.pool? p with
  | some pool => 2 * pool.cost + (if d.log.receiver = none then 1 else 0) + 1
  | none => 0

variable {p crew : Nat} {tasks : List Task} {d d' : Drain} {pool pool' : Pool}

theorem cost_of_pool (draining : d.engine.pool? p = some pool) :
    d.cost p = 2 * pool.cost + (if d.log.receiver = none then 1 else 0) + 1 := by
  simp only [cost, draining]

theorem cost_seat {k : Nat} (draining : d.engine.pool? p = some pool)
    (free : d.log.receiver = none) :
    (d.seat k).cost p < d.cost p := by
  rw [cost_of_pool draining, cost_of_pool (d := d.seat k) draining, free]
  simp only [seat, reduceCtorEq, if_false, if_true]
  omega

theorem cost_of_left (left : d.engine.pool? p = none) : d.cost p = 0 := by
  simp only [cost, left]

theorem Step.draining (step : Step p d d') : ∃ pool, d.engine.pool? p = some pool := by
  cases step with
  | seat draining => exact ⟨_, draining⟩
  | event draining => exact ⟨_, draining⟩

theorem cost_lt_of_pool {l : Pool.Log} {e' : Engine} (draining : d.engine.pool? p = some pool)
    (after : e'.pool? p = some pool') (lt : pool'.cost < pool.cost) :
    cost p ⟨e', l⟩ < d.cost p := by
  rw [cost_of_pool draining, cost_of_pool (d := ⟨e', l⟩) after]
  split <;> omega

theorem cost_lt_of_end {l : Pool.Log} {e' : Engine} (draining : d.engine.pool? p = some pool)
    (left : e'.pool? p = none) : cost p ⟨e', l⟩ < d.cost p := by
  rw [cost_of_pool draining, cost_of_left (d := ⟨e', l⟩) left]
  omega

/-- A step brings the drain further, goes on inside a call, or happens
elsewhere. -/
theorem Step.cost_lt_or (step : Step p d d') (draining : d.engine.pool? p = some pool) :
    d'.cost p < d.cost p ∨ d'.log = d.log ∧ ∃ pool', d'.engine.pool? p = some pool' ∧
      (pool' = pool ∨ pool.Within pool') := by
  cases step with
  | seat _ _ free => exact .inl (cost_seat draining free)
  | @event _ ev e' _ step =>
    obtain ⟨id, found⟩ := Engine.pool?_eq_some.1 draining
    rcases step.drains found with ⟨told, same⟩ | ⟨pool', after, moves⟩ | ⟨-, -, after⟩
    · exact .inr ⟨by rw [told]; rfl, pool, same, .inl rfl⟩
    · rcases moves.within_or_cost_lt with ⟨told, within⟩ | lt
      · exact .inr ⟨by rw [told]; rfl, pool', after, .inr within⟩
      · exact .inl (cost_lt_of_pool draining after lt)
    · exact .inl (cost_lt_of_end draining (Engine.pool?_of_sequel after))

/-- A step keeps the accounts. -/
theorem Step.accounts (step : Step p d d') (draining : d.engine.pool? p = some pool)
    (draining' : d'.engine.pool? p = some pool') (accounts : pool.Accounts tasks crew d.log) :
    pool'.Accounts tasks crew d'.log := by
  cases step with
  | seat seated idle =>
    have same : d.engine.pool? p = some pool' := draining'
    rw [draining] at seated same
    cases seated
    cases same
    refine { accounts with seated := ?_ }
    rintro _ ⟨⟩
    exact idle
  | event _ step turn =>
    obtain ⟨id, found⟩ := Engine.pool?_eq_some.1 draining
    rcases step.drains found with ⟨told, same⟩ | ⟨_, after, moves⟩ | ⟨-, -, after⟩
    · rw [same] at draining'
      cases draining'
      rw [told]
      exact accounts
    · rw [after] at draining'
      cases draining'
      exact accounts.step moves turn
    · rw [Engine.pool?_of_sequel after] at draining'
      cases draining'

/-- The accounts of a pool are kept in every run. -/
theorem Reaches.accounts {e₀ : Engine} {workers capacity : Nat}
    (begins : e₀.pool? p = some (.ofTasks workers capacity tasks)) (run : Reaches p ⟨e₀, {}⟩ d)
    (draining : d.engine.pool? p = some pool) : pool.Accounts tasks (max 1 workers) d.log := by
  induction run generalizing pool with
  | refl =>
    rw [begins] at draining
    cases draining
    exact Pool.accounts_ofTasks workers capacity tasks
  | tail _ step ih =>
    obtain ⟨before, hbefore⟩ := step.draining
    exact step.accounts hbefore draining (ih hbefore)

/-! ### The drain does not get stuck -/

/-- What is told of a task brings the drain further. -/
theorem cost_lt_of_told {ev : Engine.Event} {e' : Engine} {l : Pool.Log}
    (draining : d.engine.pool? p = some pool) (step : Engine.Step d.engine ev e')
    (told : d.engine.news p ev ≠ .quiet) : cost p ⟨e', l⟩ < d.cost p := by
  obtain ⟨id, found⟩ := Engine.pool?_eq_some.1 draining
  rcases step.drains found with ⟨quiet, -⟩ | ⟨pool', after, moves⟩ | ⟨quiet, -, -⟩
  · exact absurd quiet told
  · rcases moves.within_or_cost_lt with ⟨quiet, -⟩ | lt
    · exact absurd quiet told
    · exact cost_lt_of_pool draining after lt
  · exact absurd quiet told

/-- A move of the pipeline as a step of the drain. -/
theorem exists_told {m : Move} (draining : d.engine.pool? p = some pool)
    (acts : m.pipeline? = some p) (possible : (d.engine.step? m).isSome = true)
    (told : pool.news m ≠ .quiet)
    (turn : ∀ k, (pool.news m).receiver? = some k → d.log.receiver = some k) :
    ∃ d', Step p d d' ∧ d'.cost p < d.cost p := by
  obtain ⟨e', h⟩ := Option.isSome_iff_exists.1 possible
  have news : d.engine.news p (.move m) = pool.news m := by
    simp only [Engine.news, acts, draining, if_true]
  refine ⟨_, .event draining (.move h) (news ▸ turn), ?_⟩
  exact cost_lt_of_told draining (.move h) (news ▸ told)

/-- Until the queue is closed, the producer brings it further as soon as there is room
in it, or nobody is left to receive. -/
theorem exists_step_of_feed (draining : d.engine.pool? p = some pool) (room : 0 < pool.capacity)
    (opened : pool.closed = false) (ready : pool.queue = [] ∨ pool.isOver = true) :
    ∃ d', Step p d d' ∧ d'.cost p < d.cost p := by
  obtain ⟨id, found⟩ := Engine.pool?_eq_some.1 draining
  obtain ⟨pool', feeds⟩ := Pool.exists_feed room opened ready
  have h : d.engine.step? (.feed p) = some (d.engine.setStage p (.draining pool')) := by
    simp only [Engine.step?, Engine.feed?, found, feeds, Option.map_some]
  have news : d.engine.news p (.move (.feed p)) = .quiet := by
    simp only [Engine.news, Move.pipeline?, draining, if_true, Pool.news]
  refine ⟨_, .event draining (.move h) (fun k hk => ?_), ?_⟩
  · rw [news] at hk
    cases hk
  · exact cost_lt_of_pool draining (Engine.pool?_setStage found _) (Pool.cost_feed feeds)

/-- While somebody waits for a task, the queue can be brought further. -/
theorem exists_step_of_idle {k : Nat} (draining : d.engine.pool? p = some pool)
    (accounts : pool.Accounts tasks crew d.log) (idle : pool.workers[k]? = some .idle) :
    ∃ d', Step p d d' ∧ d'.cost p < d.cost p := by
  obtain ⟨id, found⟩ := Engine.pool?_eq_some.1 draining
  cases receiver : d.log.receiver with
  | none => exact ⟨_, .seat draining idle receiver, cost_seat draining receiver⟩
  | some j =>
    have seated := accounts.seated j receiver
    cases queue : pool.queue with
    | cons t rest =>
      refine exists_told (m := .work p j) draining rfl ?_ ?_ ?_
      · simp only [Engine.step?, Engine.work?, found, seated, Pool.receive?, queue, Option.map_some,
          Option.isSome_some]
      · simp only [Pool.news, seated, queue, ne_eq, reduceCtorEq, not_false_eq_true]
      · simp only [Pool.news, seated, queue, Pool.News.receiver?]
        exact fun k hk => receiver.trans hk
    | nil =>
      cases closed : pool.closed with
      | false => exact exists_step_of_feed draining accounts.room closed (.inl queue)
      | true =>
        refine exists_told (m := .work p j) draining rfl ?_ ?_ ?_
        · simp only [Engine.step?, Engine.work?, found, seated, Pool.receive?, queue, closed,
            if_true, Option.map_some, Option.isSome_some]
        · simp only [Pool.news, seated, queue, ne_eq, reduceCtorEq, not_false_eq_true]
        · simp only [Pool.news, seated, queue, Pool.News.receiver?]
          exact fun k hk => receiver.trans hk

/-- A worker that has something to return can return it. -/
theorem exists_step_of_returned {k : Nat} {t : Task} {part : PartStage}
    (draining : d.engine.pool? p = some pool) (at_work : pool.workers[k]? = some (.busy t part))
    (returned : part.isCall = false) : ∃ d', Step p d d' ∧ d'.cost p < d.cost p := by
  obtain ⟨id, found⟩ := Engine.pool?_eq_some.1 draining
  cases part with
  | done r =>
    have told : pool.news (.work p k) = .returned t (some r) := by simp only [Pool.news, at_work]
    refine exists_told (m := .work p k) draining rfl ?_ ?_ ?_
    · simp only [Engine.step?, Engine.work?, found, at_work, Option.isSome_some]
    · rw [told]
      rintro ⟨⟩
    · rw [told]
      rintro _ ⟨⟩
  | crashed =>
    have told : pool.news (.report p k) = .returned t none := by simp only [Pool.news, at_work]
    refine exists_told (m := .report p k) draining rfl ?_ ?_ ?_
    · simp only [Engine.step?, Engine.report?, found, at_work, Option.isSome_some]
    · rw [told]
      rintro ⟨⟩
    · rw [told]
      rintro _ ⟨⟩
  | _ => cases returned

/-- A call can go on, or return. -/
theorem exists_step_of_call {k : Nat} {t : Task} {part : PartStage}
    (draining : d.engine.pool? p = some pool) (at_work : pool.workers[k]? = some (.busy t part))
    (call : part.isCall = true) :
    ∃ d', Step p d d' ∧ (d'.cost p < d.cost p ∨
      ∃ pool', d'.engine.pool? p = some pool' ∧ pool.Within pool') := by
  obtain ⟨id, found⟩ := Engine.pool?_eq_some.1 draining
  have moves {m : Move} (acts : m.pipeline? = some p) (quiet : pool.news m = .quiet)
      (going : pool.isOver = false) (possible : (d.engine.step? m).isSome = true) :
      ∃ d', Step p d d' ∧ (d'.cost p < d.cost p ∨
        ∃ pool', d'.engine.pool? p = some pool' ∧ pool.Within pool') := by
    obtain ⟨e', h⟩ := Option.isSome_iff_exists.1 possible
    have news : d.engine.news p (.move m) = .quiet := by
      simp only [Engine.news, acts, draining, if_true, quiet]
    refine ⟨_, .event draining (.move h) (fun k hk => by rw [news] at hk; cases hk), ?_⟩
    rcases Engine.pool_step found acts h with ⟨pool', after, step⟩ | ⟨-, spent, -⟩
    · rcases step.within_or_cost_lt with ⟨-, within⟩ | lt
      · exact .inr ⟨pool', after, within⟩
      · exact .inl (cost_lt_of_pool draining after lt)
    · rw [going] at spent
      cases spent
  have going : pool.isOver = false :=
    List.all_eq_false.2 ⟨_, List.mem_of_getElem? at_work, Bool.false_ne_true⟩
  cases part with
  | checking =>
    refine moves (m := .work p k) rfl (by simp only [Pool.news, at_work]) going ?_
    simp only [Engine.step?, Engine.work?, found, at_work, Option.isSome_some]
  | moving dl =>
    refine moves (m := .reply p k .crash) rfl rfl going ?_
    simp only [Engine.step?, Engine.reply?, found, at_work, Engine.movePart, Option.map_some,
      Option.isSome_some]
  | confirming size =>
    refine moves (m := .work p k) rfl (by simp only [Pool.news, at_work]) going ?_
    simp only [Engine.step?, Engine.work?, found, at_work, Option.isSome_some]
  | _ => cases call

/-- When all workers have ended and the queue is closed, the pipeline goes on. -/
theorem exists_step_of_over (draining : d.engine.pool? p = some pool)
    (spent : pool.isOver = true) (closed : pool.closed = true) :
    ∃ d', Step p d d' ∧ d'.cost p < d.cost p := by
  obtain ⟨id, found⟩ := Engine.pool?_eq_some.1 draining
  have possible : (d.engine.step? (.advance p)).isSome = true := by
    simp only [Engine.step?, Engine.advance?, found, spent, closed, and_self, if_true,
      Option.isSome_some]
  obtain ⟨e', h⟩ := Option.isSome_iff_exists.1 possible
  have news : d.engine.news p (.move (.advance p)) = .quiet := by
    simp only [Engine.news, Move.pipeline?, draining, if_true, Pool.news]
  refine ⟨_, .event draining (.move h) (fun k hk => ?_), ?_⟩
  · rw [news] at hk
    cases hk
  · obtain ⟨_, _, e₁, stage', acted⟩ := Engine.acted rfl h
    cases found.symm.trans acted.found
    have after := acted.found_after
    cases acted.act with
    | drained => exact cost_lt_of_end draining (by rw [Engine.pool?, after])
    | gaveUp => exact cost_lt_of_end draining (by rw [Engine.pool?, after])
    | worked _ works => cases works

/-- The drain can be brought further, unless every worker that is left is inside
a call; and then one of the calls can go on. -/
theorem exists_step (draining : d.engine.pool? p = some pool)
    (accounts : pool.Accounts tasks crew d.log) :
    (∃ d', Step p d d' ∧ d'.cost p < d.cost p) ∨
      (∀ w ∈ pool.workers, w.isEnded = true ∨ w.isCall = true) ∧
        ∃ d' pool', Step p d d' ∧ d'.engine.pool? p = some pool' ∧ pool.Within pool' := by
  by_cases further : ∃ d', Step p d d' ∧ d'.cost p < d.cost p
  · exact .inl further
  have inside : ∀ w ∈ pool.workers, w.isEnded = true ∨ w.isCall = true := by
    intro w hw
    obtain ⟨k, at_work⟩ := List.getElem?_of_mem hw
    cases w with
    | idle => exact absurd (exists_step_of_idle draining accounts at_work) further
    | ended => exact .inl rfl
    | busy t part =>
      right
      by_contra returned
      exact further (exists_step_of_returned draining at_work (Bool.eq_false_iff.2 returned))
  refine .inr ⟨inside, ?_⟩
  cases spent : pool.isOver with
  | true =>
    cases closed : pool.closed with
    | false =>
      exact absurd (exists_step_of_feed draining accounts.room closed (.inr spent)) further
    | true => exact absurd (exists_step_of_over draining spent closed) further
  | false =>
    obtain ⟨w, hw, going⟩ := List.all_eq_false.1 spent
    obtain ⟨k, at_work⟩ := List.getElem?_of_mem hw
    have call := (inside w hw).resolve_left going
    cases w with
    | busy t part =>
      obtain ⟨d', step, lt | ⟨pool', after, within⟩⟩ := exists_step_of_call draining at_work call
      · exact absurd ⟨d', step, lt⟩ further
      · exact ⟨d', pool', step, after, within⟩
    | _ => cases call

/-! ### The drain comes to its end -/

/-- Worker `k` is inside a call. -/
def InCall (p : Nat) (d : Drain) (k : Nat) : Prop :=
  ∃ pool w, d.engine.pool? p = some pool ∧ pool.workers[k]? = some w ∧ w.isCall = true

/-- A step that does not bring the drain further ends no call. -/
theorem InCall.step {k : Nat} (h : InCall p d k) (step : Step p d d')
    (idles : ¬ d'.cost p < d.cost p) : InCall p d' k := by
  obtain ⟨pool, w, draining, at_work, call⟩ := h
  obtain ⟨-, pool', after, same | within⟩ := (step.cost_lt_or draining).resolve_left idles
  · exact ⟨pool', w, after, same ▸ at_work, call⟩
  · obtain ⟨w', at_work', call'⟩ := within.isCall at_work call
    exact ⟨pool', w', after, at_work', call'⟩

theorem Step.cost_le (step : Step p d d') : d'.cost p ≤ d.cost p := by
  obtain ⟨pool, draining⟩ := step.draining
  rcases step.cost_lt_or draining with lt | ⟨log, pool', after, same⟩
  · exact Nat.le_of_lt lt
  · have eq : pool'.cost = pool.cost := by
      rcases same with rfl | within
      · rfl
      · exact within.cost_eq
    rw [cost_of_pool draining, cost_of_pool after, log, eq]

/-- What can happen in an endless run: every call returns, and what can bring
the drain further is not put off for ever. -/
structure Fair (p : Nat) (f : Nat → Drain) : Prop where
  returns : ∀ n k, InCall p (f n) k → ∃ m ≥ n, ¬ InCall p (f m) k
  attentive : ∀ n, ∃ m ≥ n, (f (m + 1)).cost p < (f m).cost p ∨
    ¬ ∃ d', Step p (f m) d' ∧ d'.cost p < (f m).cost p

/-- Where the measure has come to its least value, all workers that are left are
inside calls for ever. -/
theorem not_endless {f : Nat → Drain} (steps : ∀ n, Step p (f n) (f (n + 1)))
    (accounts : ∀ n pool, (f n).engine.pool? p = some pool → pool.Accounts tasks crew (f n).log) :
    ¬ Fair p f := by
  intro fair
  have falls : Antitone fun n => (f n).cost p := antitone_nat_of_succ_le fun n => (steps n).cost_le
  let least := Function.argmin fun n => (f n).cost p
  have rest (n : Nat) (hn : least ≤ n) : ¬ (f (n + 1)).cost p < (f n).cost p := by
    have hle : (f n).cost p ≤ (f least).cost p := falls hn
    have hmin : (f least).cost p ≤ (f (n + 1)).cost p :=
      Function.argmin_le (fun n => (f n).cost p) (n + 1)
    omega
  obtain ⟨m, hm, lt | further⟩ := fair.attentive least
  · exact rest m hm lt
  obtain ⟨pool, draining⟩ := (steps m).draining
  obtain ⟨-, -, -, -, -, k, t, part, -, at_work, call, -⟩ :=
    (exists_step draining (accounts m pool draining)).resolve_left further
  have stays (n : Nat) (hn : m ≤ n) : InCall p (f n) k := by
    induction n, hn using Nat.le_induction with
    | base => exact ⟨pool, _, draining, at_work, call⟩
    | succ n hn ih => exact ih.step (steps n) (rest n (hm.trans hn))
  obtain ⟨n, hn, returned⟩ := fair.returns m k (stays m le_rfl)
  exact returned (stays n hn)

/-- The drain of a queue settles. Whatever the tasks, the number of workers and
the room in the queue, and whatever else happens to the service, at any time
until the queue is closed and the last worker has ended
(a) the tasks that were received, those in the queue and those that are not yet
queued are all tasks in their order, each received by one worker at most;
(b) a step is possible that brings the drain further, unless all workers that
are left are inside calls, and then one inside a call is possible;
(c) every step lowers the measure, or goes on inside a call, or does not concern
the drain;
(d) when the drain is over there is one exit for each worker, and the pipeline
goes on exactly if all of them have drained the queue;
(e) in that case each task was returned once, and as uploaded;
(f) no run goes on for ever in which the calls return. -/
theorem drain_settles {e₀ : Engine} {workers capacity : Nat}
    (begins : e₀.pool? p = some (.ofTasks workers capacity tasks)) (run : Reaches p ⟨e₀, {}⟩ d)
    (draining : d.engine.pool? p = some pool) :
    d.log.received.map Prod.snd ++ pool.queue ++ pool.pending = tasks ∧
    ((∃ d', Step p d d' ∧ d'.cost p < d.cost p) ∨
      (∀ w ∈ pool.workers, w.isEnded = true ∨ w.isCall = true) ∧
        ∃ d' pool', Step p d d' ∧ d'.engine.pool? p = some pool' ∧ pool.Within pool') ∧
    (∀ d', Step p d d' → d'.cost p < d.cost p ∨ d'.log = d.log ∧
      ∃ pool', d'.engine.pool? p = some pool' ∧ (pool' = pool ∨ pool.Within pool')) ∧
    (∀ d', Step p d d' → d'.engine.pool? p = none →
      pool.exits.map .ended = pool.workers ∧ pool.exits.length = max 1 workers ∧
        ∃ id, d'.engine.pipelines[p]? =
          some ⟨id, if ∀ exit ∈ pool.exits, exit = .drained then .closing else .ended (.ok ())⟩) ∧
    (pool.isOver = true → (∀ exit ∈ pool.exits, exit = .drained) →
      (d.log.returned.map Prod.fst).Perm tasks ∧ ∀ x ∈ d.log.returned, x.2.Uploaded) ∧
    ∀ f : Nat → Drain, f 0 = d → (∀ n, Step p (f n) (f (n + 1))) → ¬ Fair p f := by
  have accounts := run.accounts begins draining
  refine ⟨accounts.order, exists_step draining accounts, fun d' step => step.cost_lt_or draining,
    fun d' step left => ?_, fun spent drained => ?_, fun f first steps => ?_⟩
  · cases step with
    | seat =>
      have same : d.engine.pool? p = none := left
      rw [draining] at same
      cases same
    | event _ step =>
      obtain ⟨id, found⟩ := Engine.pool?_eq_some.1 draining
      rcases step.drains found with ⟨-, same⟩ | ⟨pool', after, -⟩ | ⟨-, spent, after⟩
      · rw [same] at left
        cases left
      · rw [after] at left
        cases left
      · have exits := Pool.map_exits spent
        refine ⟨exits, ?_, id, ?_⟩
        · rw [← accounts.crew, ← exits, List.length_map]
        · rw [after, Pool.sequel]
          exact congrArg (fun stage => some (Pipeline.mk id stage))
            (if_congr (Pool.isClean_iff spent) rfl rfl)
  · exact accounts.of_isClean (Nat.lt_of_lt_of_le Nat.one_pos (Nat.le_max_left 1 workers))
      ((Pool.isClean_iff spent).2 drained)
  · have reached (n : Nat) : Reaches p ⟨e₀, {}⟩ (f n) := by
      induction n with
      | zero => exact first ▸ run
      | succ n ih => exact ih.tail (steps n)
    exact not_endless steps fun n pool => (reached n).accounts begins

/-- Two workers, room for one of two tasks. The second worker receives the first
task as soon as it is queued. -/
theorem drain_settles_audit :
    ∃ (e₀ : Engine) (t u : Task) (d : Drain) (pool : Pool),
      e₀.pool? 0 = some (.ofTasks 2 1 [t, u]) ∧ Reaches 0 ⟨e₀, {}⟩ d ∧
      d.engine.pool? 0 = some pool ∧ d.log.received = [(1, t)] ∧ pool.queue = [] ∧
      pool.pending = [u] ∧
      d.log.received.map Prod.snd ++ pool.queue ++ pool.pending = [t, u] := by
  obtain ⟨e, -⟩ := Engine.audit_can_repeat
  let t : Task := default
  let u : Task := { t with part := 1 }
  let e₀ : Engine := { e with pipelines := [⟨Engine.auditId, .draining (.ofTasks 2 1 [t, u])⟩] }
  let e₁ := e₀.setStage 0 (.draining ⟨1, [u], [t], [.idle, .idle], false⟩)
  let e₂ := e₁.setStage 0 (.draining ⟨1, [u], [], [.idle, .busy t .checking], false⟩)
  have seated : Step 0 ⟨e₀, {}⟩ ⟨e₀, { receiver := some 1 }⟩ := .seat (k := 1) rfl rfl rfl
  have fed : Step 0 ⟨e₀, { receiver := some 1 }⟩ ⟨e₁, { receiver := some 1 }⟩ :=
    .event rfl (.move (m := .feed 0) rfl) nofun
  have received : Step 0 ⟨e₁, { receiver := some 1 }⟩ ⟨e₂, { received := [(1, t)] }⟩ :=
    .event rfl (.move (m := .work 0 1) rfl) fun _ hk => hk
  have run : Reaches 0 ⟨e₀, {}⟩ ⟨e₂, { received := [(1, t)] }⟩ :=
    ((Relation.ReflTransGen.single seated).tail fed).tail received
  exact ⟨e₀, t, u, _, _, rfl, run, rfl, rfl, rfl, rfl, (drain_settles rfl run rfl).1⟩

end Drain

end LogExport
