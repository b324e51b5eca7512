import Mathlib.Data.Prod.Lex
import Mathlib.Order.WellFounded
import LogExport.Proofs.Pipeline.Faithful

/-! A pipeline that is answered from an archive comes to its end. Until then it
can always be moved, and there is a measure that falls with every move. -/

namespace LogExport

namespace Archive

/-- How many requests the search of a task makes at most. -/
def effort (a : Archive) (t : Task) : Nat :=
  ((windows? t.start t.stop t.window).getD []).length + (a.found t).length

/-- How many moves are left at most for a worker with its task. -/
def workerCost (a : Archive) : WorkerStage → Nat
  | .idle => 1
  | .busy t .checking => a.effort t + 5
  | .busy _ (.moving d) => a.toGo d + 4
  | .busy _ (.confirming _) => 3
  | .busy _ (.done _) => 2
  | .busy _ .crashed => 2
  | .ended _ => 0

/-- The tasks that wait count as those of workers that are yet to receive them, and
the queue has to be closed. -/
def poolCost (a : Archive) (pool : Pool) : Nat :=
  (pool.pending.map fun t => a.effort t + 6).sum + (pool.queue.map fun t => a.effort t + 5).sum +
    (pool.workers.map a.workerCost).sum + if pool.closed then 0 else 1

/-- Stages come one after the other. The pool works within its stage. -/
def stageCost (a : Archive) : PipelineStage → ℕ ×ₗ ℕ
  | .opening => toLex (5, 0)
  | .draining pool => toLex (4, a.poolCost pool)
  | .closing => toLex (3, 0)
  | .listing _ _ => toLex (2, 0)
  | .finishing _ => toLex (1, 0)
  | .failing _ => toLex (1, 0)
  | .ended _ => toLex (0, 0)
  | .crashed => toLex (0, 0)

variable {a : Archive} {base : Files} {e : Engine} {p k : Nat} {s : Session} {m : Move}
  {pool pool' : Pool} {w w' : WorkerStage} {c : Change} {deed : Option Deed}
  {stage stage' : PipelineStage}

theorem stageCost_lt_of_rank {i j m n : Nat} (h : i < j) : toLex (i, m) < toLex (j, n) :=
  Prod.Lex.toLex_lt_toLex.2 (.inl h)

theorem poolCost_setWorker (at_work : pool.workers[k]? = some w) :
    a.poolCost (pool.setWorker k w') + a.workerCost w = a.poolCost pool + a.workerCost w' := by
  obtain ⟨hlt, hget⟩ := List.getElem?_eq_some_iff.1 at_work
  have before : pool.workers = pool.workers.take k ++ w :: pool.workers.drop (k + 1) := by
    rw [← hget, List.getElem_cons_drop, List.take_append_drop]
  have costs := congrArg (fun ws => (ws.map a.workerCost).sum) before
  simp only [List.map_append, List.map_cons, List.sum_append, List.sum_cons] at costs
  simp only [poolCost, Pool.setWorker, List.set_eq_take_append_cons_drop, if_pos hlt,
    List.map_append, List.map_cons, List.sum_append, List.sum_cons]
  omega

theorem poolCost_feed (feeds : pool.feed? = some pool') : a.poolCost pool' < a.poolCost pool := by
  obtain ⟨opened, ⟨t, rest, hp, -, rfl⟩ | ⟨-, rfl⟩⟩ := Pool.feed?_eq_some feeds
  · simp only [poolCost, hp, List.map_append, List.map_cons, List.map_nil, List.sum_append,
      List.sum_cons, List.sum_nil]
    omega
  · simp only [poolCost, opened, if_true, Bool.false_eq_true, if_false]
    omega

theorem poolCost_receive (idle : pool.workers[k]? = some .idle)
    (receives : pool.receive? k = some pool') : a.poolCost pool' < a.poolCost pool := by
  rcases Pool.receive?_eq_some receives with ⟨t, rest, hq, rfl⟩ | ⟨-, -, rfl⟩
  · have set := @poolCost_setWorker a k { pool with queue := rest } .idle (.busy t .checking) idle
    have queue : a.poolCost pool = a.poolCost { pool with queue := rest } + (a.effort t + 5) := by
      simp only [poolCost, hq, List.map_cons, List.sum_cons]
      omega
    simp only [workerCost] at set
    omega
  · have set := @poolCost_setWorker a k pool .idle (.ended .drained) idle
    simp only [workerCost] at set
    omega

/-- What a worker does brings it nearer to its end. -/
theorem workerCost_lt (works : WorkerStride e p k s m w c deed w') (allowed : a.Allows e m)
    (searching : ∀ t d, w = .busy t (.moving d) → e.search? p k = some d ∧ 0 < d.limit)
    (limit : 0 < e.limitFor s) : a.workerCost w' < a.workerCost w := by
  cases works with
  | begun begins =>
    have toGo := (follows_begin (a := a) limit begins).2
    simp only [workerCost, effort, toGo]
    omega
  | @page t d r events asked =>
    obtain ⟨search, limit⟩ := searching t d rfl
    obtain rfl := allowed d r search asked
    have := toGo_take (a := a) asked limit
    simp only [workerCost]
    omega
  | _ => simp only [workerCost]; omega

/-- The measure falls with every stride. -/
theorem stageCost_lt {stopping : Bool} {files : Files}
    (stride : PipelineStride e p s m stage c deed stage') (allowed : a.Allows e m)
    (found : e.pipelines[p]? = some ⟨s.id, stage⟩) (pages : 0 < s.batchSize)
    (faithful : stage.Faithful a base stopping s files) :
    a.stageCost stage' < a.stageCost stage := by
  cases stride with
  | fed feeds => exact Prod.Lex.toLex_lt_toLex.2 (.inr ⟨rfl, poolCost_feed feeds⟩)
  | received idle receives =>
    exact Prod.Lex.toLex_lt_toLex.2 (.inr ⟨rfl, poolCost_receive idle receives⟩)
  | @worked m pool k w w' c deed at_work works =>
    have limit : 0 < e.limitFor s := by
      rw [Engine.limitFor, if_neg pages.ne']
      exact pages
    have cost := workerCost_lt works allowed (fun t d hw => ?_) limit
    · have set := @poolCost_setWorker a k pool w w' at_work
      exact Prod.Lex.toLex_lt_toLex.2 (.inr ⟨rfl, by dsimp only; omega⟩)
    · subst hw
      refine ⟨by simp only [Engine.search?, found, at_work], ?_⟩
      cases faithful.2.each.workers _ (List.mem_of_getElem? at_work) with
      | moving _ follows => exact follows.limit
  | @unopened stage' _ ended =>
    cases stage' with
    | ended => exact stageCost_lt_of_rank (by decide)
    | crashed => exact stageCost_lt_of_rank (by decide)
    | _ => cases ended
  | _ => exact stageCost_lt_of_rank (by decide)

end Archive

namespace Engine

variable {a : Archive} {e : Engine} {p k : Nat} {id : String} {pool : Pool} {w : WorkerStage}
  {stage : PipelineStage}

theorem exists_feed_move {pool' : Pool} (found : e.pipelines[p]? = some ⟨id, .draining pool⟩)
    (feeds : pool.feed? = some pool') :
    ∃ m, m.pipeline? = some p ∧ a.Allows e m ∧ (e.step? m).isSome := by
  refine ⟨.feed p, rfl, trivial, ?_⟩
  simp only [step?, feed?, found, feeds, Option.map_some, Option.isSome_some]

/-- A worker that has not ended can go on, or is waiting for a task to be fed. -/
theorem exists_move_of_worker (found : e.pipelines[p]? = some ⟨id, .draining pool⟩)
    (at_work : pool.workers[k]? = some w) (going : w.isEnded = false) (room : 0 < pool.capacity) :
    ∃ m, m.pipeline? = some p ∧ a.Allows e m ∧ (e.step? m).isSome := by
  cases w with
  | ended => cases going
  | idle =>
    cases queue : pool.queue with
    | cons t rest =>
      refine ⟨.work p k, rfl, trivial, ?_⟩
      simp only [step?, work?, found, at_work, Pool.receive?, queue, Option.map_some,
        Option.isSome_some]
    | nil =>
      cases closed : pool.closed with
      | true =>
        refine ⟨.work p k, rfl, trivial, ?_⟩
        simp only [step?, work?, found, at_work, Pool.receive?, queue, closed, if_true,
          Option.map_some, Option.isSome_some]
      | false =>
        obtain ⟨pool', feeds⟩ := Pool.exists_feed room closed (.inl queue)
        exact exists_feed_move found feeds
  | busy t part =>
    cases part with
    | moving d =>
      have search : e.search? p k = some d := by simp only [search?, found, at_work]
      cases done : d.isDone with
      | true =>
        refine ⟨.reply p k .stored, rfl, trivial, ?_⟩
        simp only [step?, reply?, found, at_work, movePart, done, if_true, Option.map_some,
          Option.isSome_some]
      | false =>
        obtain ⟨r, asked⟩ := Download.exists_request done
        refine ⟨.reply p k (.page (.ok (a.page r))), rfl, fun d' r' search' asked' => ?_, ?_⟩
        · rw [search] at search'
          cases search'
          rw [asked] at asked'
          cases asked'
          rfl
        · simp only [step?, reply?, found, at_work, movePart, done, Bool.false_eq_true, if_false,
            Option.map_some, Option.isSome_some]
    | crashed =>
      refine ⟨.report p k, rfl, trivial, ?_⟩
      simp only [step?, report?, found, at_work, Option.isSome_some]
    | _ =>
      refine ⟨.work p k, rfl, trivial, ?_⟩
      simp only [step?, work?, found, at_work, Option.isSome_some]

/-- A pipeline that has not ended can be moved. -/
theorem exists_move (found : e.pipelines[p]? = some ⟨id, stage⟩) (going : stage.isEnded = false)
    (room : ∀ pool, stage = .draining pool → 0 < pool.capacity) :
    ∃ m, m.pipeline? = some p ∧ a.Allows e m ∧ (e.step? m).isSome := by
  cases stage with
  | ended => cases going
  | crashed => cases going
  | listing s m =>
    refine ⟨.manifest p none, rfl, rfl, ?_⟩
    simp only [step?, listed?, found, Option.isSome_some]
  | draining pool =>
    cases spent : pool.isOver with
    | true =>
      cases closed : pool.closed with
      | true =>
        refine ⟨.advance p, rfl, trivial, ?_⟩
        simp only [step?, advance?, found, spent, closed, and_self, if_true, Option.isSome_some]
      | false =>
        obtain ⟨pool', feeds⟩ := Pool.exists_feed (room pool rfl) closed (.inr spent)
        exact exists_feed_move found feeds
    | false =>
      obtain ⟨w, hw, going⟩ := List.all_eq_false.1 spent
      obtain ⟨k, at_work⟩ := List.getElem?_of_mem hw
      exact exists_move_of_worker found at_work (Bool.eq_false_iff.2 going) (room pool rfl)
  | _ =>
    refine ⟨.advance p, rfl, trivial, ?_⟩
    simp only [step?, advance?, found, Option.isSome_some]

end Engine

end LogExport
