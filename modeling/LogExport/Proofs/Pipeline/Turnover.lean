import LogExport.Proofs.Pipeline.Progress

/-! The turnover of a pool: how tasks pass from the queue through the hands of
the workers. Every step of a pool is a case of its own, with what it tells of a
task. What happens to a part between its receipt and its return is a call here,
of which only the end matters. -/

namespace LogExport

/-- What became of a task: its result, or none if the worker died over it. -/
abbrev Verdict := Option (Except Error PartOutcome)

def Verdict.Uploaded (v : Verdict) : Prop := ∃ size, v = some (.ok (.uploaded size))

/-- The call for the part has not returned yet. -/
def PartStage.isCall : PartStage → Bool
  | done _ => false
  | crashed => false
  | _ => true

namespace WorkerStage

/-- The worker is inside the call for its part. -/
def isCall : WorkerStage → Bool
  | busy _ part => part.isCall
  | _ => false

/-- The task that a worker has received and not yet returned. -/
def inHand? : WorkerStage → Option Task
  | busy t _ => some t
  | _ => none

def exit? : WorkerStage → Option WorkerExit
  | ended exit => some exit
  | _ => none

/-- How many steps are left at most for a worker with its task, the whole call
counted as one. -/
def cost : WorkerStage → Nat
  | idle => 1
  | busy _ part => if part.isCall then 3 else 2
  | ended _ => 0

theorem eq_ended_of_isEnded {w : WorkerStage} (h : w.isEnded = true) : ∃ exit, w = .ended exit := by
  cases w with
  | ended exit => exact ⟨exit, rfl⟩
  | _ => cases h

end WorkerStage

namespace Pool

/-- What a step of a pool tells. -/
inductive News where
  | quiet
  | received (k : Nat) (t : Task)
  /-- A worker has found that no task will come. -/
  | drained (k : Nat)
  | returned (t : Task) (v : Verdict)

/-- The worker that uses the receiving end of the queue. -/
def News.receiver? : News → Option Nat
  | received k _ => some k
  | drained k => some k
  | _ => none

/-- The steps of a pool. -/
inductive Step (pool : Pool) : News → Pool → Prop
  | fed {pool' : Pool} (feeds : pool.feed? = some pool') : Step pool .quiet pool'
  | received {k : Nat} {t : Task} {rest : List Task} (idle : pool.workers[k]? = some .idle)
      (queue : pool.queue = t :: rest) :
    Step pool (.received k t) ({ pool with queue := rest }.setWorker k (.busy t .checking))
  | drained {k : Nat} (idle : pool.workers[k]? = some .idle) (queue : pool.queue = [])
      (closed : pool.closed = true) :
    Step pool (.drained k) (pool.setWorker k (.ended .drained))
  | called {k : Nat} {t : Task} {part part' : PartStage}
      (at_work : pool.workers[k]? = some (.busy t part)) (call : part.isCall = true) :
    Step pool .quiet (pool.setWorker k (.busy t part'))
  | uploaded {k : Nat} {t : Task} {size : Sizes}
      (at_work : pool.workers[k]? = some (.busy t (.done (.ok (.uploaded size))))) :
    Step pool (.returned t (some (.ok (.uploaded size)))) (pool.setWorker k .idle)
  | left {k : Nat} {t : Task} {r : Except Error PartOutcome} {exit : WorkerExit}
      (at_work : pool.workers[k]? = some (.busy t (.done r))) (early : exit ≠ .drained) :
    Step pool (.returned t (some r)) (pool.setWorker k (.ended exit))
  | died {k : Nat} {t : Task} {exit : WorkerExit}
      (at_work : pool.workers[k]? = some (.busy t .crashed)) (early : exit ≠ .drained) :
    Step pool (.returned t none) (pool.setWorker k (.ended exit))

/-- One worker goes on inside its call. -/
def Within (pool pool' : Pool) : Prop :=
  ∃ k t part part', pool.workers[k]? = some (.busy t part) ∧ part.isCall = true ∧
    part'.isCall = true ∧ pool' = pool.setWorker k (.busy t part')

/-- How many steps are left at most, calls counted as one. -/
def cost (pool : Pool) : Nat :=
  4 * pool.pending.length + 3 * pool.queue.length + (pool.workers.map WorkerStage.cost).sum +
    if pool.closed then 0 else 1

/-- How all workers ended, as far as they did. -/
def exits (pool : Pool) : List WorkerExit := pool.workers.filterMap WorkerStage.exit?

section Workers

variable {pool pool' : Pool} {k : Nat} {w w' u : WorkerStage} {news : News}

/-- One worker changes between others that stay as they are. -/
theorem exists_others (at_work : pool.workers[k]? = some w) :
    ∃ before after, pool.workers = before ++ w :: after ∧
      ∀ w', (pool.setWorker k w').workers = before ++ w' :: after := by
  obtain ⟨hlt, hget⟩ := List.getElem?_eq_some_iff.1 at_work
  refine ⟨pool.workers.take k, pool.workers.drop (k + 1), ?_, fun w' => ?_⟩
  · rw [← hget, List.getElem_cons_drop, List.take_append_drop]
  · rw [setWorker, List.set_eq_take_append_cons_drop, if_pos hlt]

theorem mem_setWorker (at_work : pool.workers[k]? = some w) (hu : u ∈ pool.workers) (hne : u ≠ w) :
    u ∈ (pool.setWorker k w').workers := by
  obtain ⟨before, after, split, set⟩ := exists_others at_work
  rw [set]
  rw [split] at hu
  rcases List.mem_append.1 hu with hu | hu
  · exact List.mem_append_left _ hu
  · refine List.mem_append_right _ (List.mem_cons_of_mem _ ?_)
    exact (List.mem_cons.1 hu).resolve_left hne

/-- Another worker is found where it was. -/
theorem getElem?_setWorker {j : Nat} (h : k ≠ j) :
    (pool.setWorker k w').workers[j]? = pool.workers[j]? :=
  List.getElem?_set_ne h

theorem cost_setWorker (at_work : pool.workers[k]? = some w) (w' : WorkerStage) :
    (pool.setWorker k w').cost + w.cost = pool.cost + w'.cost := by
  obtain ⟨before, after, split, set⟩ := exists_others at_work
  have closed : (pool.setWorker k w').closed = pool.closed := rfl
  rw [cost, cost, set, split, closed]
  simp only [setWorker, List.map_append, List.map_cons, List.sum_append, List.sum_cons]
  omega

theorem cost_feed (feeds : pool.feed? = some pool') : pool'.cost < pool.cost := by
  obtain ⟨opened, ⟨t, rest, hp, -, rfl⟩ | ⟨-, rfl⟩⟩ := feed?_eq_some feeds
  · simp only [cost, hp, opened, List.length_append, List.length_cons, List.length_nil]
    omega
  · simp only [cost, opened, Bool.false_eq_true, if_true, if_false]
    omega

theorem isOver_eq_false (at_work : pool.workers[k]? = some w) (going : w.isEnded = false) :
    pool.isOver = false :=
  List.all_eq_false.2 ⟨w, List.mem_of_getElem? at_work, Bool.eq_false_iff.1 going⟩

/-- A step is one inside a call, or brings the pool nearer to its end. -/
theorem Step.within_or_cost_lt (step : pool.Step news pool') :
    (news = .quiet ∧ pool.Within pool') ∨ pool'.cost < pool.cost := by
  cases step with
  | fed feeds => exact .inr (cost_feed feeds)
  | @received k t rest idle queue =>
    right
    have set := @cost_setWorker { pool with queue := rest } k _ idle (.busy t .checking)
    have shorter : pool.cost = cost { pool with queue := rest } + 3 := by
      simp only [cost, queue, List.length_cons]
      omega
    simp only [WorkerStage.cost, PartStage.isCall, if_true] at set
    omega
  | @called k t part part' at_work call =>
    cases call' : part'.isCall with
    | true => exact .inl ⟨rfl, k, t, part, part', at_work, call, call', rfl⟩
    | false =>
      right
      have set := cost_setWorker at_work (.busy t part')
      simp only [WorkerStage.cost, call, call', Bool.false_eq_true, if_true, if_false] at set
      omega
  | drained idle =>
    right
    have set := cost_setWorker idle (.ended .drained)
    simp only [WorkerStage.cost] at set
    omega
  | uploaded at_work =>
    right
    have set := cost_setWorker at_work .idle
    simp only [WorkerStage.cost, PartStage.isCall, Bool.false_eq_true, if_false] at set
    omega
  | @left _ _ _ exit at_work =>
    right
    have set := cost_setWorker at_work (.ended exit)
    simp only [WorkerStage.cost, PartStage.isCall, Bool.false_eq_true, if_false] at set
    omega
  | @died _ _ exit at_work =>
    right
    have set := cost_setWorker at_work (.ended exit)
    simp only [WorkerStage.cost, PartStage.isCall, Bool.false_eq_true, if_false] at set
    omega

/-- A worker that goes on inside its call does not bring the pool further. -/
theorem Within.cost_eq (h : pool.Within pool') : pool'.cost = pool.cost := by
  obtain ⟨k, t, part, part', at_work, call, call', rfl⟩ := h
  have set := cost_setWorker at_work (.busy t part')
  simp only [WorkerStage.cost, call, call', if_true] at set
  omega

theorem Within.isCall (h : pool.Within pool') {j : Nat} (at_work : pool.workers[j]? = some w)
    (call : w.isCall = true) : ∃ w', pool'.workers[j]? = some w' ∧ w'.isCall = true := by
  obtain ⟨k, t, part, part', worker, -, call', rfl⟩ := h
  by_cases hj : k = j
  · obtain ⟨hlt, -⟩ := List.getElem?_eq_some_iff.1 worker
    subst hj
    exact ⟨.busy t part', List.getElem?_set_self hlt, call'⟩
  · exact ⟨w, (getElem?_setWorker hj).trans at_work, call⟩

end Workers

/-! ### What was told adds up -/

/-- What was told so far, oldest first. -/
structure Log where
  /-- The worker that has the receiving end of the queue. -/
  receiver : Option Nat := none
  received : List (Nat × Task) := []
  returned : List (Task × Verdict) := []

/-- The log with more news. Whoever has received lets go of the receiving end. -/
def Log.add (l : Log) : News → Log
  | .quiet => l
  | .received k t => { l with receiver := none, received := l.received ++ [(k, t)] }
  | .drained _ => { l with receiver := none }
  | .returned t v => { l with returned := l.returned ++ [(t, v)] }

/-- The tasks of a pool that was given `tasks` are where they have to be. -/
structure Accounts (tasks : List Task) (crew : Nat) (l : Log) (pool : Pool) : Prop where
  room : 0 < pool.capacity
  crew : pool.workers.length = crew
  seated : ∀ k, l.receiver = some k → pool.workers[k]? = some .idle
  order : l.received.map Prod.snd ++ pool.queue ++ pool.pending = tasks
  inHand : (l.returned.map Prod.fst ++ pool.workers.filterMap WorkerStage.inHand?).Perm
    (l.received.map Prod.snd)
  closed : pool.closed = true → pool.pending = [] ∨ pool.isOver = true
  drained : .ended .drained ∈ pool.workers → pool.queue = [] ∧ pool.pending = []
  early : ∀ x ∈ l.returned, ¬ x.2.Uploaded → ∃ exit ≠ WorkerExit.drained, .ended exit ∈ pool.workers

theorem accounts_ofTasks (workers capacity : Nat) (tasks : List Task) :
    (ofTasks workers capacity tasks).Accounts tasks (max 1 workers) {} := by
  have idle {w : WorkerStage} (h : w ∈ (ofTasks workers capacity tasks).workers) : w = .idle :=
    List.eq_of_mem_replicate h
  refine
    { room := Nat.lt_of_lt_of_le Nat.one_pos (Nat.le_max_left 1 capacity)
      crew := List.length_replicate
      seated := fun _ h => (by cases h)
      order := rfl
      inHand := ?_
      closed := nofun
      drained := fun h => (by cases idle h)
      early := fun _ h => (by cases h) }
  have none : (ofTasks workers capacity tasks).workers.filterMap WorkerStage.inHand? = [] :=
    List.filterMap_eq_nil_iff.2 fun w hw => by rw [idle hw]; rfl
  rw [none]
  exact .nil

namespace Accounts

variable {tasks : List Task} {crew k : Nat} {l : Log} {pool pool' : Pool} {w w' : WorkerStage}
  {news : News}

theorem feed (h : pool.Accounts tasks crew l) (feeds : pool.feed? = some pool') :
    pool'.Accounts tasks crew l := by
  obtain ⟨opened, ⟨t, rest, hp, -, rfl⟩ | ⟨ends, rfl⟩⟩ := feed?_eq_some feeds
  · refine { h with order := ?_, closed := fun hc => ?_, drained := fun hw => ?_ }
    · rw [← h.order, hp]
      simp only [List.append_assoc, List.singleton_append]
    · cases opened.symm.trans hc
    · rw [(h.drained hw).2] at hp
      cases hp
  · exact { h with closed := fun _ => ends }

/-- While a worker is at work, the queue is closed only after the last task. -/
theorem pending_of_closed (h : pool.Accounts tasks crew l) (at_work : pool.workers[k]? = some w)
    (going : w.isEnded = false) (closed : pool.closed = true) : pool.pending = [] := by
  refine (h.closed closed).resolve_right fun spent => ?_
  rw [isOver_eq_false at_work going] at spent
  cases spent

/-- An idle worker takes the oldest task. -/
theorem receive {t : Task} {rest : List Task} (h : pool.Accounts tasks crew l)
    (idle : pool.workers[k]? = some .idle) (queue : pool.queue = t :: rest) :
    ({ pool with queue := rest }.setWorker k (.busy t .checking)).Accounts tasks crew
      (l.add (.received k t)) := by
  refine
    { room := h.room
      crew := List.length_set.trans h.crew
      seated := fun _ hr => (by cases hr)
      order := ?_
      inHand := ?_
      closed := fun hc => .inl (h.pending_of_closed idle rfl hc)
      drained := fun hw => ?_
      early := fun x hx bad => ?_ }
  · rw [← h.order, queue]
    simp only [Log.add, Pool.setWorker, List.map_append, List.map_cons, List.map_nil,
      List.append_assoc, List.cons_append, List.nil_append]
  · obtain ⟨before, after, split, set⟩ := @exists_others { pool with queue := rest } k .idle idle
    have perm := h.inHand
    rw [show pool.workers = before ++ .idle :: after from split] at perm
    rw [set]
    simp only [Log.add, List.map_append, List.map_cons, List.map_nil, List.filterMap_append,
      List.filterMap_cons, WorkerStage.inHand?] at perm ⊢
    rw [← List.append_assoc] at perm ⊢
    exact List.perm_middle.trans ((perm.cons t).trans (List.perm_append_singleton t _).symm)
  · rcases List.mem_or_eq_of_mem_set hw with hw | hw
    · rw [(h.drained hw).1] at queue
      cases queue
    · cases hw
  · obtain ⟨exit, hexit, hmem⟩ := h.early x hx bad
    exact ⟨exit, hexit, @mem_setWorker { pool with queue := rest } _ _ _ _ idle hmem nofun⟩

/-- A worker changes and keeps the task that it has, if it has one. -/
theorem setWorker (h : pool.Accounts tasks crew l) (at_work : pool.workers[k]? = some w)
    (going : w.isEnded = false) (kept : w'.inHand? = w.inHand?)
    (seated : l.receiver ≠ some k)
    (drained : w' = .ended .drained → pool.queue = [] ∧ pool.pending = []) :
    (pool.setWorker k w').Accounts tasks crew l := by
  refine
    { room := h.room
      crew := List.length_set.trans h.crew
      seated := fun j hj => ?_
      order := h.order
      inHand := ?_
      closed := fun hc => .inl (h.pending_of_closed at_work going hc)
      drained := fun hw => ?_
      early := fun x hx bad => ?_ }
  · have hne : k ≠ j := fun he => seated (he ▸ hj)
    exact (getElem?_setWorker hne).trans (h.seated j hj)
  · obtain ⟨before, after, split, set⟩ := exists_others at_work
    have perm := h.inHand
    rw [split, List.filterMap_append, List.filterMap_cons, ← kept] at perm
    rw [set, List.filterMap_append, List.filterMap_cons]
    exact perm
  · rcases List.mem_or_eq_of_mem_set hw with hw | hw
    · exact h.drained hw
    · exact drained hw.symm
  · obtain ⟨exit, hexit, hmem⟩ := h.early x hx bad
    refine ⟨exit, hexit, mem_setWorker at_work hmem ?_⟩
    rintro rfl
    cases going

/-- A worker returns its task. If the part is not uploaded, the worker leaves
for good. -/
theorem giveBack {t : Task} {part : PartStage} {v : Verdict} (h : pool.Accounts tasks crew l)
    (at_work : pool.workers[k]? = some (.busy t part)) (empty : w'.inHand? = none)
    (undrained : w' ≠ .ended .drained)
    (bad : ¬ v.Uploaded → ∃ exit ≠ WorkerExit.drained, w' = .ended exit) :
    (pool.setWorker k w').Accounts tasks crew (l.add (.returned t v)) := by
  have seated {j : Nat} (hj : l.receiver = some j) : k ≠ j := by
    rintro rfl
    rw [h.seated k hj] at at_work
    cases at_work
  obtain ⟨hlt, -⟩ := List.getElem?_eq_some_iff.1 at_work
  refine
    { room := h.room
      crew := List.length_set.trans h.crew
      seated := fun j hj => (getElem?_setWorker (seated hj)).trans (h.seated j hj)
      order := h.order
      inHand := ?_
      closed := fun hc => .inl (h.pending_of_closed at_work rfl hc)
      drained := fun hw => ?_
      early := fun x hx hbad => ?_ }
  · obtain ⟨before, after, split, set⟩ := exists_others at_work
    have perm := h.inHand
    rw [split, List.filterMap_append, List.filterMap_cons] at perm
    rw [set, List.filterMap_append, List.filterMap_cons, empty]
    refine List.Perm.trans ?_ perm
    simp only [Log.add, List.map_append, List.map_cons, List.map_nil, List.append_assoc,
      List.singleton_append]
    exact List.Perm.append_left _ List.perm_middle.symm
  · rcases List.mem_or_eq_of_mem_set hw with hw | hw
    · exact h.drained hw
    · exact absurd hw.symm undrained
  · rcases List.mem_append.1 hx with hx | hx
    · obtain ⟨exit, hexit, hmem⟩ := h.early x hx hbad
      exact ⟨exit, hexit, mem_setWorker at_work hmem nofun⟩
    · obtain rfl := List.mem_singleton.1 hx
      obtain ⟨exit, hexit, rfl⟩ := bad hbad
      exact ⟨exit, hexit, List.mem_set hlt _⟩

/-- Every step keeps the accounts, as long as only the worker that has the
receiving end receives. -/
theorem step (h : pool.Accounts tasks crew l) (step : pool.Step news pool')
    (turn : ∀ k, news.receiver? = some k → l.receiver = some k) :
    pool'.Accounts tasks crew (l.add news) := by
  cases step with
  | fed feeds => exact h.feed feeds
  | received idle queue => exact h.receive idle queue
  | drained idle queue closed =>
    have pending := h.pending_of_closed idle rfl closed
    have free : Pool.Accounts tasks crew { l with receiver := none } pool :=
      { h with seated := fun _ hr => (by cases hr) }
    exact free.setWorker idle rfl rfl nofun fun _ => ⟨queue, pending⟩
  | @called k t part part' at_work call =>
    refine h.setWorker at_work rfl rfl (fun hk => ?_) nofun
    rw [h.seated k hk] at at_work
    cases at_work
  | uploaded at_work => exact h.giveBack at_work rfl nofun fun bad => absurd ⟨_, rfl⟩ bad
  | left at_work early =>
    refine h.giveBack at_work rfl (fun he => early ?_) fun _ => ⟨_, early, rfl⟩
    cases he
    rfl
  | died at_work early =>
    refine h.giveBack at_work rfl (fun he => early ?_) fun _ => ⟨_, early, rfl⟩
    cases he
    rfl

/-- When all workers have drained the queue, every task has come back, and come
back uploaded. -/
theorem of_isClean (h : pool.Accounts tasks crew l) (manned : 0 < crew)
    (clean : pool.isClean = true) :
    (l.returned.map Prod.fst).Perm tasks ∧ ∀ x ∈ l.returned, x.2.Uploaded := by
  have all : ∀ w ∈ pool.workers, w = .ended .drained := by
    intro w hw
    have hc := List.all_eq_true.1 clean w hw
    split at hc
    · rfl
    · cases hc
  obtain ⟨w, hw⟩ := List.exists_mem_of_length_pos (h.crew ▸ manned)
  obtain ⟨queue, pending⟩ := h.drained (all w hw ▸ hw)
  have empty : pool.workers.filterMap WorkerStage.inHand? = [] :=
    List.filterMap_eq_nil_iff.2 fun w hw => by rw [all w hw]; rfl
  constructor
  · have order := h.order
    have perm := h.inHand
    rw [queue, pending, List.append_nil, List.append_nil] at order
    rwa [empty, List.append_nil, order] at perm
  · intro x hx
    by_contra bad
    obtain ⟨exit, early, hmem⟩ := h.early x hx bad
    cases all _ hmem
    exact early rfl

end Accounts

/-- When all workers have ended, the exits tell all there is to know of them. -/
theorem map_exits {pool : Pool} (spent : pool.isOver = true) :
    pool.exits.map .ended = pool.workers := by
  have ended := List.all_eq_true.1 spent
  unfold exits
  generalize pool.workers = ws at ended
  induction ws with
  | nil => rfl
  | cons w ws ih =>
    obtain ⟨exit, rfl⟩ := WorkerStage.eq_ended_of_isEnded (ended w List.mem_cons_self)
    have rest := ih fun u hu => ended u (List.mem_cons_of_mem _ hu)
    simp only [List.filterMap_cons, WorkerStage.exit?, List.map_cons, rest]

/-- The pool is clean if every exit says that the queue was drained. -/
theorem isClean_iff {pool : Pool} (spent : pool.isOver = true) :
    pool.isClean = true ↔ ∀ exit ∈ pool.exits, exit = .drained := by
  rw [isClean, ← map_exits spent, List.all_map, List.all_eq_true]
  refine forall₂_congr fun exit _ => ?_
  cases exit <;> simp

end Pool

end LogExport
