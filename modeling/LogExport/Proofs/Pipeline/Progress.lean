import LogExport.Proofs.Pipeline.Steps
import LogExport.Proofs.Session.Names
import LogExport.Proofs.Session.Tasks

/-! How far a pipeline has come, told by the stored session and the deeds so
far. What is said here of a session stays true while the session grows, so it
outlives the steps of other pipelines and of other services. -/

namespace LogExport

namespace Session

/-- A later state of the same session: no flag is lost, and what was fixed at
the start is the same. -/
structure Grown (s s' : Session) : Prop where
  id : s'.id = s.id
  query : s'.query = s.query
  start : s'.start = s.start
  stop : s'.stop = s.stop
  window : s'.window = s.window
  partLength : s'.partLength = s.partLength
  pathRoot : s'.pathRoot = s.pathRoot
  partCount : s'.partCount = s.partCount
  flags : ∀ i : Nat, s.uploaded[i]? = some true → s'.uploaded[i]? = some true

theorem Grown.refl (s : Session) : s.Grown s := ⟨rfl, rfl, rfl, rfl, rfl, rfl, rfl, rfl, fun _ h => h⟩

theorem Grown.trans {s t u : Session} (h : s.Grown t) (g : t.Grown u) : s.Grown u :=
  { id := g.id.trans h.id
    query := g.query.trans h.query
    start := g.start.trans h.start
    stop := g.stop.trans h.stop
    window := g.window.trans h.window
    partLength := g.partLength.trans h.partLength
    pathRoot := g.pathRoot.trans h.pathRoot
    partCount := g.partCount.trans h.partCount
    flags := fun i hi => g.flags i (h.flags i hi) }

theorem grown_confirm (s : Session) (i : Nat) (size : Sizes) : s.Grown (s.confirm i size) :=
  { Grown.refl s with
    partCount := partCount_confirm s i size
    flags := fun k hk => by
      simp only [confirm, List.getElem?_set]
      obtain ⟨hlt, -⟩ := List.getElem?_eq_some_iff.1 hk
      split
      · next he => rw [if_pos (he ▸ hlt)]
      · exact hk }

theorem grown_ended (s : Session) (status : Status) (error : Option String) (now : Instant) :
    s.Grown (s.ended status error now) :=
  { Grown.refl s with }

/-- Every part is uploaded. -/
def Full (s : Session) : Prop := ∀ flag ∈ s.uploaded, flag = true

/-- A task for one of the parts of a session. -/
def Owns (s : Session) (t : Task) : Prop := ∃ ps p, s.LaidOut ps ∧ p ∈ ps ∧ t = s.taskOf p

end Session

/-! ### Deeds -/

/-- A window was searched to its last page. -/
def Searched (deeds : List Deed) (id : String) (w : Instant × Instant) : Prop :=
  ∃ r events, Deed.page r events ∈ deeds ∧ r.sessionId = id ∧ (r.start, r.stop) = w ∧
    events.length < r.limit

/-- All windows of a task were searched, and its file was stored. -/
structure Delivered (deeds : List Deed) (id : String) (t : Task) : Prop where
  stored : ∃ content, Deed.put t.path content ∈ deeds
  searched : ∃ ws, windows? t.start t.stop t.window = some ws ∧ ∀ w ∈ ws, Searched deeds id w

/-- The links to the parts, each on a line of its own. -/
def linkList (base root : String) (ps : List Partition) : String :=
  String.join (ps.map fun p => Files.linkUnder base (p.pathUnder root) ++ "\n")

theorem Searched.mono {deeds deeds' : List Deed} {id : String} {w : Instant × Instant}
    (hd : deeds ⊆ deeds') (h : Searched deeds id w) : Searched deeds' id w := by
  obtain ⟨r, events, hr, h⟩ := h
  exact ⟨r, events, hd hr, h⟩

theorem Delivered.mono {deeds deeds' : List Deed} {id : String} {t : Task} (hd : deeds ⊆ deeds')
    (h : Delivered deeds id t) : Delivered deeds' id t := by
  obtain ⟨⟨content, hc⟩, ws, hws, hs⟩ := h
  exact ⟨⟨content, hd hc⟩, ws, hws, fun w hw => (hs w hw).mono hd⟩

namespace Session

/-- One part was delivered. -/
def PartDone (s : Session) (deeds : List Deed) (i : Nat) : Prop :=
  ∃ ps p, s.LaidOut ps ∧ p ∈ ps ∧ p.index = i ∧ Delivered deeds s.id (s.taskOf p)

/-- Every part is uploaded, and so is the list of their links. -/
structure Complete (s : Session) (deeds : List Deed) : Prop where
  full : s.Full
  listed : ∃ ps base, s.LaidOut ps ∧
    Deed.put s.manifestPath (.ofBytes (Utf8.encode (linkList base s.pathRoot ps))) ∈ deeds

section Growth

variable {s s' : Session} {deeds deeds' : List Deed}

theorem Grown.taskOf (h : s.Grown s') : s'.taskOf = s.taskOf := by
  funext p
  simp only [Session.taskOf, h.pathRoot, h.query, h.window]

theorem Grown.parts?_eq (h : s.Grown s') : s'.parts? = s.parts? := by
  rw [parts?, parts?, h.start, h.stop, h.partLength]

theorem Grown.laidOut_iff (h : s.Grown s') {ps : List Partition} :
    s'.LaidOut ps ↔ s.LaidOut ps :=
  ⟨fun hl => ⟨h.parts?_eq.symm.trans hl.parts, hl.length.trans h.partCount⟩,
    fun hl => ⟨h.parts?_eq.trans hl.parts, hl.length.trans h.partCount.symm⟩⟩

theorem Grown.laidOut (h : s.Grown s') {ps : List Partition} (hl : s.LaidOut ps) :
    s'.LaidOut ps := h.laidOut_iff.2 hl

theorem Grown.owns (h : s.Grown s') {t : Task} (ho : s.Owns t) : s'.Owns t := by
  obtain ⟨ps, p, hl, hp, rfl⟩ := ho
  exact ⟨ps, p, h.laidOut hl, hp, by rw [h.taskOf]⟩

theorem Grown.full (h : s.Grown s') (hf : s.Full) : s'.Full := by
  intro flag hflag
  obtain ⟨i, hi⟩ := List.getElem?_of_mem hflag
  obtain ⟨hlt, -⟩ := List.getElem?_eq_some_iff.1 hi
  have hlt' : i < s.uploaded.length := Nat.lt_of_lt_of_eq hlt h.partCount
  have hs := h.flags i (by rw [List.getElem?_eq_getElem hlt', hf _ (List.getElem_mem hlt')])
  rw [hi] at hs
  exact Option.some.inj hs

theorem PartDone.mono (h : s.Grown s') (hd : deeds ⊆ deeds') {i : Nat} (hp : s.PartDone deeds i) :
    s'.PartDone deeds' i := by
  obtain ⟨ps, p, hl, hmem, hi, hdel⟩ := hp
  refine ⟨ps, p, h.laidOut hl, hmem, hi, ?_⟩
  rw [h.taskOf, h.id]
  exact hdel.mono hd

theorem Complete.mono (h : s.Grown s') (hd : deeds ⊆ deeds') (hc : s.Complete deeds) :
    s'.Complete deeds' := by
  obtain ⟨hf, ps, base, hl, hput⟩ := hc
  refine ⟨h.full hf, ps, base, h.laidOut hl, ?_⟩
  rw [manifestPath, h.pathRoot]
  exact hd hput

end Growth

end Session

/-! ### Pools -/

namespace Pool

/-- Each task of a pool and each of its workers is as described. -/
structure Each (T : Task → Prop) (W : WorkerStage → Prop) (pool : Pool) : Prop where
  pending : ∀ t ∈ pool.pending, T t
  queue : ∀ t ∈ pool.queue, T t
  workers : ∀ w ∈ pool.workers, W w

variable {T T' : Task → Prop} {W W' : WorkerStage → Prop} {pool pool' : Pool} {k : Nat}

/-- The first task that is not queued is queued, or the queue is closed. -/
theorem feed?_eq_some (h : pool.feed? = some pool') :
    pool.closed = false ∧
      ((∃ t rest, pool.pending = t :: rest ∧ pool.isOver = false ∧
        pool' = { pool with pending := rest, queue := pool.queue ++ [t] }) ∨
      (pool.pending = [] ∨ pool.isOver = true) ∧ pool' = { pool with closed := true }) := by
  unfold feed? at h
  by_cases closed : pool.closed = true
  · rw [if_pos closed] at h
    cases h
  rw [if_neg closed] at h
  refine ⟨Bool.eq_false_iff.2 closed, ?_⟩
  split at h
  · next t rest hp =>
    split_ifs at h with spent
    · cases h
      exact .inr ⟨.inr spent, rfl⟩
    · cases h
      exact .inl ⟨t, rest, hp, Bool.eq_false_iff.2 spent, rfl⟩
  · next hp =>
    cases h
    exact .inr ⟨.inl hp, rfl⟩

theorem workers_of_feed (feeds : pool.feed? = some pool') : pool'.workers = pool.workers := by
  obtain ⟨-, ⟨t, rest, -, -, rfl⟩ | ⟨-, rfl⟩⟩ := feed?_eq_some feeds <;> rfl

/-- Until the queue is closed, a task can be fed to an empty queue, and the queue can
be closed when all workers have ended. -/
theorem exists_feed (room : 0 < pool.capacity) (opened : pool.closed = false)
    (ready : pool.queue = [] ∨ pool.isOver = true) : ∃ pool', pool.feed? = some pool' := by
  unfold feed?
  rw [opened, if_neg Bool.false_ne_true]
  cases pool.pending with
  | nil => exact ⟨_, rfl⟩
  | cons t rest =>
    dsimp only
    by_cases spent : pool.isOver = true
    · exact ⟨_, if_pos spent⟩
    · have empty := ready.resolve_right spent
      rw [if_neg spent, if_pos (by rw [empty]; exact room)]
      exact ⟨_, rfl⟩

/-- A worker takes the next task, or learns that there are no more. -/
theorem receive?_eq_some (h : pool.receive? k = some pool') :
    (∃ t rest, pool.queue = t :: rest ∧
      pool' = { pool with queue := rest }.setWorker k (.busy t .checking)) ∨
        pool.queue = [] ∧ pool.closed = true ∧ pool' = pool.setWorker k (.ended .drained) := by
  unfold receive? at h
  split at h
  · next t rest hq =>
    cases h
    exact .inl ⟨t, rest, hq, rfl⟩
  · next hq =>
    split_ifs at h with closed
    cases h
    exact .inr ⟨hq, closed, rfl⟩

theorem each_ofTasks {workers capacity : Nat} {tasks : List Task} (ht : ∀ t ∈ tasks, T t)
    (idle : W .idle) : (ofTasks workers capacity tasks).Each T W := by
  refine ⟨ht, fun t hmem => (by cases hmem), fun w hw => ?_⟩
  rw [List.eq_of_mem_replicate hw]
  exact idle

theorem Each.imp (h : pool.Each T W) (ht : ∀ t, T t → T' t) (hw : ∀ w, W w → W' w) :
    pool.Each T' W' :=
  { pending := fun t hmem => ht t (h.pending t hmem)
    queue := fun t hmem => ht t (h.queue t hmem)
    workers := fun w hmem => hw w (h.workers w hmem) }

theorem Each.setWorker {w : WorkerStage} (h : pool.Each T W) (hw : W w) :
    (pool.setWorker k w).Each T W := by
  refine ⟨h.pending, h.queue, fun u hu => ?_⟩
  rcases List.mem_or_eq_of_mem_set hu with hu | rfl
  · exact h.workers u hu
  · exact hw

theorem Each.feed (h : pool.Each T W) (feeds : pool.feed? = some pool') : pool'.Each T W := by
  obtain ⟨-, ⟨t, rest, hp, -, rfl⟩ | ⟨-, rfl⟩⟩ := feed?_eq_some feeds
  · refine ⟨fun u hu => h.pending u (hp ▸ List.mem_cons_of_mem t hu), fun u hu => ?_, h.workers⟩
    rcases List.mem_append.1 hu with hu | hu
    · exact h.queue u hu
    · obtain rfl := List.mem_singleton.1 hu
      exact h.pending u (hp ▸ List.mem_cons_self)
  · exact ⟨h.pending, h.queue, h.workers⟩

theorem Each.receive (h : pool.Each T W) (begins : ∀ t, T t → W (.busy t .checking))
    (drained : W (.ended .drained)) (receives : pool.receive? k = some pool') :
    pool'.Each T W := by
  rcases receive?_eq_some receives with ⟨t, rest, hq, rfl⟩ | ⟨-, -, rfl⟩
  · have left : Each T W { pool with queue := rest } :=
      ⟨h.pending, fun u hu => h.queue u (hq ▸ List.mem_cons_of_mem t hu), h.workers⟩
    exact left.setWorker (begins t (h.queue t (hq ▸ List.mem_cons_self)))
  · exact h.setWorker drained

end Pool

/-! ### Stages -/

/-- A worker of a pipeline for the session `s`. -/
inductive WorkerStage.Fits (s : Session) (deeds : List Deed) : WorkerStage → Prop
  | idle : Fits s deeds .idle
  | checking {t : Task} (owns : s.Owns t) : Fits s deeds (.busy t .checking)
  | moving {t : Task} {d : Download} {done : List (Instant × Instant)} (owns : s.Owns t)
      (task : d.task = t) (session : d.session = s.id)
      (windows : windows? t.start t.stop t.window = some (done ++ d.windows))
      (searched : ∀ w ∈ done, Searched deeds s.id w) : Fits s deeds (.busy t (.moving d))
  | confirming {t : Task} {size : Sizes} (owns : s.Owns t)
      (delivered : Delivered deeds s.id t) : Fits s deeds (.busy t (.confirming size))
  | settling {t : Task} {size : Sizes} : Fits s deeds (.busy t (.done (.ok (.uploaded size))))
  | drained : Fits s deeds (.ended .drained)
  | lost {w : WorkerStage} (h : w.IsLost) : Fits s deeds w

/-- A pipeline for the session stored under `id`. -/
inductive PipelineStage.Fits (v : Shelf) (deeds : List Deed) (id : String) : PipelineStage → Prop
  | opening : Fits v deeds id .opening
  | draining {pool : Pool} {s : Session} {ps : List Partition} (found : v.session id = some s)
      (laidOut : s.LaidOut ps) (each : pool.Each s.Owns (WorkerStage.Fits s deeds)) :
    Fits v deeds id (.draining pool)
  | closing {s : Session} {ps : List Partition} (found : v.session id = some s)
      (laidOut : s.LaidOut ps) : Fits v deeds id .closing
  | listing {s t : Session} {ps : List Partition} {base : String} (found : v.session id = some t)
      (grown : s.Grown t) (full : t.Full) (laidOut : t.LaidOut ps) :
    Fits v deeds id (.listing s (linkList base t.pathRoot ps))
  | finishing {s : Session} (found : v.session id = some s) (complete : s.Complete deeds) :
    Fits v deeds id (.finishing id)
  | lost {stage : PipelineStage} (h : stage.IsLost) : Fits v deeds id stage

/-- Every session that is stored under one of the ids is still there, and has
grown at most. -/
def Shelf.Grows (ids : Set String) (v v' : Shelf) : Prop :=
  ∀ id ∈ ids, ∀ s, v.session id = some s → ∃ s', v'.session id = some s' ∧ s.Grown s'

theorem WorkerStage.Fits.mono {s s' : Session} {deeds deeds' : List Deed} {w : WorkerStage}
    (h : s.Grown s') (hd : deeds ⊆ deeds') (hw : w.Fits s deeds) : w.Fits s' deeds' := by
  cases hw with
  | idle => exact .idle
  | checking owns => exact .checking (h.owns owns)
  | moving owns task session windows searched =>
    exact .moving (h.owns owns) task (session.trans h.id.symm) windows
      fun w hw => h.id ▸ (searched w hw).mono hd
  | confirming owns delivered => exact .confirming (h.owns owns) (h.id ▸ delivered.mono hd)
  | settling => exact .settling
  | drained => exact .drained
  | lost hl => exact .lost hl

theorem PipelineStage.Fits.mono {ids : Set String} {v v' : Shelf} {deeds deeds' : List Deed}
    {id : String} {stage : PipelineStage} (h : v.Grows ids v') (hid : id ∈ ids)
    (hd : deeds ⊆ deeds') (hs : stage.Fits v deeds id) : stage.Fits v' deeds' id := by
  cases hs with
  | opening => exact .opening
  | draining found laidOut each =>
    obtain ⟨s', found', g⟩ := h id hid _ found
    exact .draining found' (g.laidOut laidOut) (each.imp (fun _ => g.owns) fun _ => .mono g hd)
  | closing found laidOut =>
    obtain ⟨s', found', g⟩ := h id hid _ found
    exact .closing found' (g.laidOut laidOut)
  | listing found grown full laidOut =>
    obtain ⟨s', found', g⟩ := h id hid _ found
    rw [← g.pathRoot]
    exact .listing found' (grown.trans g) (g.full full) (g.laidOut laidOut)
  | finishing found complete =>
    obtain ⟨s', found', g⟩ := h id hid _ found
    exact .finishing found' (complete.mono g hd)
  | lost hl => exact .lost hl

/-! ### Steps -/

/-- What has to be so for a change to one of the sessions to be made. -/
def Change.Earned (ids : Set String) (v : Shelf) (deeds : List Deed) : Change → Prop
  | start s => s.pathRoot = "exports/" ++ s.id ∧ (∀ flag ∈ s.uploaded, flag = false) ∧
      (s.id ∈ ids → v.session s.id = none)
  | conclude id .finish _ _ => id ∈ ids → ∃ s, v.session id = some s ∧ s.Complete deeds
  | confirm id part _ => id ∈ ids → ∃ s, v.session id = some s ∧ s.PartDone deeds part
  | _ => True

/-- What has to be so for a deed to be done for one of the sessions. -/
def Deed.Proper (ids : Set String) (v : Shelf) : Deed → Prop
  | put path _ => ∀ id ∈ ids, path = Session.manifestPathUnder ("exports/" ++ id) →
      ∃ s, v.session id = some s ∧ s.Full
  | page r _ => r.sessionId ∈ ids →
      ∃ s ps p ws, v.session r.sessionId = some s ∧ s.LaidOut ps ∧ p ∈ ps ∧
        windows? p.start p.stop s.window = some ws ∧ (r.start, r.stop) ∈ ws

theorem Change.GivesUp.earned {c : Change} {id : String} (h : c.GivesUp id) (ids : Set String)
    (v : Shelf) (deeds : List Deed) : c.Earned ids v deeds := by
  cases h <;> trivial

section Steps

variable {ids : Set String} {v : Shelf} {files : Files} {deeds : List Deed} {id : String} {c : Change}
  {deed : Option Deed}

/-- A request asks for the first window that is left. -/
theorem Download.request?_eq_some {d : Download} {r : SearchRequest} (h : d.request? = some r) :
    ∃ ws, d.windows = (r.start, r.stop) :: ws ∧ r.sessionId = d.session ∧ r.limit = d.limit := by
  unfold request? at h
  obtain ⟨⟨a, b⟩, hw, rfl⟩ := Option.map_eq_some_iff.1 h
  cases hws : d.windows with
  | nil => rw [hws] at hw; cases hw
  | cons w ws =>
    rw [hws] at hw
    cases hw
    exact ⟨ws, rfl, rfl, rfl⟩

theorem WorkerStep.fits {s : Session} {w w' : WorkerStage} (step : WorkerStep v files id w c deed w')
    (found : v.session id = some s) (hid : s.id = id) (fits : w.Fits s deeds) :
    c.Earned ids v deeds ∧ (∀ d ∈ deed, d.Proper ids v) ∧ w'.Fits s (deed.toList ++ deeds) := by
  have none : ∀ d ∈ (none : Option Deed), d.Proper ids v := by rintro _ ⟨⟩
  cases step with
  | begun found' running begins =>
    cases fits with
    | lost h => cases h
    | checking owns =>
      refine ⟨trivial, none, ?_⟩
      obtain ⟨ws, hws, rfl⟩ := Option.map_eq_some_iff.1 begins
      exact @WorkerStage.Fits.moving _ _ _ _ [] owns rfl hid.symm hws (by simp)
  | @page t d r asked events =>
    cases fits with
    | lost h => cases h
    | @moving _ _ done owns task session windows searched =>
      obtain ⟨ws, hws, hr, hl⟩ := Download.request?_eq_some asked
      refine ⟨trivial, ?_, ?_⟩
      · rintro _ ⟨⟩ -
        obtain ⟨ps, p, laidOut, hp, rfl⟩ := owns
        exact ⟨s, ps, p, _, by rw [hr, session, hid, found], laidOut, hp, windows, by simp [hws]⟩
      · have more : deeds ⊆ Deed.page r events :: deeds := List.subset_cons_self _ _
        by_cases hlast : events.length < d.limit
        · refine @WorkerStage.Fits.moving _ _ _ _ (done ++ [(r.start, r.stop)]) owns ?_ ?_ ?_ ?_
          · simpa [Download.take, hlast] using task
          · simpa [Download.take, hlast] using session
          · simpa [Download.take, hlast, hws] using windows
          · intro w hw
            rcases List.mem_append.1 hw with hw | hw
            · exact (searched w hw).mono more
            · obtain rfl := List.mem_singleton.1 hw
              exact ⟨r, events, List.mem_cons_self, hr.trans session, rfl, hl ▸ hlast⟩
        · refine @WorkerStage.Fits.moving _ _ _ _ done owns ?_ ?_ ?_ fun w hw => (searched w hw).mono more
          · simpa [Download.take, hlast] using task
          · simpa [Download.take, hlast] using session
          · simpa [Download.take, hlast] using windows
  | @stored t d isDone =>
    cases fits with
    | lost h => cases h
    | @moving _ _ done owns task session windows searched =>
      have hnil : d.windows = [] := List.isEmpty_iff.1 isDone
      rw [hnil, List.append_nil] at windows
      refine ⟨trivial, ?_, .confirming owns ?_⟩
      · rintro _ ⟨⟩ i - hpath
        obtain ⟨ps, p, -, -, ht⟩ := owns
        rw [task, ht] at hpath
        exact absurd hpath (Session.pathUnder_ne_manifestPathUnder _ _ p)
      · refine ⟨⟨.ofBytes (d.file files.coder), by rw [← task]; exact List.mem_cons_self⟩, _, windows, fun w hw => ?_⟩
        exact (searched w hw).mono (List.subset_cons_self _ _)
  | confirmed =>
    cases fits with
    | lost h => cases h
    | confirming owns delivered =>
      refine ⟨fun _ => ⟨s, found, ?_⟩, none, .settling⟩
      obtain ⟨ps, p, laidOut, hp, rfl⟩ := owns
      exact ⟨ps, p, laidOut, hp, rfl, delivered⟩
  | settled => exact ⟨trivial, none, .idle⟩
  | lost gives lost => exact ⟨gives.earned ids v deeds, none, .lost lost⟩

/-- A step keeps what is known of a pipeline, and it is known enough for the
change and the deed that go with it. -/
theorem PipelineStep.fits {stage stage' : PipelineStage}
    (step : PipelineStep v files id stage c deed stage')
    (own : ∀ s, v.session id = some s → s.id = id ∧ s.pathRoot = "exports/" ++ id)
    (fits : stage.Fits v deeds id) :
    c.Earned ids v deeds ∧ (∀ d ∈ deed, d.Proper ids v) ∧
      stage'.Fits v (deed.toList ++ deeds) id := by
  have none : ∀ d ∈ (none : Option Deed), d.Proper ids v := by rintro _ ⟨⟩
  cases step with
  | @opened s tasks workers capacity found running laidOut =>
    obtain ⟨ps, hl, rfl⟩ := Session.tasks?_eq_ok_iff.1 laidOut
    refine ⟨trivial, none, .draining found hl (Pool.each_ofTasks ?_ .idle)⟩
    intro t ht
    obtain ⟨p, hp, rfl⟩ := List.mem_map.1 ht
    exact ⟨ps, p, hl, (List.mem_filter.1 hp).1, rfl⟩
  | fed feeds =>
    cases fits with
    | lost h => cases h
    | draining found laidOut each =>
      exact ⟨trivial, none, .draining found laidOut (each.feed feeds)⟩
  | received idle receives =>
    cases fits with
    | lost h => cases h
    | draining found laidOut each =>
      refine ⟨trivial, none, .draining found laidOut ?_⟩
      exact each.receive (fun _ => .checking) .drained receives
  | worked at_work works =>
    cases fits with
    | lost h => cases h
    | draining found laidOut each =>
      obtain ⟨earned, proper, hw'⟩ :=
        works.fits found (own _ found).1 (each.workers _ (List.mem_of_getElem? at_work))
      refine ⟨earned, proper, .draining found laidOut (Pool.Each.setWorker ?_ hw')⟩
      exact each.imp (fun _ h => h) fun _ => .mono (.refl _) (List.subset_append_right _ _)
  | drained clean =>
    cases fits with
    | lost h => cases h
    | draining found laidOut => exact ⟨trivial, none, .closing found laidOut⟩
  | @checked s m found running full links =>
    cases fits with
    | lost h => cases h
    | @closing t ps found' laidOut =>
      rw [found] at found'
      cases found'
      refine ⟨trivial, none, ?_⟩
      have hm : m = linkList files.linkBase s.pathRoot ps := by
        simp only [Engine.manifest?, laidOut.parts, Option.map_some, Option.some.injEq] at links
        exact links.symm
      rw [hm]
      refine .listing found (.refl s) ?_ laidOut
      intro flag hflag
      exact (List.count_eq_length.1 full flag hflag).symm
  | @listed s m =>
    cases fits with
    | lost h => cases h
    | @listing _ t ps base found grown full laidOut =>
      obtain ⟨hid, hroot⟩ := own t found
      have hsid : s.id = id := grown.id.symm.trans hid
      have hpath : s.manifestPath = t.manifestPath := by
        rw [Session.manifestPath, Session.manifestPath, grown.pathRoot]
      refine ⟨trivial, ?_, ?_⟩
      · rintro _ ⟨⟩ i - hi
        rw [hpath, Session.manifestPath, hroot] at hi
        have he := Session.manifestPathUnder_inj hi
        have hid' : id = i := by simpa using he
        exact ⟨t, hid' ▸ found, full⟩
      · rw [hsid, hpath]
        exact .finishing found ⟨full, ps, base, laidOut, List.mem_cons_self⟩
  | finished =>
    cases fits with
    | lost h => cases h
    | finishing found complete => exact ⟨fun _ => ⟨_, found, complete⟩, none, .lost (.ended _)⟩
  | unfinished gives => exact ⟨gives.earned ids v deeds, none, .lost (.failing _)⟩
  | lost going gives lost => exact ⟨gives.earned ids v deeds, none, .lost lost⟩

end Steps

end LogExport
