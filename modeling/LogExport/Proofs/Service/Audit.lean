import LogExport.Proofs.Service.Books
import LogExport.Proofs.Service.Origins
import LogExport.Proofs.Service.Release

/-! What the counters of a service tell when no pipeline is running: the books of the
run, with nothing left to count. A pipeline without a result is counted as running for
good, and it has none only if its session has parts that leave the calendar or its queue
cannot be made. -/

namespace LogExport

open Access

namespace PipelineStage

variable {stage : PipelineStage}

/-- The pipeline has ended without a result. -/
def isCrashed : PipelineStage → Bool
  | crashed => true
  | _ => false

theorem uncounted_of_isEnded (h : stage.isEnded = true) : stage.uncounted = 0 := by
  cases stage with
  | draining => cases h
  | _ => rfl

/-- A pipeline that has ended is counted as running if it ended without a result. -/
theorem occupies_of_isEnded (h : stage.isEnded = true) :
    stage.occupies = if stage.isCrashed then 1 else 0 := by
  cases stage with
  | ended => rfl
  | crashed => rfl
  | _ => cases h

theorem sum_occupies {xs : List Pipeline} (h : ∀ x ∈ xs, x.stage.isEnded = true) :
    (xs.map fun x => x.stage.occupies).sum = xs.countP fun x => x.stage.isCrashed := by
  induction xs with
  | nil => rfl
  | cons x xs ih =>
    obtain ⟨first, rest⟩ := List.forall_mem_cons.1 h
    rw [List.map_cons, List.sum_cons, ih rest, List.countP_cons, occupies_of_isEnded first,
      Nat.add_comm]

end PipelineStage

theorem Sizes.sum_tally (xs : List Sizes) :
    (xs.map Sizes.tally).sum =
      (xs.length, (xs.map Sizes.unpacked).sum, (xs.map Sizes.packed).sum) := by
  induction xs with
  | nil => rfl
  | cons x xs ih =>
    rw [List.map_cons, List.sum_cons, ih]
    simp only [tally, Prod.mk_add_mk, List.length_cons, List.map_cons, List.sum_cons,
      Nat.add_comm 1]

namespace Engine

variable {e e' : Engine} {ev : Event} {c : Change} {id : String} {h : List (Engine × Event)}

/-! ### Pipelines without a result -/

/-- The pipelines that ended without a result did so over sessions whose parts leave
the calendar, or over a queue that is larger than one can be made. -/
def Stranded (e : Engine) : Prop :=
  ∀ x ∈ e.pipelines, x.stage = .crashed →
    ∃ s, e.backend.records.shelf.session x.session = some s ∧
      (s.parts? = none ∨ Pool.maxCapacity < e.settings.queueSize)

/-- A session that is stored keeps its parts. -/
theorem Effect.parts?_kept (effect : Effect e ev c e') (new : ev.IsNew e) {s : Session}
    (found : e.backend.records.shelf.session id = some s) :
    ∃ s', e'.backend.records.shelf.session id = some s' ∧ s'.parts? = s.parts? := by
  have step := effect.records.2
  obtain ⟨s', found'⟩ := Option.isSome_iff_exists.1
    ((step.isSome_session id).2 (.inl (Option.isSome_iff_exists.2 ⟨s, found⟩)))
  refine ⟨s', found', ?_⟩
  rcases step.grown_from found' with ⟨t, before, grown⟩ | ⟨rfl, rfl⟩
  · rw [found] at before
    cases before
    exact grown.parts?_eq
  · exact absurd (found.symm.trans (effect.unstored new)) (Option.some_ne_none s)

theorem Stranded.step (h : e.Stranded) (sound : e.Sound) (new : ev.IsNew e)
    (step : Step e ev e') : e'.Stranded := by
  obtain ⟨c, effect⟩ := sound.effect step
  have old : ∀ x ∈ e.pipelines, x.stage = .crashed →
      ∃ s, e'.backend.records.shelf.session x.session = some s ∧
        (s.parts? = none ∨ Pool.maxCapacity < e'.settings.queueSize) := by
    intro x hx crashed
    obtain ⟨s, found, never⟩ := h x hx crashed
    obtain ⟨s', found', same⟩ := effect.parts?_kept new found
    exact ⟨s', found', effect.settings ▸ same ▸ never⟩
  -- A pipeline that is launched has not crashed yet.
  have launched {i : String} (hp : e'.pipelines = e.pipelines ++ [⟨i, .opening⟩]) :
      e'.Stranded := by
    intro x hx crashed
    rw [hp, List.mem_append, List.mem_singleton] at hx
    rcases hx with hx | rfl
    · exact old x hx crashed
    · cases crashed
  cases effect with
  | quiet _ _ _ pipelines =>
    intro x hx
    rw [pipelines] at hx
    exact old x hx
  | started _ _ _ _ _ pipelines => exact launched pipelines
  | restored pipelines => exact launched pipelines
  | @moved m q i stage stage' c e' moved =>
    intro x hx crashed
    cases step with
    | move h =>
      cases acts : m.pipeline? with
      | some p =>
        obtain ⟨id, _, _, stage', booked⟩ := booked_of_step sound.filed sound.now acts h
        rw [booked.pipelines] at hx
        rcases List.mem_or_eq_of_mem_set hx with hx | rfl
        · exact old x hx crashed
        · exact moved.settings ▸ booked.stranded crashed
      | none =>
        obtain ⟨counters, rfl⟩ := counted_step acts h
        exact old x hx crashed

theorem Course.stranded (course : Course e h e') (sound : e.Sound) (stranded : e.Stranded) :
    e'.Stranded := by
  induction course with
  | nil e => exact stranded
  | cons new step rest ih => exact ih (sound.step step) (stranded.step sound new step)

/-! ### When no pipeline is running -/

theorem uncounted_of_isIdle (idle : e.isIdle = true) : e.uncounted = 0 := by
  refine List.sum_eq_zero fun t ht => ?_
  obtain ⟨x, hx, rfl⟩ := List.mem_map.1 ht
  exact PipelineStage.uncounted_of_isEnded (List.all_eq_true.1 idle x hx)

theorem occupied_of_isIdle (idle : e.isIdle = true) :
    e.occupied = e.pipelines.countP fun x => x.stage.isCrashed :=
  PipelineStage.sum_occupies (List.all_eq_true.1 idle)

/-- A service that was just created has counted nothing. -/
theorem counters_of_create {t : ExportSettings} {b b' : Backend} {now : Instant} {files : Files}
    (h : create t b now files = (.ok e, b')) : e.counters = {} := by
  unfold create at h
  split at h
  · cases h
  rcases hg : (do
      SessionStore.unlock
      let _ ← SessionStore.all : Access Unit).run.run b with ⟨r, b₁⟩
  simp only [access, hg] at h
  cases r with
  | error err => cases h
  | ok _ =>
    cases h
    rfl

/-- What the counters tell, of what has happened since the service was created. -/
structure Audited (e₀ : Engine) (h : List (Engine × Event)) (e : Engine) : Prop where
  started : e.counters.started = (h.filterMap fun x => x.2.acquired?).length
  finished : (e.counters.finished : ℕ∞) = (e.ended .finish \ e₀.ended .finish).encard
  cancelled : (e.counters.cancelled : ℕ∞) = (e.ended .cancel \ e₀.ended .cancel).encard
  /-- The sessions that fail with the death of a worker are left out. -/
  failed : (e.counters.failed : ℕ∞) + (h.filterMap fun x => x.1.silent? x.2).length =
    (e.ended .fail \ e₀.ended .fail).encard
  parts : e.counters.parts = (h.filterMap fun x => x.1.upload? x.2).length
  unpacked : e.counters.unpacked = ((h.filterMap fun x => x.1.upload? x.2).map Sizes.unpacked).sum
  packed : e.counters.packed = ((h.filterMap fun x => x.1.upload? x.2).map Sizes.packed).sum
  /-- A pipeline that ended without a result is still counted. -/
  running : e.counters.running = e.pipelines.countP fun x => x.stage.isCrashed
  stranded : e.Stranded

/-- All sessions that failed are counted unless the death of a worker failed one. -/
theorem Audited.failed_iff {e₀ : Engine} (audited : e₀.Audited h e) :
    (e.counters.failed : ℕ∞) = (e.ended .fail \ e₀.ended .fail).encard ↔
      ∀ x ∈ h, x.1.silent? x.2 = none := by
  rw [← audited.failed, ← List.filterMap_eq_nil_iff, ← List.length_eq_zero_iff]
  norm_cast
  exact left_eq_add

/-- No pipeline is counted as running unless one has ended without a result. -/
theorem Audited.running_iff {e₀ : Engine} (audited : e₀.Audited h e) :
    e.counters.running = 0 ↔ ∀ x ∈ e.pipelines, x.stage.isCrashed = false := by
  rw [audited.running, List.countP_eq_zero]
  simp

theorem audited_of_isIdle {t : ExportSettings} {b b' : Backend} {now : Instant} {files : Files}
    {e₀ : Engine} (clock : now.Valid) (pages : t.pageSize ≤ Numeral.maxUInt64)
    (create : create t b now files = (.ok e₀, b')) (course : Course e₀ h e)
    (idle : e.isIdle = true) : e₀.Audited h e := by
  have sound := sound_of_create clock pages create
  obtain ⟨-, -, -, empty, -⟩ := created create
  have blank := counters_of_create create
  have books := course.balanced sound
  have uploads : e.counters.tally =
      ((h.filterMap fun x => x.1.upload? x.2).map Sizes.tally).sum := by
    have none : e₀.counters.tally + e₀.uncounted = 0 := by
      rw [blank, uncounted, empty]
      rfl
    have tally := books.tally
    rwa [uncounted_of_isIdle idle, none, add_zero, zero_add] at tally
  rw [Sizes.sum_tally] at uploads
  obtain ⟨parts, uploads⟩ := Prod.mk.inj uploads
  obtain ⟨unpacked, packed⟩ := Prod.mk.inj uploads
  have started := books.started
  have finished := books.finished
  have failed := books.failed
  have cancelled := books.cancelled
  rw [blank] at started finished failed cancelled
  refine
    { started := started.trans (Nat.zero_add _), finished := finished.trans (zero_add _)
      failed := failed.trans (zero_add _), cancelled := cancelled.trans (zero_add _)
      parts, unpacked, packed, running := ?_, stranded := ?_ }
  · rw [← occupied_of_isIdle idle]
    refine books.running ?_
    rw [blank, occupied, empty]
    rfl
  · refine course.stranded sound fun x hx => ?_
    rw [empty] at hx
    cases hx

/-- When no pipeline is running, the counters tell what has happened. They tell all of
it but for sessions that failed with the death of a worker, and they count as running
the pipelines without a result: those whose sessions have parts that leave the calendar,
or whose queue cannot be made. -/
theorem idle_books_true {t : ExportSettings} {b b' : Backend} {now : Instant} {files : Files}
    {e₀ : Engine} (clock : now.Valid) (pages : t.pageSize ≤ Numeral.maxUInt64)
    (create : create t b now files = (.ok e₀, b')) (course : Course e₀ h e)
    (idle : e.isIdle = true) :
    e₀.Audited h e ∧
      ((e.counters.failed : ℕ∞) = (e.ended .fail \ e₀.ended .fail).encard ↔
        ∀ x ∈ h, x.1.silent? x.2 = none) ∧
      (e.counters.running = 0 ↔ ∀ x ∈ e.pipelines, x.stage.isCrashed = false) := by
  have audited := audited_of_isIdle clock pages create course idle
  exact ⟨audited, audited.failed_iff, audited.running_iff⟩

/-- A pipeline whose session has parts that leave the calendar is counted, and has no
result. -/
theorem Serves.crashes {s : Session} {p : Nat} (h : e.Serves p s .opening)
    (never : s.parts? = none) :
    e.step? (.advance p) = some ((e.countRunning (· + 1)).setStage p .crashed) := by
  have unlaid : s.tasks? = none := by rw [Session.tasks?, never]; rfl
  simp only [step?, advance?, h.found, openSession]
  rw [access_eq (e := e.countRunning (· + 1)) h.holds.load]
  simp only [h.running, unlaid, if_true]
  rfl

theorem parts?_of_dawn {s : Session} (h : s.start = ⟨Instant.earliest, 0⟩)
    (h' : s.stop = ⟨Instant.earliest + 5400, 0⟩) (length : s.partLength = .ofSecs 3600) :
    s.parts? = none := by
  rw [Session.parts?, h, h', length]
  decide

/-- The sample is counted as running for good. -/
theorem idle_books_true_dawn :
    ∃ e₀ b h e, create hourly {} newYear { linkBase := "" } = (.ok e₀, b) ∧ Course e₀ h e ∧
      e.isIdle = true ∧ e₀.Audited h e ∧ e.counters.started = 1 ∧ e.counters.running = 1 := by
  obtain ⟨e₀, b, e₁, id, created, new, start, quiet, pipelines, bounds, length⟩ :
      ∃ e₀ b e₁ id, create hourly {} newYear { linkBase := "" } = (.ok e₀, b) ∧
        Event.IsNew e₀ (.start none dawn (.ok id)) ∧
        Step e₀ (.start none dawn (.ok id)) e₁ ∧ e₁.backend.faults = {} ∧
        e₁.pipelines = [⟨id, .opening⟩] ∧
        e₀.settings.partLength.normalize? dawn.start dawn.stop =
          some (⟨Instant.earliest, 0⟩, ⟨Instant.earliest + 5400, 0⟩) ∧
        e₀.settings.partLength.length = .ofSecs 3600 :=
    ⟨_, _, _, _, rfl, rfl, .start ⟨by decide, by decide⟩ rfl, rfl, rfl, by decide, rfl⟩
  have sound := sound_of_create (by decide) (by decide) created
  obtain ⟨c, effect⟩ := sound.effect start
  obtain ⟨s, found, running, never⟩ : ∃ s, e₁.backend.records.shelf.session id = some s ∧
      s.status = .start ∧ s.parts? = none := by
    cases effect with
    | quiet free => cases free
    | @started _ name _ lo hi parts _ allowed exact sound bounds' count pipelines files settings now
        records =>
      rw [bounds] at bounds'
      cases bounds'
      have first : Instant.reread ⟨Instant.earliest, 0⟩ = ⟨Instant.earliest, 0⟩ := by decide
      have last : Instant.reread ⟨Instant.earliest + 5400, 0⟩ = ⟨Instant.earliest + 5400, 0⟩ := by
        decide
      exact ⟨_, records.2.started, rfl,
        parts?_of_dawn first last ((PartLength.stored_length _).trans length)⟩
  cases (sound.step start).filed.id_eq found
  have serves : e₁.Serves 0 s .opening :=
    { found := by rw [pipelines]; rfl
      holds := ⟨quiet, (sound.step start).filed, found⟩, clock := (sound.step start).now, running }
  have pipelines₂ : ((e₁.countRunning (· + 1)).setStage 0 .crashed).pipelines =
      [⟨s.id, .crashed⟩] := by
    rw [setStage, countRunning, count, pipelines]
    rfl
  have course : Course e₀ [(e₀, .start none dawn (.ok s.id)), (e₁, .move (.advance 0))] _ :=
    .cons new start (.cons trivial (.move (serves.crashes never)) (.nil _))
  have idle : ((e₁.countRunning (· + 1)).setStage 0 .crashed).isIdle = true := by
    rw [isIdle, pipelines₂]
    rfl
  obtain ⟨audited, -, -⟩ := idle_books_true (by decide) (by decide) created course idle
  refine ⟨e₀, b, _, _, created, course, idle, audited, audited.started, ?_⟩
  rw [audited.running, pipelines₂]
  rfl

/-! ### The death of a worker -/

theorem course_of_leads (leads : e.Leads e') : ∃ h, Course e h e' := by
  obtain ⟨run, -⟩ := leads
  induction run using Relation.ReflTransGen.head_induction_on with
  | refl => exact ⟨[], .nil e'⟩
  | @head a b step _ ih =>
    obtain ⟨m, hm⟩ := step
    obtain ⟨h, rest⟩ := ih
    exact ⟨_, .cons (isNew_move a m) (.move hm) rest⟩

theorem Course.append {e'' : Engine} {h' : List (Engine × Event)} (first : Course e h e')
    (second : Course e' h' e'') : Course e (h ++ h') e'' := by
  induction first with
  | nil => exact second
  | cons new step _ ih => exact .cons new step (ih second)

section Deaths

variable {p : Nat} {s : Session} {pool : Pool} {t : Task}

/-- A worker can die while it searches. -/
theorem Works.dies {d : Download} (h : e.Works p s pool (.busy t (.moving d))) :
    ∃ e', e.Leads e' ∧ e'.Works p s pool (.busy t .crashed) := by
  have hstep : e.step? (.reply p 0 .crash) = some
      (e.putWorker p 0 (pool.setWorker 0 (.busy t (.moving d))) (.busy t .crashed)) := by
    simp only [step?, reply?, h.1.found, h.found, movePart, Option.map_some]
  exact ⟨_, leads_of_step? hstep rfl, h.put rfl h.1.holds rfl rfl⟩

/-- When that is noticed, the session fails and nothing is counted. -/
theorem Works.noticed (h : e.Works p s pool (.busy t .crashed)) (running : s.status = .start) :
    ∃ e' s', e.step? (.report p 0) = some e' ∧ e'.settings = e.settings ∧
      e.unnoted? (.report p 0) = some s.id ∧
      e'.Works p s' pool (.ended (.failed crashError)) ∧ s'.id = s.id ∧ s'.status = .fail := by
  obtain ⟨b, hg, holds⟩ :
      ∃ b, Gives (SessionStore.fail e.now s.id InternalFault.workerPanicked.text) e.backend
        (.ok ()) b ∧
        b.Holds (s.ended .fail (some InternalFault.workerPanicked.text) e.now.reread) :=
    h.1.holds.conclude running h.1.clock (by decide) _
  have fails : e.failSession s.id InternalFault.workerPanicked.text =
      (.ok (), { e with backend := b }) := access_eq hg
  have hstep : e.step? (.report p 0) = some ({ e with backend := b }.putWorker p 0
      (pool.setWorker 0 (.busy t .crashed)) (.ended (.failed crashError))) := by
    simp only [step?, report?, h.1.found, h.found, fails]
  refine ⟨_, s.ended .fail _ e.now.reread, hstep, rfl, ?_, h.put ?_ holds ?_ ?_, rfl, rfl⟩
  · simp only [unnoted?, h.1.found, h.found, fails]
    rfl
  · rfl
  · rfl
  · rfl

/-- When all workers have ended, and not all of them for want of tasks, the pipeline
ends. -/
theorem At.gives_up (h : e.At p s (.draining pool)) (spent : pool.isOver = true)
    (opened : pool.closed = false) (unclean : pool.isClean = false) :
    ∃ e', e.Leads e' ∧ e'.At p s (.ended (.ok ())) := by
  obtain ⟨e₁, leads₁, h₁⟩ := h.shuts (.inr spent) opened
  have spent' : ({ pool with closed := true } : Pool).isOver = true := spent
  have unclean' : ({ pool with closed := true } : Pool).isClean = false := unclean
  have hstep : e₁.step? (.advance p) = some (e₁.close p (.ok ())) := by
    simp only [step?, advance?, h₁.found, spent', unclean', and_self, if_true, Bool.false_eq_true,
      if_false]
  refine ⟨_, leads₁.trans (leads_of_step? hstep rfl), h₁.setStage ?_ ?_ ?_ ?_⟩
  · rfl
  · exact h₁.holds
  · rfl
  · rfl

/-- If the only worker of a pipeline dies while it searches, the pipeline comes to its
end with the session failed, and nobody counts that. -/
theorem Works.fails_uncounted {d : Download} (h : e.Works p s pool (.busy t (.moving d)))
    (running : s.status = .start) (opened : pool.closed = false)
    (alone : pool.workers.length = 1) :
    ∃ run e' s', Course e run e' ∧ e'.At p s' (.ended (.ok ())) ∧ s'.id = s.id ∧
      s'.status = .fail ∧ e'.pipelines.length = e.pipelines.length ∧
      ∃ x ∈ run, x.1.silent? x.2 = some s.id := by
  obtain ⟨e₁, leads₁, works₁⟩ := h.dies
  obtain ⟨e₂, s', report, settings, unnoted, works₂, hid, failed⟩ := works₁.noticed running
  obtain ⟨w, hw⟩ := List.length_eq_one_iff.1 alone
  have workers : (pool.setWorker 0 (.ended (.failed crashError))).workers =
      [.ended (.failed crashError)] := by
    rw [Pool.setWorker, hw, List.set_cons_zero]
  have spent : (pool.setWorker 0 (.ended (.failed crashError))).isOver = true := by
    rw [Pool.isOver, workers]
    rfl
  have unclean : (pool.setWorker 0 (.ended (.failed crashError))).isClean = false := by
    rw [Pool.isClean, workers]
    rfl
  obtain ⟨e₃, leads₃, at₃⟩ := works₂.1.gives_up spent opened unclean
  obtain ⟨h₁, course₁⟩ := course_of_leads leads₁
  obtain ⟨h₃, course₃⟩ := course_of_leads leads₃
  have course : Course e (h₁ ++ (e₁, .move (.report p 0)) :: h₃) e₃ :=
    course₁.append (.cons (isNew_move e₁ _) (.move report) course₃)
  refine ⟨_, e₃, s', course, at₃, hid, failed, ?_, (e₁, .move (.report p 0)), by simp, unnoted⟩
  exact length_pipelines_of_leads
    (leads₁.trans ((leads_of_step? report settings).trans leads₃))

end Deaths

/-- With one worker, the sample can fail and not be counted. -/
theorem audit_can_fail_uncounted :
    ∃ e₀ b h e, create { hourly with workers := 1 } {} newYear { linkBase := "" } = (.ok e₀, b) ∧
      Course e₀ h e ∧ e.isIdle = true ∧
      (e.counters.failed : ℕ∞) < (e.ended .fail \ e₀.ended .fail).encard := by
  obtain ⟨e₀, b, e₁, created, start, new, quiet, pages, fits, bounds, room, count, empty, launched,
      workers⟩ :
      ∃ e₀ b e₁, create { hourly with workers := 1 } {} newYear { linkBase := "" } = (.ok e₀, b) ∧
        Step e₀ (.start none audit (.ok auditId)) e₁ ∧
        Event.IsNew e₀ (.start none audit (.ok auditId)) ∧ e₁.backend.faults = {} ∧
        0 < e₀.settings.pageSize ∧ e₀.settings.queueSize ≤ Pool.maxCapacity ∧
        e₀.settings.partLength.normalize? audit.start audit.stop =
          some (newYear, ⟨1704070800, 0⟩) ∧
        newYear.HasRoom e₀.settings.partLength.step ∧
        partitionCount? newYear ⟨1704070800, 0⟩ e₀.settings.partLength.length = some 1 ∧
        e₀.pipelines = [] ∧ e₁.pipelines.length = 1 ∧ e₀.settings.workers = 1 :=
    ⟨_, _, _, rfl, .start exact_audit rfl, rfl, rfl, by decide, by decide, rfl, by decide, rfl, rfl,
      rfl, rfl⟩
  have sound := sound_of_create (by decide) (by decide) created
  obtain ⟨c, effect⟩ := sound.effect start
  obtain ⟨e₂, s, pool, t, d, leads, works, -, -, running, opened, crew⟩ :=
    effect.begins_part sound.now quiet pages fits bounds ⟨by decide, by decide⟩ room count
  have alone : pool.workers.length = 1 := by
    rw [crew, List.length_replicate, workers]
    rfl
  obtain ⟨h₂, e, s', fails, ended, -, -, length, x, hx, silent⟩ :=
    works.fails_uncounted running opened alone
  obtain ⟨h₁, course₁⟩ := course_of_leads leads
  have course := Course.cons new start (course₁.append fails)
  have idle : e.isIdle = true := by
    rw [empty] at ended
    have single : e.pipelines.length = 1 :=
      length.trans ((length_pipelines_of_leads leads).trans launched)
    obtain ⟨y, hy⟩ := List.length_eq_one_iff.1 single
    have found := ended.found
    rw [hy] at found
    cases found
    rw [isIdle, hy]
    rfl
  refine ⟨e₀, b, _, e, created, course, idle, ?_⟩
  have audited := audited_of_isIdle (by decide) (by decide) created course idle
  have uncounted : 0 < (((e₀, Event.start none audit (.ok auditId)) :: (h₁ ++ h₂)).filterMap
      fun x => x.1.silent? x.2).length :=
    List.length_pos_of_mem (List.mem_filterMap.2 ⟨x, by simp [hx], silent⟩)
  rw [← audited.failed]
  exact_mod_cast Nat.lt_add_of_pos_right uncounted

end Engine

end LogExport
