import LogExport.Proofs.Pipeline.Attended
import LogExport.Proofs.Service.Calm
import LogExport.Proofs.Service.Finishing
import LogExport.Proofs.Service.Identity

/-! The lock comes free. While a service is not shut down and storage does not
fail, a pipeline attends to the holder of the lock, unless it cannot be opened. So
the lock is free when no pipeline is running. -/

namespace LogExport

namespace Shelf

variable {v v' : Shelf} {c : Change} {id : String} {s : Session}

theorem Step.kept (step : v.Step .keep v') : v' = v := by
  cases step with
  | keep => rfl

/-- Whoever holds the lock held it before, or has just taken it. -/
theorem Step.held_before (step : v.Step c v') (held : v'.holder = some id) :
    v.holder = some id ∨ c.acquired? = some id := by
  cases step with
  | keep => exact .inl held
  | start => exact .inr held
  | restore => exact .inr held
  | release => cases held
  | conclude =>
    dsimp only at held
    split at held
    · cases held
    · exact .inl held
  | confirm => exact .inl held
  | unlock => cases held

/-- While a session holds the lock, its parts may be confirmed, and nothing else
changes it. -/
theorem Step.session_of_held (step : v.Step c v') (held : v.holder = some id)
    (held' : v'.holder = some id) (found : v.session id = some s) :
    v'.session id = some s ∨
      ∃ part size, v'.session id = some (s.confirm part size) := by
  cases step with
  | keep => exact .inl found
  | start _ free =>
    rw [free] at held
    cases held
  | restore => exact .inl found
  | release => cases held'
  | @conclude i t status error now found' =>
    by_cases hid : id = i
    · subst hid
      simp only [held, if_true] at held'
      cases held'
    · exact .inl ((Function.update_of_ne hid _ _).trans found)
  | @confirm i t part size found' =>
    by_cases hid : id = i
    · subst hid
      rw [found] at found'
      cases found'
      exact .inr ⟨part, size, Function.update_self ..⟩
    · exact .inl ((Function.update_of_ne hid _ _).trans found)
  | unlock => cases held'

/-- How a session has ended changes only if another one is started under its id. -/
theorem Step.status_kept (step : v.Step c v') (other : ∀ u, c = .start u → u.id ≠ id)
    (found : v.session id = some s) (left : s.status ≠ .start) :
    ∃ s', v'.session id = some s' ∧ s'.status = s.status := by
  cases step with
  | @start u =>
    have hid : id ≠ u.id := fun he => other u rfl he.symm
    exact ⟨s, (Function.update_of_ne hid _ _).trans found, rfl⟩
  | @conclude i u status error now found' running =>
    have hid : id ≠ i := by
      rintro rfl
      rw [found] at found'
      cases found'
      exact left running
    exact ⟨s, (Function.update_of_ne hid _ _).trans found, rfl⟩
  | @confirm i u part size found' =>
    by_cases hid : id = i
    · subst hid
      rw [found] at found'
      cases found'
      exact ⟨_, Function.update_self .., rfl⟩
    · exact ⟨s, (Function.update_of_ne hid _ _).trans found, rfl⟩
  | _ => exact ⟨s, found, rfl⟩

end Shelf

namespace Engine

/-- A pipeline was launched for an id. -/
def Launched (e : Engine) (id : String) : Prop := id ∈ e.pipelines.map Pipeline.session

/-- Pipelines were launched for stored sessions. The holder of the lock is one of
these, and none of the others still runs. -/
structure Watched (e : Engine) : Prop where
  sound : e.Sound
  stored : ∀ id, e.Launched id → ∃ s, e.backend.records.shelf.session id = some s
  guarded : e.backend.records.shelf.Guarded e.Launched
  launched : ∀ id, e.backend.records.shelf.holder = some id → e.Launched id

/-- What stays true of a service that is not shut down, on storage that does not
fail. -/
structure Tended (e : Engine) : Prop extends e.Watched where
  quiet : e.backend.faults = {}
  going : e.stopping = false
  attended : ∀ id s, e.backend.records.shelf.holder = some id →
    e.backend.records.shelf.session id = some s → e.CanOpen s →
    ∃ p ∈ e.pipelines, p.session = id ∧ p.stage.Attends s

variable {e e' : Engine} {ev : Event} {c : Change} {id : String} {s s' : Session}

/-- Pipelines are launched for the sessions that the lock is taken for. -/
theorem Effect.launched (h : Effect e ev c e') :
    e'.pipelines.map Pipeline.session =
      e.pipelines.map Pipeline.session ++ c.acquired?.toList := by
  cases h with
  | quiet free still mild pipelines => cases mild <;> simp [pipelines, Change.acquired?]
  | started _ _ _ _ _ pipelines =>
    rw [pipelines, List.map_append]
    rfl
  | restored pipelines =>
    rw [pipelines, List.map_append]
    rfl
  | @moved m p i stage stage' c e' h =>
    rw [h.pipelines, h.step.acquired?.1, Option.toList_none, List.append_nil, List.map_set]
    apply List.ext_getElem?
    intro j
    rw [List.getElem?_set]
    split_ifs with hj hlt
    · rw [← hj, List.getElem?_map, h.found]
      rfl
    · rw [← hj, List.getElem?_eq_none (Nat.le_of_not_lt hlt)]
    · rfl

/-- The pipeline that is launched begins by opening its session. -/
theorem Effect.opens (h : Effect e ev c e') (acquired : c.acquired? = some id) :
    ⟨id, .opening⟩ ∈ e'.pipelines := by
  cases h with
  | quiet free still mild => cases mild <;> cases acquired
  | started _ _ _ _ _ pipelines =>
    cases acquired
    rw [pipelines]
    exact List.mem_append_right _ List.mem_cons_self
  | restored pipelines =>
    cases acquired
    rw [pipelines]
    exact List.mem_append_right _ List.mem_cons_self
  | moved h =>
    rw [h.step.acquired?.1] at acquired
    cases acquired

/-- A pipeline that an event does not move stays where it is. -/
theorem Step.pipeline_kept (h : e.Sound) (step : Step e ev e') {q : Nat} {x : Pipeline}
    (others : ∀ m, ev = .move m → m.pipeline? ≠ some q) (found : e.pipelines[q]? = some x) :
    e'.pipelines[q]? = some x := by
  have kept {id : String} (hp : e'.pipelines = e.pipelines ++ [⟨id, .opening⟩]) :
      e'.pipelines[q]? = some x := by
    obtain ⟨hlt, -⟩ := List.getElem?_eq_some_iff.1 found
    rw [hp, List.getElem?_append_left hlt, found]
  obtain ⟨c, effect⟩ := h.effect step
  cases effect with
  | quiet _ _ _ pipelines => rw [pipelines, found]
  | started _ _ _ _ _ pipelines => exact kept pipelines
  | restored pipelines => exact kept pipelines
  | @moved m p i stage stage' c e' moved =>
    cases step with
    | move hm =>
      cases acts : m.pipeline? with
      | none =>
        obtain ⟨-, counters, rfl⟩ := counted_step acts hm
        exact found
      | some p' =>
        obtain ⟨i', st, c', st', moved⟩ := moved_at h.filed h.now acts hm
        rw [moved.pipelines, List.getElem?_set_ne, found]
        rintro rfl
        exact others m rfl acts

/-- The pipeline that attends to the holder of the lock goes on to do so. -/
theorem Tended.attended_step (h : e.Tended) (step : Step e ev e')
    (held : e.backend.records.shelf.holder = some id)
    (held' : e'.backend.records.shelf.holder = some id)
    (found' : e'.backend.records.shelf.session id = some s') (opens' : e'.CanOpen s') :
    ∃ p ∈ e'.pipelines, p.session = id ∧ p.stage.Attends s' := by
  obtain ⟨c, effect⟩ := h.sound.effect step
  obtain ⟨s, found, running⟩ := h.guarded.held id held
  have change := effect.records.2.session_of_held held held' found
  rw [found'] at change
  have opens : e.CanOpen s := by
    rcases change with hs | ⟨part, size, hs⟩
    · cases hs
      exact ⟨opens'.layable, effect.settings ▸ opens'.fits⟩
    · cases hs
      exact ((Session.grown_confirm s part size).canOpen_iff effect.settings).1 opens'
  obtain ⟨⟨i, stage⟩, hmem, hi, attends⟩ := h.attended id s held found opens
  cases hi
  obtain ⟨q, hq⟩ := List.getElem?_of_mem hmem
  by_cases acts : ∃ m, ev = .move m ∧ m.pipeline? = some q
  · -- The pipeline itself moves.
    obtain ⟨m, rfl, acts⟩ := acts
    cases h.sound.filed.id_eq found
    have serves : e.Serves q s stage :=
      { found := hq, holds := ⟨h.quiet, h.sound.filed, found⟩, clock := h.sound.now, running }
    cases step with
    | move hm =>
    obtain ⟨c, stage', strode⟩ := serves.step (fun j hj => by subst hj; exact attends) acts hm
    have mem : ⟨s.id, stage'⟩ ∈ e'.pipelines := by
      rw [strode.pipelines]
      exact List.mem_set (List.getElem?_eq_some_iff.1 hq).1 _
    have took := strode.records.2
    rcases strode.stride.attended h.going opens attends with
      ⟨status, error, now, rfl⟩ | ⟨rfl, attends'⟩ | ⟨part, size, rfl, attends'⟩
    · rw [took.freed held] at held'
      cases held'
    · rw [took.kept, found] at found'
      cases found'
      exact ⟨_, mem, rfl, attends'⟩
    · rw [took.confirmed found] at found'
      cases found'
      exact ⟨_, mem, rfl, attends'⟩
  · refine ⟨⟨i, stage⟩, List.mem_of_getElem? (step.pipeline_kept h.sound (fun m hm ha => ?_) hq),
      rfl, ?_⟩
    · exact acts ⟨m, hm, ha⟩
    · rcases change with hs | ⟨part, size, hs⟩
      · cases hs
        exact attends
      · cases hs
        exact attends.confirm part size

/-- A service that was just created has launched nothing, and the lock is free. -/
theorem unlaunched_of_create {t : ExportSettings} {b b' : Backend} {now : Instant} {files : Files}
    (create : create t b now files = (.ok e, b')) (id : String) :
    ¬ e.Launched id ∧ e.backend.records.shelf.holder ≠ some id := by
  obtain ⟨-, -, -, none_yet, -, -, free, -⟩ := created create
  rw [Launched, none_yet, free]
  exact ⟨List.not_mem_nil, nofun⟩

theorem watched_of_create {t : ExportSettings} {b b' : Backend} {now : Instant} {files : Files}
    (clock : now.Valid) (pages : t.pageSize ≤ Numeral.maxUInt64)
    (create : create t b now files = (.ok e, b')) : e.Watched where
  sound := sound_of_create clock pages create
  stored id hid := absurd hid (unlaunched_of_create create id).1
  guarded := ⟨fun id hid => absurd hid (unlaunched_of_create create id).2,
    fun id _ hid => absurd hid (unlaunched_of_create create id).1⟩
  launched id hid := absurd hid (unlaunched_of_create create id).2

theorem tended_of_create {t : ExportSettings} {b b' : Backend} {now : Instant} {files : Files}
    (clock : now.Valid) (pages : t.pageSize ≤ Numeral.maxUInt64) (quiet : b.faults = {})
    (create : create t b now files = (.ok e, b')) : e.Tended := by
  obtain ⟨going, calm⟩ := calm_create create
  exact
    { watched_of_create clock pages create with
      quiet := calm quiet, going
      attended := fun id _ hid => absurd hid (unlaunched_of_create create id).2 }

/-- Pipelines are launched for the holders of the lock. -/
theorem Effect.launched_iff (h : Effect e ev c e') :
    e'.Launched id ↔ e.Launched id ∨ c.acquired? = some id := by
  simp only [Launched, h.launched, List.mem_append, Option.mem_toList]

theorem Watched.step (h : e.Watched) (step : Step e ev e') : e'.Watched := by
  obtain ⟨c, effect⟩ := h.sound.effect step
  have took := effect.records.2
  have guarded' := h.guarded.step took effect.acquired?.2 fun id => effect.launched_iff.1
  refine
    { sound := h.sound.step step, stored := fun id hid => ?_, guarded := guarded'
      launched := fun id held' => effect.launched_iff.2 ?_ }
  · rcases effect.launched_iff.1 hid with hid | acquired
    · obtain ⟨s, found⟩ := h.stored id hid
      exact Option.isSome_iff_exists.1
        ((took.isSome_session id).2 (.inl (Option.isSome_iff_exists.2 ⟨s, found⟩)))
    · obtain ⟨s, found, -⟩ := guarded'.held id (took.free_of_acquired acquired).2
      exact ⟨s, found⟩
  · exact (took.held_before held').imp_left (h.launched id)

theorem Watched.run {evs : List Event} (h : e.Watched) (run : Run e evs e') : e'.Watched := by
  induction run with
  | nil => exact h
  | cons step _ ih => exact ih (h.step step)

theorem Tended.step (h : e.Tended) (step : Step e ev e') (going : ev ≠ .shutdown)
    (unplanned : ∀ plan, ev ≠ .faults plan) : e'.Tended := by
  obtain ⟨c, effect⟩ := h.sound.effect step
  have calm := step.calm going unplanned
  refine
    { h.toWatched.step step with
      quiet := calm.quiet h.quiet, going := calm.stopping.trans h.going
      attended := fun id s' held' found' opens' => ?_ }
  rcases effect.records.2.held_before held' with held | acquired
  · exact h.attended_step step held held' found' opens'
  · exact ⟨⟨id, .opening⟩, effect.opens acquired, rfl, trivial⟩

/-- An event that neither shuts the service down nor makes storage fail. -/
def Event.IsCalm (ev : Event) : Prop := ev ≠ .shutdown ∧ ∀ plan, ev ≠ .faults plan

theorem Tended.run {evs : List Event} (h : e.Tended) (run : Run e evs e')
    (calm : ∀ ev ∈ evs, ev.IsCalm) : e'.Tended := by
  induction run with
  | nil => exact h
  | cons step _ ih =>
    have first := calm _ List.mem_cons_self
    exact ih (h.step step first.1 first.2) fun ev hev => calm ev (List.mem_cons_of_mem _ hev)

/-- Pipelines were launched for the ids that the lock was taken for. -/
theorem Sound.launched_run {evs : List Event} (h : e.Sound) (run : Run e evs e') :
    e'.Launched id ↔ e.Launched id ∨ ∃ ev ∈ evs, ev.acquired? = some id := by
  induction run with
  | nil => simp
  | cons step _ ih =>
    obtain ⟨c, effect⟩ := h.effect step
    rw [ih (h.step step)]
    simp only [Launched, effect.launched, List.mem_append, Option.mem_toList,
      effect.acquired?.1.symm, List.mem_cons, exists_eq_or_imp]
    exact or_assoc

/-- When no pipeline is running, only a session that cannot be opened holds the
lock. -/
theorem Tended.not_canOpen (h : e.Tended) (idle : e.isIdle = true)
    (held : e.backend.records.shelf.holder = some id)
    (found : e.backend.records.shelf.session id = some s) : ¬ e.CanOpen s := by
  intro opens
  obtain ⟨p, hp, -, attends⟩ := h.attended id s held found opens
  have ended := List.all_eq_true.1 idle p hp
  rw [attends.going] at ended
  cases ended

/-- The lock is leaked exactly by sessions that cannot be opened: their tasks cannot be
laid out, or the queue is set to a size beyond what can be made. In every run of a
service that is not shut down, on storage that does not fail, whatever the search
service and the file store answer, when no pipeline is running
(a) every session that was started or restored has ended, or it runs, holds the
lock, and cannot be opened;
(b) the lock is free exactly if none of them runs that cannot be opened;
(c) if the lock is free, every start whose session can be prepared works out. -/
theorem idle_frees_lock {t : ExportSettings} {b b' : Backend} {now : Instant} {files : Files}
    {e₀ : Engine} {evs : List Event} (clock : now.Valid) (pages : t.pageSize ≤ Numeral.maxUInt64)
    (quiet : b.faults = {}) (create : create t b now files = (.ok e₀, b')) (run : Run e₀ evs e)
    (calm : ∀ ev ∈ evs, ev.IsCalm) (idle : e.isIdle = true) :
    (∀ ev ∈ evs, ∀ id, ev.acquired? = some id →
      ∃ s, e.backend.records.shelf.session id = some s ∧ (s.status.isTerminal = true ∨
        s.status = .start ∧ ¬ e.CanOpen s ∧ e.backend.records.shelf.holder = some id)) ∧
    (e.backend.records.get? SessionKey.lock = none ↔
      ∀ ev ∈ evs, ∀ id s, ev.acquired? = some id →
        e.backend.records.shelf.session id = some s → s.status = .start → e.CanOpen s) ∧
    (e.backend.records.get? SessionKey.lock = none →
      ∀ user r s, e.prepare user r = some (.ok s) →
        ∃ e', e.start user r = some (.ok s.id, e')) := by
  have tended₀ := tended_of_create clock pages quiet create
  have tended := tended₀.run run calm
  have launched {id : String} : e.Launched id ↔ ∃ ev ∈ evs, ev.acquired? = some id := by
    rw [tended₀.sound.launched_run run]
    refine or_iff_right fun before => ?_
    rw [Launched, (created create).2.2.2.1] at before
    cases before
  refine ⟨fun ev hev id acquired => ?_, ?_, fun free user r s prepared => ?_⟩
  · have hid := launched.2 ⟨ev, hev, acquired⟩
    obtain ⟨s, found⟩ := tended.stored id hid
    refine ⟨s, found, ?_⟩
    by_cases running : s.status = .start
    · have held := tended.guarded.sole id s hid found running
      exact .inr ⟨running, tended.not_canOpen idle held found, held⟩
    · left
      cases hs : s.status <;> first | rfl | exact absurd hs running
  · rw [← tended.sound.filed.free_iff]
    constructor
    · intro free ev hev id s acquired found running
      have held := tended.guarded.sole id s (launched.2 ⟨ev, hev, acquired⟩) found running
      rw [free] at held
      cases held
    · intro opens
      cases held : e.backend.records.shelf.holder with
      | none => rfl
      | some id =>
        obtain ⟨ev, hev, acquired⟩ := launched.1 (tended.launched id held)
        obtain ⟨s, found, running⟩ := tended.guarded.held id held
        exact absurd (opens ev hev id s acquired found running)
          (tended.not_canOpen idle held found)
  · exact start_quiet prepared tended.quiet free

/-- Only ranges that begin with the calendar, or whose bounds change when they are
stored, leave sessions that cannot be laid out. -/
theorem Effect.layable {user : Option String} {r : ExportRequest} {lo hi : Instant}
    (h : Effect e (.start user r (.ok id)) c e') (clock : e.now.Valid)
    (quiet : e'.backend.faults = {}) (pages : 0 < e.settings.pageSize)
    (bounds : e.settings.partLength.normalize? r.start r.stop = some (lo, hi))
    (kept : lo.reread = lo ∧ hi.reread = hi) (room : lo.HasRoom e.settings.partLength.step) :
    ∃ s, e'.backend.records.shelf.session id = some s ∧ s.Layable := by
  obtain ⟨s, tasks, at', rfl, -, -, laidOut, -⟩ := h.lays_out clock quiet pages bounds kept room
  exact ⟨s, at'.holds.stored, (missing_of_tasks? laidOut).2⟩

/-- A pipeline whose tasks cannot be laid out leaves all as it is. -/
theorem Serves.strands {p : Nat} (h : e.Serves p s .opening) (unlaid : ¬ s.Layable) :
    ∃ e' stage, e.step? (.advance p) = some e' ∧ stage.isEnded = true ∧
      e'.pipelines = e.pipelines.set p ⟨s.id, stage⟩ ∧
      e'.backend.records.shelf = e.backend.records.shelf := by
  have step : e.step? (.advance p) = some (e.openSession p s.id) := by
    simp only [step?, advance?, h.found]
  obtain ⟨c, stage, strode⟩ := h.step (by rintro _ ⟨⟩) rfl step
  refine ⟨_, stage, step, ?_⟩
  have took := strode.records.2
  cases strode.stride with
  | opened laidOut => exact absurd (missing_of_tasks? laidOut).2 unlaid
  | unopened _ ended => exact ⟨ended, strode.pipelines, took.kept⟩
  | overfull => exact ⟨rfl, strode.pipelines, took.kept⟩

/-- The first hour and a half of the calendar, up to a full hour on a clock half
an hour ahead. -/
def dawn : ExportRequest :=
  { name := "dawn", query := "*", start := ⟨⟨Instant.earliest, 0⟩, 0⟩,
    stop := ⟨⟨Instant.earliest + 5400, 0⟩, 1800⟩, window := .ofSecs 600 }

/-- The second part of it would begin before the calendar. -/
theorem not_layable_of_dawn (h : s.start = ⟨Instant.earliest, 0⟩)
    (h' : s.stop = ⟨Instant.earliest + 5400, 0⟩) (length : s.partLength = .ofSecs 3600) :
    ¬ s.Layable := by
  rintro ⟨ps, parts, -⟩
  have never : partitions? ⟨Instant.earliest, 0⟩ ⟨Instant.earliest + 5400, 0⟩ (.ofSecs 3600) =
      none := by decide
  rw [Session.parts?, h, h', length, never] at parts
  cases parts

/-- The sample leaks the lock. -/
theorem idle_frees_lock_dawn :
    ∃ e₀ b e₁ e₂ id s, create hourly {} newYear { linkBase := "" } = (.ok e₀, b) ∧
      Run e₀ [.start none dawn (.ok id), .move (.advance 0)] e₂ ∧
      Step e₀ (.start none dawn (.ok id)) e₁ ∧ e₂.isIdle = true ∧
      e₂.backend.records.shelf.session id = some s ∧ s.status = .start ∧
      e₂.backend.records.get? SessionKey.lock ≠ none := by
  obtain ⟨e₀, b, e₁, id, created, start, quiet, pipelines, bounds, length⟩ :
      ∃ e₀ b e₁ id, create hourly {} newYear { linkBase := "" } = (.ok e₀, b) ∧
        Step e₀ (.start none dawn (.ok id)) e₁ ∧ e₁.backend.faults = {} ∧
        e₁.pipelines = [⟨id, .opening⟩] ∧
        e₀.settings.partLength.normalize? dawn.start dawn.stop =
          some (⟨Instant.earliest, 0⟩, ⟨Instant.earliest + 5400, 0⟩) ∧
        e₀.settings.partLength.length = .ofSecs 3600 :=
    ⟨_, _, _, _, rfl, .start ⟨by decide, by decide⟩ rfl, rfl, rfl, by decide, rfl⟩
  have sound := sound_of_create (by decide) (by decide) created
  obtain ⟨c, effect⟩ := sound.effect start
  obtain ⟨s, found, running, unlaid⟩ : ∃ s, e₁.backend.records.shelf.session id = some s ∧
      s.status = .start ∧ ¬ s.Layable := by
    cases effect with
    | quiet free => cases free
    | @started _ name _ lo hi parts _ allowed exact sound bounds' count pipelines files settings now
        records =>
      rw [bounds] at bounds'
      cases bounds'
      have first : Instant.reread ⟨Instant.earliest, 0⟩ = ⟨Instant.earliest, 0⟩ := by decide
      have last : Instant.reread ⟨Instant.earliest + 5400, 0⟩ = ⟨Instant.earliest + 5400, 0⟩ := by
        decide
      exact ⟨_, records.2.started, rfl,
        not_layable_of_dawn first last ((PartLength.stored_length _).trans length)⟩
  cases (sound.step start).filed.id_eq found
  have serves : e₁.Serves 0 s .opening :=
    { found := by rw [pipelines]; rfl
      holds := ⟨quiet, (sound.step start).filed, found⟩, clock := (sound.step start).now, running }
  obtain ⟨e₂, stage, step, ended, pipelines₂, shelf⟩ := serves.strands unlaid
  have run : Run e₀ [.start none dawn (.ok s.id), .move (.advance 0)] e₂ :=
    .cons start (.cons (.move step) (.nil e₂))
  have idle : e₂.isIdle = true := by
    rw [isIdle, pipelines₂, pipelines]
    simp [ended]
  have found₂ : e₂.backend.records.shelf.session s.id = some s := by rw [shelf, found]
  obtain ⟨-, free_iff, -⟩ := idle_frees_lock (by decide) (by decide) rfl created run
    (fun ev hev => by
      simp only [List.mem_cons, List.not_mem_nil, or_false] at hev
      rcases hev with rfl | rfl <;> exact ⟨nofun, nofun⟩) idle
  refine ⟨e₀, b, e₁, e₂, s.id, s, created, run, start, idle, found₂, running, fun free => ?_⟩
  exact unlaid (free_iff.1 free _ List.mem_cons_self s.id s rfl found₂ running).layable

end Engine

end LogExport
