import LogExport.Proofs.Service.Runs

/-! The lock excludes. It names a session that runs as long as it is held, it
changes hands only after its holder has ended, and a pipeline that works for
a session that runs works for the holder. -/

namespace LogExport

open Access

/-- The session for which a change takes the lock. -/
def Change.acquired? : Change → Option String
  | start s => some s.id
  | restore id => some id
  | _ => none

namespace Shelf

/-- The session under an id has ended. -/
def HasLeft (v : Shelf) (id : String) : Prop := ∃ s, v.session id = some s ∧ s.status ≠ .start

/-- The lock is held for a session that runs. Of the sessions for which
pipelines are at work, only the holder still runs. -/
structure Guarded (v : Shelf) (atWork : String → Prop) : Prop where
  held : ∀ id, v.holder = some id → ∃ s, v.session id = some s ∧ s.status = .start
  sole : ∀ id s, atWork id → v.session id = some s → s.status = .start → v.holder = some id

variable {v v' : Shelf} {c : Change} {atWork atWork' : String → Prop}

theorem Step.free_of_acquired {id : String} (h : v.Step c v') (ha : c.acquired? = some id) :
    v.holder = none ∧ v'.holder = some id := by
  cases h with
  | start _ free =>
    cases ha
    exact ⟨free, rfl⟩
  | restore _ _ free =>
    cases ha
    exact ⟨free, rfl⟩
  | _ => cases ha

theorem Step.of_restore {id : String} (h : v.Step (.restore id) v') :
    (∃ s, v.session id = some s ∧ s.status = .start) ∧ v.holder = none := by
  cases h with
  | restore found running free => exact ⟨⟨_, found, running⟩, free⟩

/-- Only the sessions of new pipelines may begin to be worked on, and the lock
is taken for them. -/
theorem Guarded.step (h : v.Guarded atWork) (step : v.Step c v') (locked : c ≠ .unlock)
    (new : ∀ id, atWork' id → atWork id ∨ c.acquired? = some id) : v'.Guarded atWork' := by
  have old : c.acquired? = none → ∀ id, atWork' id → atWork id := by
    intro hc id hw
    rcases new id hw with hw | ha
    · exact hw
    · rw [hc] at ha
      cases ha
  cases step with
  | keep => exact ⟨h.held, fun id s hw => h.sole id s (old rfl id hw)⟩
  | @start t running free =>
    refine ⟨?_, fun id s hw hs hst => ?_⟩
    · rintro _ ⟨⟩
      exact ⟨t, Function.update_self .., running⟩
    · rcases new id hw with hw | ⟨⟨⟩⟩
      · by_cases hid : id = t.id
        · rw [hid]
        · dsimp only at hs
          rw [Function.update_of_ne hid] at hs
          rw [h.sole id s hw hs hst] at free
          cases free
      · rfl
  | @restore i t found running free =>
    refine ⟨?_, fun id s hw hs hst => ?_⟩
    · rintro _ ⟨⟩
      exact ⟨t, found, running⟩
    · rcases new id hw with hw | ⟨⟨⟩⟩
      · rw [h.sole id s hw hs hst] at free
        cases free
      · rfl
  | @release i t found ended held =>
    refine ⟨fun _ hi => (by cases hi), fun id s hw hs hst => ?_⟩
    have hid := h.sole id s (old rfl id hw) hs hst
    rw [held] at hid
    cases hid
    rw [found] at hs
    cases hs
    exact absurd hst ended
  | @conclude i t status error now found running ends =>
    refine ⟨fun id hi => ?_, fun id s hw hs hst => ?_⟩
    · dsimp only at hi ⊢
      split at hi
      · cases hi
      · next hne =>
        have hid : id ≠ i := fun he => hne (he ▸ hi)
        rw [Function.update_of_ne hid]
        exact h.held id hi
    · dsimp only at hs ⊢
      by_cases hid : id = i
      · rw [hid, Function.update_self] at hs
        cases hs
        exact absurd hst ends
      · rw [Function.update_of_ne hid] at hs
        have hold := h.sole id s (old rfl id hw) hs hst
        rw [hold, if_neg fun he => hid (Option.some.inj he)]
  | @confirm i t part size found missing =>
    refine ⟨fun id hi => ?_, fun id s hw hs hst => ?_⟩
    · dsimp only at hi ⊢
      obtain ⟨s, hs, hst⟩ := h.held id hi
      by_cases hid : id = i
      · subst hid
        rw [found] at hs
        cases hs
        exact ⟨_, Function.update_self .., hst⟩
      · exact ⟨s, by rw [Function.update_of_ne hid, hs], hst⟩
    · dsimp only at hs ⊢
      by_cases hid : id = i
      · subst hid
        rw [Function.update_self] at hs
        cases hs
        exact h.sole id t (old rfl id hw) found hst
      · rw [Function.update_of_ne hid] at hs
        exact h.sole id s (old rfl id hw) hs hst
  | unlock => exact absurd rfl locked

/-- The holder keeps the lock until it has ended, and having ended it stays
so until the lock is taken again. -/
theorem Step.held_or_left {id : String} (step : v.Step c v') (locked : c ≠ .unlock)
    (hc : c.acquired? = none) (h : v.holder = some id ∨ v.HasLeft id) :
    v'.holder = some id ∨ v'.HasLeft id := by
  cases step with
  | keep => exact h
  | start => cases hc
  | restore => cases hc
  | @release i t found ended held =>
    rcases h with h | h
    · rw [held] at h
      cases h
      exact .inr ⟨t, found, ended⟩
    · exact .inr h
  | @conclude i t status error now found running ends =>
    by_cases hid : id = i
    · subst hid
      exact .inr ⟨_, Function.update_self .., ends⟩
    · rcases h with h | ⟨s, hs, hst⟩
      · left
        dsimp only
        rw [if_neg fun he => hid (Option.some.inj (h.symm.trans he)), h]
      · exact .inr ⟨s, by rw [← hs]; exact Function.update_of_ne hid .., hst⟩
  | @confirm i t part size found missing =>
    rcases h with h | ⟨s, hs, hst⟩
    · exact .inl h
    · right
      by_cases hid : id = i
      · subst hid
        rw [found] at hs
        cases hs
        exact ⟨_, Function.update_self .., hst⟩
      · exact ⟨s, by rw [← hs]; exact Function.update_of_ne hid .., hst⟩
  | unlock => exact absurd rfl locked

end Shelf

section Stages

variable {v : Shelf} {files : Files} {id : String} {stage stage' : PipelineStage} {c : Change}
  {deed : Option Deed}

theorem Change.GivesUp.acquired? (h : c.GivesUp id) : c.acquired? = none ∧ c ≠ .unlock := by
  cases h <;> exact ⟨rfl, Change.noConfusion⟩

/-- A pipeline that has ended takes no step. -/
theorem PipelineStep.going (h : PipelineStep v files id stage c deed stage') :
    stage.isEnded = false := by
  cases h with
  | lost going _ _ => exact going
  | _ => rfl

/-- Pipelines do not take the lock. -/
theorem PipelineStep.acquired? (h : PipelineStep v files id stage c deed stage') :
    c.acquired? = none ∧ c ≠ .unlock := by
  cases h with
  | worked _ works =>
    cases works with
    | lost h _ => exact h.acquired?
    | _ => exact ⟨rfl, Change.noConfusion⟩
  | unfinished h => exact h.acquired?
  | lost _ h _ => exact h.acquired?
  | _ => exact ⟨rfl, Change.noConfusion⟩

end Stages

namespace Engine

/-- A pipeline is at work for a session. -/
def Working (e : Engine) (id : String) : Prop :=
  ∃ p ∈ e.pipelines, p.session = id ∧ p.stage.isEnded = false

/-- The same service where an id holds the lock. -/
def locked (e : Engine) (id : String) : Engine :=
  { e with backend.records := e.backend.records.insert SessionKey.lock (Utf8.encode id) }

section Events

variable {e e' : Engine} {ev : Event} {c : Change}

/-- An accepted start leaves a session that runs and holds the lock. -/
theorem Effect.holds_of_start {user : Option String} {r : ExportRequest} {id : String}
    (h : Effect e (.start user r (.ok id)) c e') :
    e'.backend.records.Filed ∧ e'.backend.records.shelf.holder = some id ∧
      ∃ s, e'.backend.records.shelf.session id = some s ∧ s.status = .start := by
  cases h with
  | quiet free => cases free
  | started _ _ _ _ _ _ _ _ _ records =>
    exact ⟨records.1, (records.2.free_of_acquired rfl).2, _, records.2.started, rfl⟩

theorem Effect.acquired? (h : Effect e ev c e') : ev.acquired? = c.acquired? ∧ c ≠ .unlock := by
  cases h with
  | quiet free still mild => cases mild <;> exact ⟨free, Change.noConfusion⟩
  | started => exact ⟨rfl, Change.noConfusion⟩
  | restored => exact ⟨rfl, Change.noConfusion⟩
  | moved h => exact ⟨h.step.acquired?.1.symm, h.step.acquired?.2⟩

/-- A pipeline begins its work only when the lock is taken for its session. -/
theorem Effect.working (h : Effect e ev c e') {id : String} (hw : e'.Working id) :
    e.Working id ∨ c.acquired? = some id := by
  have launched {i : String} (hp : e'.pipelines = e.pipelines ++ [⟨i, .opening⟩]) :
      e.Working id ∨ i = id := by
    obtain ⟨p, hmem, hid, hgo⟩ := hw
    rw [hp, List.mem_append, List.mem_singleton] at hmem
    rcases hmem with hmem | rfl
    · exact .inl ⟨p, hmem, hid, hgo⟩
    · exact .inr hid
  cases h with
  | quiet _ _ _ pipelines =>
    rw [Working, pipelines] at hw
    exact .inl hw
  | started _ _ _ _ _ pipelines => exact (launched pipelines).imp_right (congrArg some)
  | restored pipelines => exact (launched pipelines).imp_right (congrArg some)
  | @moved m k i stage stage' c e' h =>
    obtain ⟨p, hmem, hid, hgo⟩ := hw
    rw [h.pipelines] at hmem
    rcases List.mem_or_eq_of_mem_set hmem with hmem | rfl
    · exact .inl ⟨p, hmem, hid, hgo⟩
    · exact .inl ⟨_, List.mem_of_getElem? h.found, hid, h.step.going⟩

/-- What stays true of a service while it is the only one on its storage. -/
structure Sound (e : Engine) : Prop where
  filed : e.backend.records.Filed
  now : e.now.Valid
  pageSize : e.settings.pageSize ≤ Numeral.maxUInt64
  guarded : e.backend.records.shelf.Guarded e.Working

theorem Sound.effect (h : e.Sound) (step : Step e ev e') : ∃ c, Effect e ev c e' :=
  step.effect h.filed h.now h.pageSize

theorem Sound.step (h : e.Sound) (step : Step e ev e') : e'.Sound := by
  obtain ⟨c, he⟩ := h.effect step
  exact
    { filed := he.records.1
      now := he.now h.now
      pageSize := he.settings ▸ h.pageSize
      guarded := h.guarded.step he.records.2 he.acquired?.2 fun _ => he.working }

theorem Sound.run {evs : List Event} (h : e.Sound) (run : Run e evs e') : e'.Sound := by
  induction run with
  | nil => exact h
  | cons step _ ih => exact ih (h.step step)

/-- An engine that could be created begins with readable sessions and a free
lock. -/
theorem created {s : ExportSettings} {b b' : Backend} {now : Instant} {files : Files}
    (h : create s b now files = (.ok e, b')) :
    e.backend = b' ∧ e.now = now ∧ e.files = files ∧ e.pipelines = [] ∧
      e.settings.pageSize = s.pageSize ∧ e.backend.records.Filed ∧
      e.backend.records.shelf.holder = none ∧
      e.backend.records = b.records.write SessionStore.dropLock := by
  unfold create at h
  split at h
  · cases h
  next partLength hv =>
  rcases hg : (do
      SessionStore.unlock
      let _ ← SessionStore.all : Access Unit).run.run b with ⟨r, b₁⟩
  simp only [access, hg] at h
  cases r with
  | error err => cases h
  | ok _ =>
    cases h
    rcases gives_bind.1 hg with ⟨_, _, he⟩ | ⟨_, b₂, hu, hg⟩
    · cases he
    rcases SessionStore.gives_unlock hu with ⟨_, he, -⟩ | ⟨-, hb₂⟩
    · cases he
    rcases gives_bind.1 hg with ⟨_, _, he⟩ | ⟨ss, b₃, ha, hg⟩
    · cases he
    obtain ⟨-, rfl⟩ := gives_pure.1 hg
    obtain ⟨hb₁, hall⟩ := SessionStore.gives_all ha
    have hrec : b'.records = b.records.write SessionStore.dropLock := hb₁.trans hb₂
    have hlock : b'.records.get? SessionKey.lock = none := by
      rw [hrec]
      simp only [KeyMap.write, SessionStore.dropLock, KeyMap.get?_erase, if_true]
    refine ⟨rfl, rfl, rfl, rfl, rfl, ⟨?_, ?_⟩, ?_, hrec⟩
    · intro id bs hbs
      exact hall ss rfl id bs (hb₁ ▸ hbs)
    · intro bs hbs
      rw [hlock] at hbs
      cases hbs
    · show b'.records.shelf.holder = none
      rw [hrec, KeyMap.shelf_dropLock]

theorem sound_of_create {s : ExportSettings} {b b' : Backend} {now : Instant} {files : Files}
    (hn : now.Valid) (hp : s.pageSize ≤ Numeral.maxUInt64)
    (h : create s b now files = (.ok e, b')) : e.Sound := by
  obtain ⟨-, rfl, -, hpipes, hpage, filed, free, -⟩ := created h
  refine ⟨filed, hn, hpage ▸ hp, fun id hid => ?_, ?_⟩
  · rw [free] at hid
    cases hid
  · rintro id s ⟨p, hmem, -⟩
    rw [hpipes] at hmem
    cases hmem

/-- Who has taken the lock has ended before it is taken again. -/
theorem Sound.left_before_next {e₁ e₂ : Engine} {id next : String} {evs : List Event}
    (h : e.Sound)
    (taken : e.backend.records.shelf.holder = some id ∨ e.backend.records.shelf.HasLeft id)
    (run : Run e evs e₁) (step : Step e₁ ev e₂) (ha : ev.acquired? = some next) :
    ∃ before after mid, evs = before ++ after ∧ (∀ x ∈ before, x.acquired? = none) ∧
      Run e before mid ∧ Run mid after e₁ ∧ mid.backend.records.shelf.HasLeft id := by
  have left {e e' : Engine} {x : Event} {i : String} (h : e.Sound) (step : Step e x e')
      (ha : x.acquired? = some i)
      (taken : e.backend.records.shelf.holder = some id ∨ e.backend.records.shelf.HasLeft id) :
      e.backend.records.shelf.HasLeft id := by
    obtain ⟨c, he⟩ := h.effect step
    have free := he.records.2.free_of_acquired (he.acquired?.1 ▸ ha)
    rcases taken with held | left
    · rw [free.1] at held
      cases held
    · exact left
  induction run with
  | nil e =>
    exact ⟨[], [], e, rfl, by simp, .nil e, .nil e, left h step ha taken⟩
  | @cons e e' e₁ x evs hx rest ih =>
    cases hax : x.acquired? with
    | some i => exact ⟨[], x :: evs, e, rfl, by simp, .nil e, .cons hx rest, left h hx hax taken⟩
    | none =>
      obtain ⟨c, he⟩ := h.effect hx
      have taken' := he.records.2.held_or_left he.acquired?.2 (he.acquired?.1 ▸ hax) taken
      obtain ⟨before, after, mid, hevs, hbefore, hrun, hrest, hleft⟩ := ih (h.step hx) taken' step
      refine ⟨x :: before, after, mid, by rw [hevs]; rfl, ?_, .cons hx hrun, hrest, hleft⟩
      intro y hy
      rcases List.mem_cons.1 hy with rfl | hy
      · exact hax
      · exact hbefore y hy

/-- On storage that does not fail, a restore works out exactly if the session
runs and the lock is free, and then it takes the lock. -/
theorem Sound.restore {user : Option String} {name id : String} (h : e.Sound)
    (allowed : e.authorize user = .ok name) (quiet : e.backend.faults = {}) :
    ((e.restore user id).1 = .ok () ↔
      (∃ s, e.backend.records.shelf.session id = some s ∧ s.status = .start) ∧
        e.backend.records.get? SessionKey.lock = none) ∧
    ((e.restore user id).1 = .ok () → (e.restore user id).2 = (e.locked id).begin id) := by
  have works {s : Session} (found : e.backend.records.shelf.session id = some s)
      (running : s.status = .start) (free : e.backend.records.get? SessionKey.lock = none) :
      e.restore user id = (.ok (), (e.locked id).begin id) := by
    simp only [Engine.restore, allowed,
      access_eq (SessionStore.lockForRestore_quiet quiet found running free)]
    rfl
  have fits (ok : (e.restore user id).1 = .ok ()) :
      (∃ s, e.backend.records.shelf.session id = some s ∧ s.status = .start) ∧
        e.backend.records.get? SessionKey.lock = none := by
    obtain ⟨c, he, -⟩ := effect_restore h.filed (Prod.ext ok rfl : e.restore user id = (.ok (), _))
    cases he with
    | quiet free => cases free
    | restored _ _ _ _ records =>
      obtain ⟨found, free⟩ := records.2.of_restore
      exact ⟨found, h.filed.free_iff.1 free⟩
  refine ⟨⟨fits, fun ⟨⟨s, found, running⟩, free⟩ => by rw [works found running free]⟩, fun ok => ?_⟩
  obtain ⟨⟨s, found, running⟩, free⟩ := fits ok
  rw [works found running free]

end Events

/-- The sample can be started, cancelled and started again in one millisecond. -/
theorem audit_can_repeat :
    ∃ e₀ b e₁ e₂ e₃ s, create hourly {} newYear { linkBase := "" } = (.ok e₀, b) ∧
      Step e₀ (.start none audit (.ok auditId)) e₁ ∧
      Step e₁ (.cancel none auditId (.ok ())) e₂ ∧
      Step e₂ (.start none audit (.ok auditId)) e₃ ∧ e₂.now = newYear ∧
      e₂.backend.records.shelf.session auditId = some s ∧ s.status = .cancel := by
  obtain ⟨e₀, b, e₁, s₁, created, start, quiet, now, allowed, prepared, hid⟩ :
      ∃ e₀ b e₁ s₁, create hourly {} newYear { linkBase := "" } = (.ok e₀, b) ∧
        Step e₀ (.start none audit (.ok auditId)) e₁ ∧
        e₁.backend.faults = {} ∧ e₁.now = newYear ∧ e₁.authorize none = .ok anonymous ∧
        e₁.prepare none audit = some (.ok s₁) ∧ s₁.id = auditId :=
    ⟨_, _, _, _, rfl, .start exact_audit rfl, rfl, rfl, rfl, rfl, rfl⟩
  have sound := sound_of_create (by decide) (by decide) created
  obtain ⟨c, effect⟩ := sound.effect start
  obtain ⟨filed, held, s, stored, running⟩ := effect.holds_of_start
  obtain ⟨e₂, cancel, settings, now₂, quiet₂, free, cancelled⟩ :=
    cancel_quiet allowed filed (sound.step start).now quiet stored running held
  have prepared₂ : e₂.prepare none audit = some (.ok s₁) := by
    rw [← prepared]
    simp only [prepare, authorize, newSession, settings, now₂]
  obtain ⟨e₃, again⟩ := start_quiet prepared₂ quiet₂ free
  rw [hid] at again
  exact ⟨e₀, b, e₁, e₂, e₃, _, created, start, .cancel cancel, .start exact_audit again,
    now₂.trans now, cancelled, rfl⟩

/-- The lock excludes: in every run of a service alone on its storage
(a) the lock, if held, names a stored session that runs;
(b) between two times that the lock is taken, whoever had it first has ended;
(c) of the stored sessions that run, only the holder of the lock has a
pipeline at work;
(d) a restore on storage that does not fail works out exactly if the session
is stored, runs, and the lock is free, and changes nothing stored but the
lock. -/
theorem lock_excludes {s : ExportSettings} {b b' : Backend} {now : Instant} {files : Files}
    {e₀ e : Engine} {evs : List Event} (clock : now.Valid)
    (pages : s.pageSize ≤ Numeral.maxUInt64) (create : create s b now files = (.ok e₀, b'))
    (run : Run e₀ evs e) :
    (∀ bs, e.backend.records.get? SessionKey.lock = some bs → ∃ id t, decodeLock bs = .ok id ∧
      e.backend.records.shelf.session id = some t ∧ t.id = id ∧ t.status = .start) ∧
    (∀ first id₁ e₁ evs' e₂ second id₂ e₃, Step e first e₁ → first.acquired? = some id₁ →
      Run e₁ evs' e₂ → Step e₂ second e₃ → second.acquired? = some id₂ →
      ∃ before after mid, evs' = before ++ after ∧ (∀ x ∈ before, x.acquired? = none) ∧
        Run e₁ before mid ∧ Run mid after e₂ ∧
        ∃ t, mid.backend.records.shelf.session id₁ = some t ∧ t.status.isTerminal = true) ∧
    (∀ p ∈ e.pipelines, p.stage.isEnded = false → ∀ t,
      e.backend.records.shelf.session p.session = some t → t.status = .start →
      e.backend.records.shelf.holder = some p.session) ∧
    (∀ user name id, e.authorize user = .ok name → e.backend.faults = {} →
      ((e.restore user id).1 = .ok () ↔
        (∃ t, e.backend.records.shelf.session id = some t ∧ t.status = .start) ∧
          e.backend.records.get? SessionKey.lock = none) ∧
      ((e.restore user id).1 = .ok () → (e.restore user id).2 = (e.locked id).begin id)) := by
  have sound := (sound_of_create clock pages create).run run
  refine ⟨fun bs hbs => ?_, ?_, fun p hp going t ht hst => ?_, fun user name id => sound.restore⟩
  · obtain ⟨id, hid⟩ := sound.filed.lock bs hbs
    obtain ⟨t, ht, hst⟩ := sound.guarded.held id
      (by simp only [KeyMap.shelf, hbs, Option.bind_some, hid, Except.toOption])
    exact ⟨id, t, hid, ht, sound.filed.id_eq ht, hst⟩
  · intro first id₁ e₁ evs' e₂ second id₂ e₃ hfirst h₁ hrun hsecond h₂
    obtain ⟨c, he⟩ := sound.effect hfirst
    have held := (he.records.2.free_of_acquired (he.acquired?.1 ▸ h₁)).2
    obtain ⟨before, after, mid, hevs, hnone, hb, ha, t, ht, hst⟩ :=
      (sound.step hfirst).left_before_next (.inl held) hrun hsecond h₂
    refine ⟨before, after, mid, hevs, hnone, hb, ha, t, ht, ?_⟩
    cases hs : t.status <;> first | rfl | exact absurd hs hst
  · exact sound.guarded.sole p.session t ⟨p, hp, rfl, going⟩ ht hst

theorem lock_excludes_audit :
    ∃ e₀ b e₁ e₂ e₃, create hourly {} newYear { linkBase := "" } = (.ok e₀, b) ∧
      Step e₀ (.start none audit (.ok auditId)) e₁ ∧
      Run e₁ [.cancel none auditId (.ok ())] e₂ ∧
      Step e₂ (.start none audit (.ok auditId)) e₃ ∧
      ∃ before after mid, [.cancel none auditId (.ok ())] = before ++ after ∧
        Run e₁ before mid ∧ Run mid after e₂ ∧
        ∃ t, mid.backend.records.shelf.session auditId = some t ∧ t.status.isTerminal = true := by
  obtain ⟨e₀, b, e₁, e₂, e₃, -, created, start, cancel, again, -⟩ := audit_can_repeat
  have run := Run.cons cancel (.nil e₂)
  obtain ⟨before, after, mid, split, -, hbefore, hafter, left⟩ :=
    (lock_excludes (by decide) (by decide) created (.nil e₀)).2.1 _ _ _ _ _ _ _ _ start rfl run
      again rfl
  exact ⟨e₀, b, e₁, e₂, e₃, created, start, run, again, before, after, mid, split, hbefore,
    hafter, left⟩

end Engine

end LogExport
