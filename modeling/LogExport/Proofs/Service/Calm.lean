import LogExport.Proofs.Service.Runs

/-! Failures come from outside. While no failure is planned, no computation on
storage plans one, and no event but a shutdown stops a service. Among the records
of the sessions nothing else is ever written. -/

namespace LogExport

namespace KeyMap

/-- In the range of the sessions there are only keys of sessions. -/
def Keyed (r : Records) : Prop :=
  ∀ k v, r.get? k = some v → SessionKey.range.contains k = true → ∃ id, k = SessionKey.encode id

variable {r : Records}

theorem Keyed.insert {k : Bytes} (h : r.Keyed) (v : Bytes)
    (key : SessionKey.range.contains k = true → ∃ id, k = SessionKey.encode id) :
    Keyed (r.insert k v) := by
  intro k' v' found contains
  rw [get?_insert] at found
  split at found
  · next same => exact same ▸ key (same ▸ contains)
  · exact h k' v' found contains

theorem Keyed.erase (h : r.Keyed) (k : Bytes) : Keyed (r.erase k) := by
  intro k' v found contains
  rw [get?_erase] at found
  split at found
  · cases found
  · exact h k' v found contains

end KeyMap

/-- A write that leaves only keys of sessions in their range. -/
def Write.IsProper : Write → Prop
  | put k _ => SessionKey.range.contains k = true → ∃ id, k = SessionKey.encode id
  | delete _ => True

theorem Write.IsProper.keyed {w : Write} {r : Records} (h : w.IsProper) (keyed : r.Keyed) :
    (r.write w).Keyed := by
  cases w with
  | put k v => exact keyed.insert v h
  | delete k => exact keyed.erase k

/-- Storage that does not fail goes on not to fail, and what is in order among the
sessions stays so. -/
structure Backend.Sustains (b b' : Backend) : Prop where
  quiet : b.faults = {} → b'.faults = {}
  keyed : b.records.Keyed → b'.records.Keyed

namespace Backend.Sustains

variable {b b' : Backend}

theorem refl (b : Backend) : b.Sustains b := ⟨id, id⟩

theorem trans {b'' : Backend} (h : b.Sustains b') (g : b'.Sustains b'') : b.Sustains b'' :=
  ⟨fun quiet => g.quiet (h.quiet quiet), fun keyed => g.keyed (h.keyed keyed)⟩

end Backend.Sustains

namespace Access

variable {α β : Type}

def Steady (m : Access α) : Prop := ∀ b r b', Gives m b r b' → b.Sustains b'

theorem steady_pure (a : α) : Steady (pure a) := by
  intro b r b' h
  obtain ⟨-, rfl⟩ := gives_pure.1 h
  exact .refl b'

theorem steady_throw (e : Error) : Steady (throw e : Access α) := by
  intro b r b' h
  obtain ⟨-, rfl⟩ := gives_throw.1 h
  exact .refl b'

theorem Steady.bind {m : Access α} {f : α → Access β} (hm : Steady m) (hf : ∀ a, Steady (f a)) :
    Steady (m >>= f) := by
  intro b r b' h
  rcases gives_bind.1 h with ⟨e, hg, -⟩ | ⟨a, b₁, hg, hrest⟩
  · exact hm _ _ _ hg
  · exact (hm _ _ _ hg).trans (hf a _ _ _ hrest)

theorem steady_call (c : Call) : Steady (Backend.call c) := by
  intro b r b' h
  obtain ⟨records, silent⟩ := gives_call h
  exact ⟨fun quiet => by rw [(silent quiet).2, quiet], fun keyed => records ▸ keyed⟩

theorem steady_read (k : Bytes) : Steady (Backend.read k) := by
  refine (steady_call .get).bind fun _ b r b' h => ?_
  cases h
  exact .refl b

theorem steady_scan (range : KeyRange) : Steady (Backend.scan range) := by
  refine (steady_call .scan).bind fun _ b r b' h => ?_
  cases h
  exact .refl b

theorem steady_apply {batch : List Write} (proper : ∀ w ∈ batch, w.IsProper) :
    Steady (Backend.apply batch) := by
  refine (steady_call .apply).bind fun _ b r b' h => ?_
  cases h
  refine ⟨id, fun keyed => ?_⟩
  exact List.foldlRecOn batch KeyMap.write keyed fun r hr w hw => (proper w hw).keyed hr

theorem steady_mapM {f : α → Access β} (hf : ∀ a, Steady (f a)) (as : List α) :
    Steady (as.mapM f) := by
  induction as with
  | nil => exact steady_pure []
  | cons a as ih =>
    rw [List.mapM_cons]
    exact (hf a).bind fun b => ih.bind fun bs => steady_pure _

end Access

namespace SessionStore

open Access

theorem isProper_putSession (s : Session) : (putSession s).IsProper := fun _ => ⟨s.id, rfl⟩

theorem isProper_putLock (id : String) : (putLock id).IsProper := by
  intro contains
  exact absurd contains (by decide)

theorem steady_putLock (id : String) : Steady (Backend.apply [putLock id]) :=
  steady_apply (List.forall_mem_singleton.2 (isProper_putLock id))

theorem steady_putSession (s : Session) : Steady (Backend.apply [putSession s]) :=
  steady_apply (List.forall_mem_singleton.2 (isProper_putSession s))

theorem steady_ofFault {α : Type} (x : Except EncodingFault α) : Steady (ofFault x) := by
  cases x with
  | ok a => exact steady_pure a
  | error f => exact steady_throw _

theorem steady_decode (bs : Bytes) : Steady (decode bs) := by
  unfold decode
  split
  · exact steady_pure _
  · exact steady_throw _

theorem steady_load (id : String) : Steady (load id) := by
  refine (steady_read _).bind fun o => ?_
  cases o with
  | some bs => exact steady_decode bs
  | none => exact steady_throw _

theorem steady_holder : Steady holder := by
  refine (steady_read _).bind fun o => ?_
  cases o with
  | some bs => exact (steady_ofFault _).bind fun id => steady_pure _
  | none => exact steady_pure _

theorem steady_requireFree : Steady requireFree := by
  refine steady_holder.bind fun o => ?_
  cases o with
  | some id => exact steady_throw _
  | none => exact steady_pure _

theorem steady_start (s : Session) : Steady (start s) :=
  steady_requireFree.bind fun _ => steady_apply
    (List.forall_mem_cons.2 ⟨isProper_putSession s,
      List.forall_mem_singleton.2 (isProper_putLock s.id)⟩)

theorem steady_conclude (now : Instant) (id : String) (status : Status) (error : Option String) :
    Steady (conclude now id status error) := by
  refine (steady_load id).bind fun s => steady_holder.bind fun o => ?_
  dsimp only
  have proper : ∀ w ∈ (if o = some id then [dropLock] else []), w.IsProper := by
    intro w hw
    split_ifs at hw
    · cases List.mem_singleton.1 hw
      trivial
    · cases hw
  generalize (if o = some id then [dropLock] else []) = release at proper
  have ends : Steady (Backend.apply (release ++ [putSession (s.ended status error now)])) :=
    steady_apply (List.forall_mem_append.2 ⟨proper, List.forall_mem_singleton.2
      (isProper_putSession _)⟩)
  cases s.status.isTerminal with
  | false => exact ends
  | true =>
    cases release with
    | nil => exact (steady_throw _).bind fun _ => ends
    | cons w ws => exact (steady_apply proper).bind fun _ => (steady_throw _).bind fun _ => ends

theorem steady_confirm (id : String) (part : Nat) (size : Sizes) :
    Steady (confirm id part size) := by
  refine (steady_load id).bind fun s => ?_
  split
  · exact steady_throw _
  · exact steady_throw _
  · exact steady_putSession _

theorem steady_lockForRestore (id : String) : Steady (lockForRestore id) := by
  refine (steady_load id).bind fun s => ?_
  have rest : Steady (do requireFree; Backend.apply [putLock id]; return s) :=
    steady_requireFree.bind fun _ => (steady_putLock id).bind fun _ => steady_pure s
  cases s.status != .start with
  | false => exact rest
  | true => exact (steady_throw _).bind fun _ => rest

theorem steady_unlock : Steady unlock := by
  refine steady_apply (List.forall_mem_singleton.2 ?_)
  trivial

theorem steady_ofEntry (e : Entry) : Steady (ofEntry e) := by
  refine (steady_ofFault _).bind fun key => (steady_decode _).bind fun s => ?_
  split
  · exact steady_pure s
  · exact steady_throw _

theorem steady_all : Steady all :=
  (steady_scan _).bind fun es => steady_mapM steady_ofEntry es

end SessionStore

namespace Engine

/-- The service is stopped neither more nor less, and its storage goes on as it
was. -/
structure Calm (e e' : Engine) : Prop extends e.backend.Sustains e'.backend where
  stopping : e'.stopping = e.stopping

variable {e e' : Engine}

theorem Calm.refl (e : Engine) : e.Calm e := ⟨.refl e.backend, rfl⟩

theorem Calm.trans {e'' : Engine} (h : e.Calm e') (g : e'.Calm e'') : e.Calm e'' :=
  ⟨h.toSustains.trans g.toSustains, g.stopping.trans h.stopping⟩

/-- Stages, counters, files and pipelines have nothing to do with it. -/
theorem Calm.congr {e'' : Engine} (h : e.Calm e') (stopping : e''.stopping = e'.stopping)
    (backend : e''.backend = e'.backend) : e.Calm e'' :=
  ⟨backend ▸ h.toSustains, stopping.trans h.stopping⟩

theorem calm_access {α : Type} {m : Access α} (hm : Access.Steady m) (e : Engine) :
    e.Calm (e.access m).2 := by
  rcases hg : m.run.run e.backend with ⟨r, b⟩
  rw [access_eq hg]
  exact ⟨hm _ _ _ hg, rfl⟩

theorem calm_of_access {α : Type} {m : Access α} {r : Except Error α} (hm : Access.Steady m)
    (h : e.access m = (r, e')) : e.Calm e' := by
  have calm := calm_access hm e
  rwa [h] at calm

theorem calm_of_gives {α : Type} {m : Access α} {r : Except Error α} {b : Backend}
    (hm : Access.Steady m) (gives : Access.Gives m e.backend r b) :
    e.Calm { e with backend := b } :=
  calm_of_access hm (access_eq gives)

end Engine

section Acts

variable {e e₁ : Engine} {p k : Nat} {id : String} {m : Move}

open Engine SessionStore

theorem WorkerAct.calm {w w' : WorkerStage} (act : WorkerAct e p k id m w e₁ w') : e.Calm e₁ := by
  have same : e.Calm e := .refl e
  cases act with
  | unknown load => exact calm_of_gives (steady_load id) load
  | begun load => exact calm_of_gives (steady_load id) load
  | unsearchable load => exact calm_of_gives (steady_load id) load
  | late load => exact calm_of_gives (steady_load id) load
  | skipped load => exact calm_of_gives (steady_load id) load
  | confirmed gives => exact calm_of_gives (steady_confirm id _ _) gives
  | unconfirmed gives => exact calm_of_gives (steady_confirm id _ _) gives
  | failed _ gives => exact (calm_of_gives (steady_conclude _ id _ _) gives).congr rfl rfl
  | unfailed _ gives => exact calm_of_gives (steady_conclude _ id _ _) gives
  | reported gives => exact calm_of_gives (steady_conclude _ id _ _) gives
  | _ => exact same.congr rfl rfl

theorem PipelineAct.calm {stage stage' : PipelineStage}
    (act : PipelineAct e p id m stage e₁ stage') : e.Calm e₁ := by
  have same : e.Calm e := .refl e
  cases act with
  | worked _ works => exact works.calm
  | unknown load => exact (calm_of_gives (steady_load id) load).congr rfl rfl
  | unneeded load => exact (calm_of_gives (steady_load id) load).congr rfl rfl
  | unlaid load => exact (calm_of_gives (steady_load id) load).congr rfl rfl
  | mismatched load => exact (calm_of_gives (steady_load id) load).congr rfl rfl
  | opened load => exact (calm_of_gives (steady_load id) load).congr rfl rfl
  | overfull load => exact (calm_of_gives (steady_load id) load).congr rfl rfl
  | unread load => exact (calm_of_gives (steady_load id) load).congr rfl rfl
  | incomplete load => exact (calm_of_gives (steady_load id) load).congr rfl rfl
  | checked load => exact calm_of_gives (steady_load id) load
  | unlistable load => exact calm_of_gives (steady_load id) load
  | finished gives => exact (calm_of_gives (steady_conclude _ _ _ _) gives).congr rfl rfl
  | unfinished gives => exact calm_of_gives (steady_conclude _ _ _ _) gives
  | recorded gives => exact (calm_of_gives (steady_conclude _ id _ _) gives).congr rfl rfl
  | unrecorded gives => exact (calm_of_gives (steady_conclude _ id _ _) gives).congr rfl rfl
  | _ => exact same.congr rfl rfl

end Acts

namespace Engine

variable {e e' : Engine}

/-- No move stops the service or makes storage fail. -/
theorem calm_step {m : Move} (h : e.step? m = some e') : e.Calm e' := by
  cases acts : m.pipeline? with
  | some p =>
    obtain ⟨id, stage, e₁, stage', acted⟩ := Engine.acted acts h
    exact acted.act.calm.congr (by rw [acted.after]; rfl) (by rw [acted.after]; rfl)
  | none =>
    obtain ⟨counters, rfl⟩ := counted_step acts h
    exact (Calm.refl e).congr rfl rfl

theorem calm_start {user : Option String} {r : ExportRequest} {answer : Except Error String}
    (h : e.start user r = some (answer, e')) : e.Calm e' := by
  unfold Engine.start at h
  obtain ⟨prepared, -, h⟩ := Option.map_eq_some_iff.1 h
  cases prepared with
  | error err =>
    cases h
    exact .refl e
  | ok s =>
    rcases hg : e.access (SessionStore.start s) with ⟨done, e₁⟩
    have calm := calm_of_access (SessionStore.steady_start s) hg
    simp only [hg] at h
    cases done <;> cases h
    · exact calm
    · exact calm.congr rfl rfl

theorem calm_restore (e : Engine) (user : Option String) (id : String) :
    e.Calm (e.restore user id).2 := by
  unfold Engine.restore
  split
  · exact .refl e
  · rcases hg : e.access (SessionStore.lockForRestore id) with ⟨r, e₁⟩
    have calm := calm_of_access (SessionStore.steady_lockForRestore id) hg
    cases r
    · exact calm
    · exact calm.congr rfl rfl

theorem calm_cancel (e : Engine) (user : Option String) (id : String) :
    e.Calm (e.cancel user id).2 := by
  unfold Engine.cancel SessionStore.cancel
  split
  · exact .refl e
  · rcases hg : e.access (SessionStore.conclude e.now id .cancel none) with ⟨r, e₁⟩
    have calm := calm_of_access (SessionStore.steady_conclude _ _ _ _) hg
    cases r
    · exact calm
    · exact calm.congr rfl rfl

/-- Only a shutdown stops a service, and only a plan makes storage fail. -/
theorem Step.calm {ev : Event} (h : Step e ev e') (going : ev ≠ .shutdown)
    (unplanned : ∀ plan, ev ≠ .faults plan) : e.Calm e' := by
  cases h with
  | start _ h => exact calm_start h
  | @restore user id _ _ h =>
    have calm := calm_restore e user id
    rwa [h] at calm
  | @cancel user id _ _ h =>
    have calm := calm_cancel e user id
    rwa [h] at calm
  | check user id =>
    unfold Engine.check SessionStore.check
    split
    · exact .refl e
    · exact calm_access (SessionStore.steady_load id) e
  | all user =>
    unfold Engine.all
    split
    · exact .refl e
    · exact calm_access SessionStore.steady_all e
  | shutdown => exact absurd rfl going
  | move h => exact calm_step h
  | clock => exact (Calm.refl e).congr rfl rfl
  | faults plan => exact absurd rfl (unplanned plan)

/-- An engine begins without a shutdown, on the storage that it is given. -/
theorem calm_create {s : ExportSettings} {b b' : Backend} {now : Instant} {files : Files}
    (h : create s b now files = (.ok e, b')) :
    e.stopping = false ∧ (b.faults = {} → e.backend.faults = {}) := by
  unfold create at h
  split at h
  · cases h
  next length _ =>
  dsimp only at h
  rcases hg : access _ _ with ⟨r, e₁⟩
  rw [hg] at h
  have calm := calm_of_access (SessionStore.steady_unlock.bind fun _ =>
    SessionStore.steady_all.bind fun _ => Access.steady_pure ()) hg
  cases r <;> cases h
  exact ⟨calm.stopping, calm.quiet⟩

end Engine

end LogExport
