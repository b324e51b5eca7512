import Mathlib.Logic.Relation
import LogExport.Proofs.Pipeline.Faithful
import LogExport.Proofs.Service.Account
import LogExport.Proofs.Service.Creation
import LogExport.Proofs.Service.Release

/-! The lives of an export. Services that serve it may be shut down or end at any
moment, and new ones begin over what is stored. Whatever happens, its books stay
right, unless its parts cannot be searched. -/

namespace LogExport

open Relation

namespace Shelf

variable {v v' : Shelf} {id : String}

theorem Step.session_of_restore (step : v.Step (.restore id) v') : v'.session = v.session := by
  cases step with
  | restore => rfl

end Shelf

namespace Engine

/-- Pipeline `p` is at work for the session stored under `id`. -/
structure Busy (e : Engine) (id : String) (p : Nat) (stage : PipelineStage) : Prop where
  found : e.pipelines[p]? = some ⟨id, stage⟩
  going : stage.isEnded = false

/-- The session for which a pipeline moves. -/
def mover? (e : Engine) (m : Move) : Option String :=
  m.pipeline?.bind fun p => e.pipelines[p]?.map Pipeline.session

/-- Sessions have their own directories, and pipelines keep to their sessions. -/
structure Tame (e : Engine) : Prop where
  rooted : e.backend.records.shelf.Rooted
  stages : ∀ x ∈ e.pipelines, x.stage.Tame x.session

/-- A service on storage that does not fail, in which all sessions can be listed. -/
structure Healthy (e : Engine) : Prop extends e.Watched where
  quiet : e.backend.faults = {}
  keyed : e.backend.records.Keyed
  tame : e.Tame

variable {e e' : Engine} {ev : Event} {m : Move} {id i : String} {p q : Nat}
  {stage stage' : PipelineStage} {c : Change}

theorem Busy.working (h : e.Busy id p stage) : e.Working id :=
  ⟨_, List.mem_of_getElem? h.found, rfl, h.going⟩

theorem mover?_eq_some (acts : m.pipeline? = some p) (found : e.pipelines[p]? = some ⟨id, stage⟩) :
    e.mover? m = some id := by
  simp only [mover?, acts, Option.bind_some, found, Option.map_some]

theorem exists_of_mover? (h : e.mover? m = some id) :
    ∃ p stage, m.pipeline? = some p ∧ e.pipelines[p]? = some ⟨id, stage⟩ := by
  obtain ⟨p, acts, h⟩ := Option.bind_eq_some_iff.1 h
  obtain ⟨⟨_, stage⟩, found, rfl⟩ := Option.map_eq_some_iff.1 h
  exact ⟨p, stage, acts, found⟩

theorem launched_iff :
    e.Launched id ↔ ∃ (p : Nat) (stage : PipelineStage), e.pipelines[p]? = some ⟨id, stage⟩ := by
  constructor
  · intro h
    obtain ⟨⟨_, stage⟩, mem, rfl⟩ := List.mem_map.1 h
    obtain ⟨p, found⟩ := List.getElem?_of_mem mem
    exact ⟨p, stage, found⟩
  · rintro ⟨p, stage, found⟩
    exact List.mem_map.2 ⟨_, List.mem_of_getElem? found, rfl⟩

/-- After one pipeline of the session has been launched, it is where it was put. -/
theorem getElem?_append {x : Pipeline} (h : e'.pipelines = e.pipelines ++ [x])
    (found : e'.pipelines[p]? = some ⟨id, stage⟩) :
    e.pipelines[p]? = some ⟨id, stage⟩ ∨ p = e.pipelines.length ∧ x = ⟨id, stage⟩ := by
  rw [h, List.getElem?_append] at found
  split at found
  · exact .inl found
  · obtain ⟨hlt, hget⟩ := List.getElem?_eq_some_iff.1 found
    simp only [List.length_singleton] at hlt
    rw [List.getElem_singleton] at hget
    exact .inr ⟨by omega, hget⟩

theorem Tame.effect (h : e.Tame) (effect : Effect e ev c e') : e'.Tame := by
  have account : e.backend.records.shelf.Account ∅ [] :=
    Shelf.account_of_free h.rooted fun _ none => none.elim
  obtain ⟨earned, -, fits⟩ := effect.sound account
    (fun x hx => ⟨h.stages x hx, fun none => none.elim⟩) fun _ _ _ _ none => none.elim
  exact ⟨(account.step effect.records.2 earned).own, fun x hx => (fits x hx).1⟩

theorem Tame.run {evs : List Event} (h : e.Tame) (sound : e.Sound) (run : Run e evs e') :
    e'.Tame := by
  induction run with
  | nil => exact h
  | cons step _ ih =>
    obtain ⟨c, effect⟩ := sound.effect step
    exact ih (h.effect effect) (sound.step step)

/-- No pipeline is at work for a service that has just been created. -/
theorem idle_of_create {t : ExportSettings} {b b' : Backend} {now : Instant} {files : Files}
    (create : create t b now files = (.ok e, b')) (i : String) : ¬ e.Working i := by
  obtain ⟨-, -, -, pipelines, -⟩ := created create
  rintro ⟨x, hx, -⟩
  rw [pipelines] at hx
  cases hx

theorem tame_of_create {t : ExportSettings} {b b' : Backend} {now : Instant} {files : Files}
    (rooted : b.records.shelf.Rooted) (create : create t b now files = (.ok e, b')) : e.Tame := by
  obtain ⟨-, -, -, pipelines, -, -, -, records⟩ := created create
  refine ⟨fun i s found => rooted i s ?_, fun x hx => ?_⟩
  · rwa [records, KeyMap.shelf_dropLock] at found
  · rw [pipelines] at hx
    cases hx

/-- A shutdown is not taken back. -/
theorem Step.stopping (step : Step e ev e') (unplanned : ∀ plan, ev ≠ .faults plan) :
    e.stopping = true → e'.stopping = true := by
  intro stops
  by_cases shut : ev = .shutdown
  · subst shut
    cases step
    rfl
  · rw [(step.calm shut unplanned).stopping, stops]

theorem Healthy.step (h : e.Healthy) (step : Step e ev e') (unplanned : ∀ plan, ev ≠ .faults plan) :
    e'.Healthy := by
  obtain ⟨c, effect⟩ := h.sound.effect step
  have tame := h.tame.effect effect
  by_cases shut : ev = .shutdown
  · subst shut
    have watched := h.toWatched.step step
    cases step
    exact { watched with quiet := h.quiet, keyed := h.keyed, tame }
  · have calm := step.calm shut unplanned
    exact
      { h.toWatched.step step with
        quiet := calm.quiet h.quiet, keyed := calm.keyed h.keyed, tame }

theorem healthy_of_create {t : ExportSettings} {b b' : Backend} {now : Instant} {files : Files}
    (clock : now.Valid) (pages : t.pageSize ≤ Numeral.maxUInt64) (quiet : b.faults = {})
    (rooted : b.records.shelf.Rooted) (create : create t b now files = (.ok e, b')) : e.Healthy :=
  { watched_of_create clock pages create with
    quiet := (calm_create create).2 quiet, keyed := keyed_of_create create
    tame := tame_of_create rooted create }

/-! ### What passes by a session -/

/-- Events that are none of the session's: pipelines move for others or not at all,
time goes by, sessions are looked at, and the service may be shut down. -/
def Foreign (e : Engine) (id : String) : Event → Prop
  | .move m => e.mover? m ≠ some id
  | .check _ _ => True
  | .all _ => True
  | .shutdown => True
  | .clock _ => True
  | _ => False

/-- What has happened has passed by the session. -/
structure Passes (e : Engine) (id : String) (e' : Engine) : Prop where
  own : ∀ (p : Nat) (stage : PipelineStage),
    e'.pipelines[p]? = some ⟨id, stage⟩ ↔ e.pipelines[p]? = some ⟨id, stage⟩
  working : ∀ i, e'.Working i → e.Working i
  session : e'.backend.records.shelf.session id = e.backend.records.shelf.session id
  files : e.files.Alike id e'.files
  settings : e'.settings = e.settings

theorem Passes.refl (id : String) (e : Engine) : e.Passes id e :=
  ⟨fun _ _ => .rfl, fun _ h => h, rfl, .refl id e.files, rfl⟩

theorem Passes.trans {e'' : Engine} (h : e.Passes id e') (g : e'.Passes id e'') :
    e.Passes id e'' where
  own p stage := (g.own p stage).trans (h.own p stage)
  working i hi := h.working i (g.working i hi)
  session := g.session.trans h.session
  files := h.files.trans g.files
  settings := g.settings.trans h.settings

theorem passes_of_same (pipelines : e'.pipelines = e.pipelines)
    (session : e'.backend.records.shelf.session id = e.backend.records.shelf.session id)
    (files : e'.files = e.files) (settings : e'.settings = e.settings) : e.Passes id e' where
  own p stage := by rw [pipelines]
  working i hi := by rwa [Working, pipelines] at hi
  session := session
  files := files ▸ .refl id e.files
  settings := settings

/-- A pipeline that moves for another session passes by. -/
theorem Tame.passes (h : e.Tame) (apart : ∀ i, e.Working i → i = id ∨ RootsApart i id)
    (moved : e.Moved m e' p i stage c stage') (other : i ≠ id) : e.Passes id e' := by
  obtain ⟨change, deed, -⟩ :=
    moved.step.tame (h.rooted i) (h.stages _ (List.mem_of_getElem? moved.found))
  have busy : e.Busy i p stage := ⟨moved.found, moved.step.going⟩
  have roots := (apart i busy.working).resolve_left other
  refine
    { own := fun q stage => ?_, working := fun j hj => ?_
      session := change.spares other moved.records.2, settings := moved.settings
      files := by
        rw [moved.files]
        exact Files.alike_filesAfter roots deed }
  · rw [moved.pipelines, List.getElem?_set]
    split_ifs with same hlt
    · subst same
      rw [moved.found]
      constructor <;>
        · intro h
          cases h
          exact absurd rfl other
    · subst same
      exact absurd (List.getElem?_eq_some_iff.1 moved.found).1 hlt
    · rfl
  · rcases (Effect.moved moved).working hj with hj | acquired
    · exact hj
    · rw [moved.step.acquired?.1] at acquired
      cases acquired

/-- The session has failed for good. -/
structure Failed (e : Engine) (id : String) : Prop where
  watched : e.Watched
  failed : ∃ s, e.backend.records.shelf.session id = some s ∧ s.status = .fail

end Engine

namespace Archive

/-- What may happen to a service while it serves an export from an archive. Other
pipelines are answered in any way. The service may be shut down, and take the
export up again. -/
inductive Permits (a : Archive) (id : String) (e : Engine) : Engine.Event → Prop
  | foreign {ev : Engine.Event} (foreign : e.Foreign id ev) : Permits a id e ev
  | own {m : Move} (own : e.mover? m = some id) (allowed : a.Allows e m) :
    Permits a id e (.move m)
  | restore (user : Option String) (answer : Except Error Unit) :
    Permits a id e (.restore user id answer)

/-- An export goes on: something happens to the service, or the service ends and
another one, set up in any way, begins over the same storage and files. -/
inductive Next (a : Archive) (id : String) (e : Engine) : Engine → Prop
  | served {ev : Engine.Event} {e' : Engine} (permitted : a.Permits id e ev)
      (step : Engine.Step e ev e') : Next a id e e'
  | reborn {t : ExportSettings} {b : Backend} {now : Instant} {e' : Engine} (clock : now.Valid)
      (pages : t.pageSize ≤ Numeral.maxUInt64)
      (create : Engine.create t e.backend now e.files = (.ok e', b)) : Next a id e e'

/-- Something else happens, and no shutdown. -/
def Aside (id : String) (e e' : Engine) : Prop :=
  ∃ ev, e.Foreign id ev ∧ ev ≠ .shutdown ∧ Engine.Step e ev e'

/-- Without an interruption a pipeline moves for the export, after anything else has
happened. -/
def Proceeds (a : Archive) (id : String) (e e' : Engine) : Prop :=
  ∃ e₁ m, ReflTransGen (Aside id) e e₁ ∧ e₁.mover? m = some id ∧ a.Allows e₁ m ∧
    e₁.step? m = some e'

end Archive

/-- A session that has failed stays so. -/
theorem Engine.Failed.next {a : Archive} {e e' : Engine} {id : String} (h : e.Failed id)
    (next : a.Next id e e') : e'.Failed id := by
  obtain ⟨watched, s, found, failed⟩ := h
  cases next with
  | reborn clock pages create =>
    obtain ⟨-, -, -, -, -, -, -, records⟩ := Engine.created create
    refine ⟨Engine.watched_of_create clock pages create, s, ?_, failed⟩
    rw [records, KeyMap.shelf_dropLock]
    exact found
  | served permitted step =>
    obtain ⟨c, effect⟩ := watched.sound.effect step
    have fresh : ∀ t, c ≠ .start t := by
      rintro t rfl
      cases effect with
      | quiet _ _ mild => cases mild
      | started =>
        cases permitted with
        | foreign foreign => exact foreign
      | moved moved => cases moved.step.acquired?.1
    obtain ⟨s', found', same⟩ := effect.records.2.status_kept
      (fun t ht => absurd ht (fresh t)) found (by rw [failed]; nofun)
    exact ⟨watched.step step, s', found', same.trans failed⟩

namespace Archive

/-- What stays true of an export through all lives of the service: its books are
right, and while it runs one pipeline at most is at work for it, which attends to it
until a shutdown. The others keep away from its files. -/
structure Keeps (a : Archive) (base : Files) (s : Session) (e : Engine) : Prop
    extends e.Healthy where
  found : e.backend.records.shelf.session s.id = some s
  held : ∀ i, e.backend.records.shelf.holder = some i → i = s.id
  pages : 0 < s.batchSize
  aligned : s.Aligned
  ledger : a.Ledger base s e.files
  ended : s.status ≠ .start → s.status = .finish ∧ a.Complete base s e.files
  apart : ∀ i, e.Working i → i = s.id ∨ RootsApart i s.id
  single : ∀ p q stage stage', e.Busy s.id p stage → e.Busy s.id q stage' → p = q
  faithful : ∀ p stage, e.Busy s.id p stage →
    s.status = .start ∧ stage.Faithful a base e.stopping s e.files
  attended : e.Launched s.id → e.stopping = false → s.status = .start → e.CanOpen s →
    ∃ p stage, e.Busy s.id p stage ∧ stage.Attends s

variable {a : Archive} {base : Files} {e e' : Engine} {ev : Engine.Event} {p : Nat} {m : Move}
  {id : String} {s s' : Session}

theorem Aside.next (h : Aside id e e') : a.Next id e e' := by
  obtain ⟨ev, foreign, -, step⟩ := h
  exact .served (.foreign foreign) step

theorem Proceeds.lives (h : a.Proceeds id e e') : ReflTransGen (a.Next id) e e' := by
  obtain ⟨e₁, m, aside, own, allowed, step⟩ := h
  have before : ReflTransGen (a.Next id) e e₁ := aside.lift (fun e => e) fun _ _ h => h.next
  exact .tail before (.served (.own own allowed) (.move step))

theorem Permits.not_faults (h : a.Permits id e ev) : ∀ plan, ev ≠ .faults plan := by
  rintro plan rfl
  cases h with
  | foreign foreign => exact foreign

/-- The lock is taken for no other session. -/
theorem Permits.acquired {i : String} (h : a.Permits id e ev) (acquired : ev.acquired? = some i) :
    i = id := by
  cases h with
  | foreign foreign =>
    cases ev with
    | start => exact foreign.elim
    | restore => exact foreign.elim
    | _ => cases acquired
  | own => cases acquired
  | restore user answer =>
    cases answer with
    | error => cases acquired
    | ok =>
      cases acquired
      rfl

namespace Keeps

theorem rooted (h : a.Keeps base s e) : s.Rooted := (h.tame.rooted s.id s h.found).2

theorem held_step (h : a.Keeps base s e) (permitted : a.Permits s.id e ev)
    (step : Engine.Step e ev e') : ∀ i, e'.backend.records.shelf.holder = some i → i = s.id := by
  intro i held
  obtain ⟨c, effect⟩ := h.sound.effect step
  rcases effect.records.2.held_before held with held | acquired
  · exact h.held i held
  · exact permitted.acquired (effect.acquired?.1.trans acquired)

/-- No pipeline comes to work whose files could be stored in place of the session's. -/
theorem apart_step (h : a.Keeps base s e) (permitted : a.Permits s.id e ev)
    (step : Engine.Step e ev e') : ∀ i, e'.Working i → i = s.id ∨ RootsApart i s.id := by
  intro i working
  obtain ⟨c, effect⟩ := h.sound.effect step
  rcases effect.working working with working | acquired
  · exact h.apart i working
  · exact .inl (permitted.acquired (effect.acquired?.1.trans acquired))

/-- An event that passes by the session. -/
theorem passes (h : a.Keeps base s e) (permitted : a.Permits s.id e ev)
    (step : Engine.Step e ev e') (passes : e.Passes s.id e') : a.Keeps base s e' := by
  have stops := step.stopping permitted.not_faults
  have busy {p : Nat} {stage : PipelineStage} (hb : e'.Busy s.id p stage) : e.Busy s.id p stage :=
    ⟨(passes.own p stage).1 hb.found, hb.going⟩
  refine
    { h.toHealthy.step step permitted.not_faults with
      found := passes.session.trans h.found, held := h.held_step permitted step
      pages := h.pages, aligned := h.aligned, ledger := h.ledger.alike passes.files h.rooted
      ended := fun terminal => ?_
      apart := h.apart_step permitted step
      single := fun p q stage stage' hp hq => h.single p q stage stage' (busy hp) (busy hq)
      faithful := fun p stage hp => ?_
      attended := fun launched going running opens => ?_ }
  · obtain ⟨finished, complete⟩ := h.ended terminal
    exact ⟨finished, complete.alike passes.files h.rooted⟩
  · obtain ⟨running, faithful⟩ := h.faithful p stage (busy hp)
    exact ⟨running, faithful.alike stops passes.files h.rooted⟩
  · obtain ⟨p, stage, found⟩ := Engine.launched_iff.1 launched
    have launched := Engine.launched_iff.2 ⟨p, stage, (passes.own p stage).1 found⟩
    have going : e.stopping = false := Bool.eq_false_iff.2 fun stopped => by
      rw [stops stopped] at going
      cases going
    obtain ⟨q, stage, hq, attends⟩ := h.attended launched going running
      (((Session.Grown.refl s).canOpen_iff passes.settings).1 opens)
    exact ⟨q, stage, ⟨(passes.own q stage).2 hq.found, hq.going⟩, attends⟩

/-- Whatever is none of the session's passes by. -/
theorem passes_of_foreign (h : a.Keeps base s e) (foreign : e.Foreign s.id ev)
    (step : Engine.Step e ev e') : e.Passes s.id e' := by
  have reads {ev : Engine.Event} {e' : Engine} (effect : Engine.Effect e ev .keep e')
      (call : ∀ m, ev ≠ .move m) : e.Passes s.id e' := by
    have same := congrFun (congrArg Shelf.session effect.records.2.kept) s.id
    cases effect with
    | quiet _ _ _ pipelines files settings =>
      exact Engine.passes_of_same pipelines same files settings
    | moved => exact absurd rfl (call _)
  cases step with
  | @move m e' hm =>
    cases acts : m.pipeline? with
    | some p =>
      obtain ⟨i, stage, c, stage', moved⟩ := Engine.moved_at h.sound.filed h.sound.now acts hm
      refine h.tame.passes h.apart moved ?_
      rintro rfl
      exact foreign (Engine.mover?_eq_some acts moved.found)
    | none =>
      obtain ⟨counters, rfl⟩ := Engine.counted_step acts hm
      exact Engine.passes_of_same rfl rfl rfl rfl
  | check => exact reads (Engine.effect_check h.sound.filed) nofun
  | all => exact reads (Engine.effect_all h.sound.filed) nofun
  | shutdown => exact Engine.passes_of_same rfl rfl rfl rfl
  | clock => exact Engine.passes_of_same rfl rfl rfl rfl
  | start => exact foreign.elim
  | restore => exact foreign.elim
  | cancel => exact foreign.elim
  | faults => exact foreign.elim

/-- While other things happen, the session and its pipelines stay as they are. -/
theorem aside (h : a.Keeps base s e) (aside : ReflTransGen (Aside s.id) e e') :
    a.Keeps base s e' ∧ e.Passes s.id e' ∧ e'.stopping = e.stopping := by
  induction aside with
  | refl => exact ⟨h, .refl s.id e, rfl⟩
  | tail _ next ih =>
    obtain ⟨h', passed, stopping⟩ := ih
    obtain ⟨ev, foreign, shut, step⟩ := next
    have passes := h'.passes_of_foreign foreign step
    have permitted : a.Permits s.id _ ev := .foreign foreign
    exact ⟨h'.passes permitted step passes, passed.trans passes,
      (step.calm shut permitted.not_faults).stopping.trans stopping⟩

/-- A pipeline that moves for the session takes a stride. -/
theorem strides (h : a.Keeps base s e) (own : e.mover? m = some s.id)
    (step : e.step? m = some e') :
    ∃ p stage c stage', e.Strode m e' p s stage c stage' ∧ e.Busy s.id p stage ∧
      s.status = .start ∧ stage.Faithful a base e.stopping s e.files := by
  obtain ⟨p, stage, acts, found⟩ := Engine.exists_of_mover? own
  obtain ⟨_, _, _, _, moved⟩ := Engine.moved_at h.sound.filed h.sound.now acts step
  cases moved.found.symm.trans found
  have busy : e.Busy s.id p stage := ⟨found, moved.step.going⟩
  obtain ⟨running, faithful⟩ := h.faithful p stage busy
  have serves : e.Serves p s stage :=
    { found, holds := ⟨h.quiet, h.sound.filed, h.found⟩, clock := h.sound.now, running }
  obtain ⟨c, stage', strode⟩ := serves.step (fun i hi => by subst hi; exact faithful.1) acts step
  exact ⟨p, stage, c, stage', strode, busy, running, faithful⟩

/-- Only one pipeline is at work for the session after a stride. -/
theorem busy_of_strode {q : Nat} {stage stage' x : PipelineStage} {c : Change}
    (h : a.Keeps base s e) (strode : e.Strode m e' p s stage c stage') (busy : e.Busy s.id p stage)
    (hq : e'.Busy s.id q x) : q = p ∧ x = stage' := by
  obtain ⟨found, going⟩ := hq
  rw [strode.pipelines, List.getElem?_set] at found
  split_ifs at found with same
  · cases found
    exact ⟨same.symm, rfl⟩
  · exact absurd (h.single p q stage x busy ⟨found, going⟩) same

/-- The pipeline that moves goes on attending to the session. -/
theorem attended_of_strode {stage stage' : PipelineStage} {c : Change} (h : a.Keeps base s e)
    (strode : e.Strode m e' p s stage c stage') (busy : e.Busy s.id p stage)
    (running : s.status = .start) (going : e.stopping = false) (opens : e.CanOpen s) :
    Attended s c stage' := by
  obtain ⟨q, x, hq, attends⟩ :=
    h.attended (Engine.launched_iff.2 ⟨p, stage, busy.found⟩) going running opens
  obtain rfl := h.single p q stage x busy hq
  cases busy.found.symm.trans hq.found
  exact strode.stride.attended going opens attends

/-- What is kept of a session after a stride comes down to what the stride has made of
the session and of the pipeline that moved. -/
theorem of_strode {stage stage' : PipelineStage} {c : Change} (h : a.Keeps base s e)
    (own : e.mover? m = some s.id) (allowed : a.Allows e m) (step : e.step? m = some e')
    (strode : e.Strode m e' p s stage c stage') (busy : e.Busy s.id p stage)
    (same : s'.SameRequest s) (found : e'.backend.records.shelf.session s.id = some s')
    (ledger : a.Ledger base s' e'.files)
    (ended : s'.status ≠ .start → s'.status = .finish ∧ a.Complete base s' e'.files)
    (faithful : stage'.isEnded = false →
      s'.status = .start ∧ stage'.Faithful a base e'.stopping s' e'.files)
    (attends : e'.stopping = false → s'.status = .start → e'.CanOpen s' → stage'.Attends s') :
    a.Keeps base s' e' := by
  have permitted : a.Permits s.id e (.move m) := .own own allowed
  have sole {q : Nat} {x : PipelineStage} (hq : e'.Busy s.id q x) : q = p ∧ x = stage' :=
    h.busy_of_strode strode busy hq
  have there : e'.pipelines[p]? = some ⟨s.id, stage'⟩ := by
    rw [strode.pipelines, List.getElem?_set_self (List.getElem?_eq_some_iff.1 busy.found).1]
  exact
    { h.toHealthy.step (.move step) nofun with
      ledger, ended
      found := same.id ▸ found
      held := same.id ▸ h.held_step permitted (.move step)
      pages := same.batchSize ▸ h.pages
      aligned := h.aligned.congr same
      apart := same.id ▸ h.apart_step permitted (.move step)
      single := fun q r x y hq hr => by
        rw [same.id] at hq hr
        rw [(sole hq).1, (sole hr).1]
      faithful := fun q x hq => by
        rw [same.id] at hq
        obtain ⟨-, rfl⟩ := sole hq
        exact faithful hq.going
      attended := fun _ going running opens => by
        rw [same.id]
        have attends := attends going running opens
        exact ⟨p, stage', ⟨there, attends.going⟩, attends⟩ }

/-- The books go with what the pipeline does. -/
theorem move (h : a.Keeps base s e) (own : e.mover? m = some s.id) (allowed : a.Allows e m)
    (step : e.step? m = some e') :
    (∃ s', a.Keeps base s' e' ∧ s.Grown s' ∧ s'.SameRequest s) ∨
      ¬ s.Searchable ∧ e'.Failed s.id := by
  obtain ⟨p, stage, c, stage', strode, busy, running, faithful⟩ := h.strides own step
  have kept := strode.stride.faithful allowed busy.found h.pages h.aligned h.ledger faithful
  have after {s' : Session} (same : s'.SameRequest s) :=
    h.of_strode own allowed step strode busy same
  have attended := h.attended_of_strode strode busy running
  have watched := h.toWatched.step (.move step)
  obtain ⟨-, -, ⟨-, took⟩, -, files, settings, -, stopping⟩ := strode
  rw [← stopping] at kept attended
  generalize e.deed? m = deed at kept files
  cases kept with
  | on ledger faithful' =>
    rw [← files] at ledger faithful'
    refine .inl ⟨s, after .rfl ?_ ledger (absurd running) (fun _ => ⟨running, faithful'⟩)
      (fun going _ opens => ?_), .refl s, .rfl⟩
    · rw [took.kept, h.found]
    · rcases attended going (((Session.Grown.refl s).canOpen_iff settings).1 opens) with
        ⟨_, _, _, hc⟩ | ⟨-, attends⟩ | ⟨_, _, hc, -⟩
      · cases hc
      · exact attends
      · cases hc
  | @confirmed t stage' ledger faithful' =>
    have same := Session.SameRequest.rfl.confirm (s := s) t.part (a.sizes e.files.coder t)
    have grown := s.grown_confirm t.part (a.sizes e.files.coder t)
    refine .inl ⟨_, after same (took.confirmed h.found) (files ▸ ledger) (absurd running)
      (fun _ => ⟨running, files ▸ faithful'⟩) (fun going _ opens => ?_), grown, same⟩
    rcases attended going ((grown.canOpen_iff settings).1 opens) with
      ⟨_, _, _, hc⟩ | ⟨hc, -⟩ | ⟨_, _, hc, attends⟩
    · cases hc
    · cases hc
    · cases hc
      exact attends
  | @finished now complete =>
    have same := Session.SameRequest.rfl.ended (s := s) .finish none now
    exact .inl ⟨_, after same (took.concluded h.found) (files ▸ h.ledger.ended _ _ _)
      (fun _ => ⟨rfl, files ▸ complete.ended _ _ _⟩) nofun nofun, s.grown_ended _ _ _, same⟩
  | failed never => exact .inr ⟨never, watched, _, took.concluded h.found, rfl⟩

/-- The session is taken up again when no session holds the lock. -/
theorem restore {user : Option String} {answer : Except Error Unit} (h : a.Keeps base s e)
    (step : Engine.Step e (.restore user s.id answer) e') : a.Keeps base s e' := by
  have permitted : a.Permits s.id e (.restore user s.id answer) := .restore user answer
  have held' := h.held_step permitted step
  have healthy' := h.toHealthy.step step nofun
  have taken := step
  cases step with
  | restore restored =>
    obtain ⟨c, effect, hc⟩ := Engine.effect_restore h.sound.filed restored
    have took := effect.records.2
    cases effect with
    | quiet free still mild pipelines files settings =>
      rcases hc with rfl | rfl
      · refine h.passes permitted taken (Engine.passes_of_same pipelines ?_ files settings)
        rw [took.kept]
      · cases mild
    | restored pipelines files settings =>
      obtain ⟨⟨t, found, running⟩, unheld⟩ := took.of_restore
      rw [h.found] at found
      cases found
      have session : e'.backend.records.shelf.session s.id = some s := by
        rw [took.session_of_restore, h.found]
      -- A pipeline at work would hold the lock, so the new one is the only one.
      have fresh {p : Nat} {stage : PipelineStage} (hp : e'.Busy s.id p stage) :
          p = e.pipelines.length ∧ stage = .opening := by
        rcases Engine.getElem?_append pipelines hp.found with old | ⟨rfl, same⟩
        · have busy : e.Busy s.id p stage := ⟨old, hp.going⟩
          have held := h.sound.guarded.sole s.id s busy.working h.found running
          rw [unheld] at held
          cases held
        · cases same
          exact ⟨rfl, rfl⟩
      have opened : e'.Busy s.id e.pipelines.length .opening :=
        ⟨by rw [pipelines, List.getElem?_concat_length], rfl⟩
      exact
        { healthy' with
          found := session, held := held', pages := h.pages, aligned := h.aligned
          ledger := files ▸ h.ledger
          ended := absurd running
          apart := h.apart_step permitted taken
          single := fun p q stage stage' hp hq => (fresh hp).1.trans (fresh hq).1.symm
          faithful := fun p stage hp => by
            obtain ⟨-, rfl⟩ := fresh hp
            exact ⟨running, trivial⟩
          attended := fun _ _ _ _ => ⟨_, _, opened, trivial⟩ }

/-- A new service finds the session as it was left. -/
theorem reborn {t : ExportSettings} {b : Backend} {now : Instant} (h : a.Keeps base s e)
    (clock : now.Valid) (pages : t.pageSize ≤ Numeral.maxUInt64)
    (create : Engine.create t e.backend now e.files = (.ok e', b)) : a.Keeps base s e' := by
  obtain ⟨-, -, files, -, -, -, free, records⟩ := Engine.created create
  have idle := Engine.idle_of_create create
  refine
    { Engine.healthy_of_create clock pages h.quiet h.tame.rooted create with
      found := ?_, pages := h.pages, aligned := h.aligned, ledger := files ▸ h.ledger
      held := fun i held => nomatch free.symm.trans held
      ended := files ▸ h.ended
      apart := fun i hi => absurd hi (idle i)
      single := fun p q stage stage' hp => absurd hp.working (idle s.id)
      faithful := fun p stage hp => absurd hp.working (idle s.id)
      attended := fun launched => absurd launched (Engine.unlaunched_of_create create s.id).1 }
  rw [records, KeyMap.shelf_dropLock]
  exact h.found

/-- The books stay right with everything that happens, unless the session fails. -/
theorem next (h : a.Keeps base s e) (next : a.Next s.id e e') :
    (∃ s', a.Keeps base s' e' ∧ s.Grown s' ∧ s'.SameRequest s) ∨
      ¬ s.Searchable ∧ e'.Failed s.id := by
  have same (h' : a.Keeps base s e') :
      (∃ s', a.Keeps base s' e' ∧ s.Grown s' ∧ s'.SameRequest s) ∨
        ¬ s.Searchable ∧ e'.Failed s.id := .inl ⟨s, h', .refl s, .rfl⟩
  cases next with
  | reborn clock pages create => exact same (h.reborn clock pages create)
  | served permitted step =>
    cases permitted with
    | foreign foreign =>
      exact same (h.passes (.foreign foreign) step (h.passes_of_foreign foreign step))
    | own own allowed =>
      cases step with
      | move hm => exact h.move own allowed hm
    | restore => exact same (h.restore step)

end Keeps

/-- So it is with all that happens. -/
theorem Keeps.lives (h : a.Keeps base s e) (life : ReflTransGen (a.Next s.id) e e') :
    (∃ s', a.Keeps base s' e' ∧ s.Grown s' ∧ s'.SameRequest s) ∨
      ¬ s.Searchable ∧ e'.Failed s.id := by
  induction life with
  | refl => exact .inl ⟨s, h, .refl s, .rfl⟩
  | tail _ next ih =>
    rcases ih with ⟨s', h', grown, same⟩ | ⟨never, failed⟩
    · rw [← grown.id] at next
      rcases h'.next next with ⟨s'', h'', grown', same'⟩ | ⟨never, failed⟩
      · exact .inl ⟨s'', h'', grown.trans grown', same'.trans same⟩
      · exact .inr ⟨fun all => never (grown.searchable_iff.2 all), grown.id ▸ failed⟩
    · exact .inr ⟨never, failed.next next⟩

end Archive

end LogExport
