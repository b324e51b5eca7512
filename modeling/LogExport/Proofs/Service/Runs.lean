import LogExport.Proofs.Partition.Bounds
import LogExport.Proofs.Pipeline.Steps
import LogExport.Service.Calls

/-! Runs of one service: calls in any order between the moves of its pipelines,
while the clock is set and storage begins or ceases to fail. -/

namespace LogExport

open Access

/-- The moments of a request exist. -/
structure ExportRequest.Exact (r : ExportRequest) : Prop where
  start : r.start.utc.Valid
  stop : r.stop.utc.Valid

namespace Engine

/-- What happens to a service, with its answer where later events depend on it. -/
inductive Event where
  | start (user : Option String) (r : ExportRequest) (answer : Except Error String)
  | restore (user : Option String) (id : String) (answer : Except Error Unit)
  | cancel (user : Option String) (id : String) (answer : Except Error Unit)
  | check (user : Option String) (id : String)
  | all (user : Option String)
  | shutdown
  | move (m : Move)
  /-- The clock is read next at this moment. -/
  | clock (now : Instant)
  /-- Storage fails as planned from now on. -/
  | faults (plan : FaultPlan)

/-- The session for which an event takes the lock. -/
def Event.acquired? : Event → Option String
  | start _ _ (.ok id) => some id
  | restore _ id (.ok ()) => some id
  | _ => none

/-- What an event does outside of the service. -/
def Event.deed? (e : Engine) : Event → Option Deed
  | move m => e.deed? m
  | _ => none

/-- A service before and after an event. -/
inductive Step (e : Engine) : Event → Engine → Prop
  | start {user : Option String} {r : ExportRequest} {answer : Except Error String} {e' : Engine}
      (exact : r.Exact) (h : e.start user r = some (answer, e')) : Step e (.start user r answer) e'
  | restore {user : Option String} {id : String} {answer : Except Error Unit} {e' : Engine}
      (h : e.restore user id = (answer, e')) : Step e (.restore user id answer) e'
  | cancel {user : Option String} {id : String} {answer : Except Error Unit} {e' : Engine}
      (h : e.cancel user id = (answer, e')) : Step e (.cancel user id answer) e'
  | check (user : Option String) (id : String) : Step e (.check user id) (e.check user id).2
  | all (user : Option String) : Step e (.all user) (e.all user).2
  | shutdown : Step e .shutdown { e with stopping := true }
  | move {m : Move} {e' : Engine} (h : e.step? m = some e') : Step e (.move m) e'
  | clock {now : Instant} (valid : now.Valid) : Step e (.clock now) { e with now }
  | faults (plan : FaultPlan) : Step e (.faults plan) { e with backend.faults := plan }

/-- Events one after the other. -/
inductive Run : Engine → List Event → Engine → Prop
  | nil (e : Engine) : Run e [] e
  | cons {e e' e'' : Engine} {ev : Event} {evs : List Event} (step : Step e ev e')
      (rest : Run e' evs e'') : Run e (ev :: evs) e''

/-- A change that a call other than a start or a restore can bring about. -/
inductive Mild : Change → Prop
  | keep : Mild .keep
  | release (id : String) : Mild (.release id)
  | cancel (id : String) (error : Option String) (now : Instant) :
    Mild (.conclude id .cancel error now)

/-- What an event makes of a service. -/
inductive Effect (e : Engine) : Event → Change → Engine → Prop
  | quiet {ev : Event} {c : Change} {e' : Engine} (free : ev.acquired? = none)
      (still : ev.deed? e = none) (mild : Mild c) (pipelines : e'.pipelines = e.pipelines)
      (files : e'.files = e.files) (settings : e'.settings = e.settings)
      (now : e.now.Valid → e'.now.Valid)
      (records : e.backend.records.Took c e'.backend.records) : Effect e ev c e'
  | started {user : Option String} {name : String} {r : ExportRequest} {a b : Instant} {parts : Nat}
      {e' : Engine} (allowed : e.authorize user = .ok name) (exact : r.Exact)
      (sound : requestFault? e.settings.partLength.length r = none)
      (bounds : e.settings.partLength.normalize? r.start r.stop = some (a, b))
      (count : partitionCount? a b e.settings.partLength.length = some parts)
      (pipelines : e'.pipelines = e.pipelines ++ [⟨Session.idOf name r.name e.now, .opening⟩])
      (files : e'.files = e.files) (settings : e'.settings = e.settings) (now : e'.now = e.now)
      (records : e.backend.records.Took (.start (e.newSession name r a b parts).stored)
        e'.backend.records) :
    Effect e (.start user r (.ok (Session.idOf name r.name e.now)))
      (.start (e.newSession name r a b parts).stored) e'
  | restored {user : Option String} {id : String} {e' : Engine}
      (pipelines : e'.pipelines = e.pipelines ++ [⟨id, .opening⟩])
      (files : e'.files = e.files) (settings : e'.settings = e.settings) (now : e'.now = e.now)
      (records : e.backend.records.Took (.restore id) e'.backend.records) :
    Effect e (.restore user id (.ok ())) (.restore id) e'
  | moved {m : Move} {p : Nat} {id : String} {stage stage' : PipelineStage} {c : Change}
      {e' : Engine} (h : e.Moved m e' p id stage c stage') : Effect e (.move m) c e'

section Calls

variable {e e' : Engine} {user : Option String} {id : String}

/-- Only ranges that are not empty are accepted. -/
theorem lt_of_sound {length : Duration} {r : ExportRequest} (sound : requestFault? length r = none) :
    r.start.utc < r.stop.utc := by
  by_contra hnot
  simp only [requestFault?, hnot, not_false_eq_true, if_true] at sound
  split_ifs at sound

/-- No window is longer than a part. -/
theorem window_le_of_sound {length : Duration} {r : ExportRequest}
    (sound : requestFault? length r = none) : r.window.nanos ≤ length.nanos := by
  by_contra hlt
  have hw : length < r.window := Nat.lt_of_not_le hlt
  simp only [requestFault?, hw, if_true] at sound
  split_ifs at sound

theorem storable_newSession {name : String} {r : ExportRequest} {a b : Instant} {parts : Nat}
    (hn : e.now.Valid) (hp : e.settings.pageSize ≤ Numeral.maxUInt64) (exact : r.Exact)
    (sound : requestFault? e.settings.partLength.length r = none)
    (bounds : e.settings.partLength.normalize? r.start r.stop = some (a, b)) :
    (e.newSession name r a b parts).Storable := by
  have hlen := e.settings.partLength.length_le_day
  have hmax : Numeral.maxUInt64 = 18446744073709551615 := rfl
  have hwin := window_le_of_sound sound
  obtain ⟨ha, hb⟩ := PartLength.valid_of_normalize? exact.start exact.stop bounds
  exact
    { start := ha
      stop := hb
      window := by simp only [newSession, Duration.roundedMillis]; omega
      partLength := by simp only [newSession, Duration.roundedMillis]; omega
      batchSize := hp
      unpacked := Nat.zero_le _
      packed := Nat.zero_le _
      createdAt := hn
      startedAt := by rintro _ ⟨⟩; exact hn
      finishedAt := by rintro _ ⟨⟩ }

/-- What a session that is prepared is made of. -/
theorem prepare_eq_ok {r : ExportRequest} {s : Session} (h : e.prepare user r = some (.ok s)) :
    ∃ name a b parts, e.authorize user = .ok name ∧
      requestFault? e.settings.partLength.length r = none ∧
      e.settings.partLength.normalize? r.start r.stop = some (a, b) ∧
      partitionCount? a b e.settings.partLength.length = some parts ∧
      s = e.newSession name r a b parts := by
  unfold prepare at h
  split at h
  · cases h
  next name allowed =>
  split at h
  · cases h
  next sound =>
  simp only [bind, Option.bind_eq_some_iff] at h
  obtain ⟨⟨a, b⟩, bounds, parts, count, hs⟩ := h
  split_ifs at hs
  · cases hs
  cases hs
  exact ⟨name, a, b, parts, allowed, sound, bounds, count, rfl⟩

/-- An event that does nothing but touch the backend. -/
theorem effect_access {ev : Event} {b : Backend} (hf : e.backend.records.Filed)
    (free : ev.acquired? = none) (still : ev.deed? e = none)
    (h : b.records = e.backend.records) : Effect e ev .keep { e with backend := b } :=
  .quiet free still .keep rfl rfl rfl (fun h => h) (KeyMap.took_keep hf h)

theorem effect_start {r : ExportRequest} {answer : Except Error String}
    (hf : e.backend.records.Filed) (hn : e.now.Valid)
    (hp : e.settings.pageSize ≤ Numeral.maxUInt64) (exact : r.Exact)
    (h : e.start user r = some (answer, e')) : ∃ c, Effect e (.start user r answer) c e' := by
  unfold Engine.start at h
  obtain ⟨prepared, hprep, h⟩ := Option.map_eq_some_iff.1 h
  cases prepared with
  | error err =>
    cases h
    exact ⟨_, effect_access hf rfl rfl rfl⟩
  | ok s =>
    obtain ⟨name, a, b, parts, allowed, sound, bounds, count, rfl⟩ := prepare_eq_ok hprep
    have hstore : (e.newSession name r a b parts).Storable :=
      storable_newSession hn hp exact sound bounds
    rcases hg : (SessionStore.start (e.newSession name r a b parts)).run.run e.backend with ⟨res, bk⟩
    dsimp only at h
    rw [access_eq hg] at h
    rcases SessionStore.gives_start hf hstore rfl hg with ⟨⟨err, rfl⟩, took⟩ | ⟨rfl, took⟩
    · cases h
      exact ⟨_, .quiet rfl rfl .keep rfl rfl rfl (fun h => h) took⟩
    · cases h
      exact ⟨_, .started allowed exact sound bounds count rfl rfl rfl rfl took⟩

theorem effect_restore {answer : Except Error Unit} (hf : e.backend.records.Filed)
    (h : e.restore user id = (answer, e')) :
    ∃ c, Effect e (.restore user id answer) c e' ∧ (c = .keep ∨ c = .restore id) := by
  unfold Engine.restore at h
  split at h
  · cases h
    exact ⟨_, effect_access hf rfl rfl rfl, .inl rfl⟩
  rcases hg : (SessionStore.lockForRestore id).run.run e.backend with ⟨res, b⟩
  rw [access_eq hg] at h
  rcases SessionStore.gives_lockForRestore hf hg with ⟨⟨err, rfl⟩, took⟩ | ⟨⟨s, rfl⟩, took⟩
  · cases h
    exact ⟨_, .quiet rfl rfl .keep rfl rfl rfl (fun h => h) took, .inl rfl⟩
  · cases h
    exact ⟨_, .restored rfl rfl rfl rfl took, .inr rfl⟩

theorem effect_cancel {answer : Except Error Unit} (hf : e.backend.records.Filed)
    (hn : e.now.Valid) (h : e.cancel user id = (answer, e')) :
    ∃ c, Effect e (.cancel user id answer) c e' := by
  unfold Engine.cancel at h
  split at h
  · cases h
    exact ⟨_, effect_access hf rfl rfl rfl⟩
  rcases hg : (SessionStore.cancel e.now id).run.run e.backend with ⟨res, b⟩
  rw [access_eq hg] at h
  rcases SessionStore.gives_conclude hf hn (by decide) hg with
    ⟨⟨err, rfl⟩, took⟩ | ⟨⟨err, rfl⟩, took⟩ | ⟨rfl, took⟩
  · cases h
    exact ⟨_, .quiet rfl rfl .keep rfl rfl rfl (fun h => h) took⟩
  · cases h
    exact ⟨_, .quiet rfl rfl (.release id) rfl rfl rfl (fun h => h) took⟩
  · cases h
    exact ⟨_, .quiet rfl rfl (.cancel id _ _) rfl rfl rfl (fun h => h) took⟩

/-- On storage that does not fail, a start that is prepared works out if the lock
is free. -/
theorem start_quiet {r : ExportRequest} {s : Session} (prepared : e.prepare user r = some (.ok s))
    (quiet : e.backend.faults = {}) (free : e.backend.records.get? SessionKey.lock = none) :
    ∃ e', e.start user r = some (.ok s.id, e') := by
  simp only [Engine.start, prepared, Option.map_some,
    access_eq (SessionStore.start_quiet quiet free s)]
  exact ⟨_, rfl⟩

/-- On storage that does not fail, a session that runs and holds the lock can be
cancelled, which releases the lock. -/
theorem cancel_quiet {name : String} {s : Session} (allowed : e.authorize user = .ok name)
    (hf : e.backend.records.Filed) (hn : e.now.Valid) (quiet : e.backend.faults = {})
    (found : e.backend.records.shelf.session id = some s) (running : s.status = .start)
    (held : e.backend.records.shelf.holder = some id) :
    ∃ e', e.cancel user id = (.ok (), e') ∧ e'.settings = e.settings ∧ e'.now = e.now ∧
      e'.backend.faults = {} ∧ e'.backend.records.get? SessionKey.lock = none ∧
      e'.backend.records.shelf.session id = some (s.ended .cancel none e.now.reread) := by
  obtain ⟨batch, hg⟩ :=
    SessionStore.conclude_quiet hf quiet found running e.now .cancel none
  rcases SessionStore.gives_conclude hf hn (by decide) hg with
    ⟨⟨_, he⟩, -⟩ | ⟨⟨_, he⟩, -⟩ | ⟨-, filed, step⟩
  · cases he
  · cases he
  simp only [Engine.cancel, SessionStore.cancel, allowed, access_eq hg]
  exact ⟨_, rfl, rfl, rfl, quiet, filed.free_iff.1 (step.freed held), step.concluded found⟩

theorem effect_check (hf : e.backend.records.Filed) :
    Effect e (.check user id) .keep (e.check user id).2 := by
  unfold Engine.check
  split
  · exact effect_access hf rfl rfl rfl
  rcases hg : (SessionStore.check id).run.run e.backend with ⟨res, b⟩
  rw [access_eq hg]
  exact effect_access hf rfl rfl (SessionStore.gives_load hf hg).1

theorem effect_all (hf : e.backend.records.Filed) :
    Effect e (.all user) .keep (e.all user).2 := by
  unfold Engine.all
  split
  · exact effect_access hf rfl rfl rfl
  rcases hg : SessionStore.all.run.run e.backend with ⟨res, b⟩
  rw [access_eq hg]
  exact effect_access hf rfl rfl (SessionStore.gives_all hg).1

/-- Every event has one of the effects, on records that are in good order. -/
theorem Step.effect {ev : Event} (hf : e.backend.records.Filed) (hn : e.now.Valid)
    (hp : e.settings.pageSize ≤ Numeral.maxUInt64) (h : Step e ev e') : ∃ c, Effect e ev c e' := by
  have keep : e.backend.records.Took .keep e.backend.records := KeyMap.took_keep hf rfl
  cases h with
  | start exact h => exact effect_start hf hn hp exact h
  | restore h =>
    obtain ⟨c, effect, -⟩ := effect_restore hf h
    exact ⟨c, effect⟩
  | cancel h => exact effect_cancel hf hn h
  | check user id => exact ⟨_, effect_check hf⟩
  | all user => exact ⟨_, effect_all hf⟩
  | shutdown => exact ⟨_, .quiet rfl rfl .keep rfl rfl rfl (fun h => h) keep⟩
  | move h =>
    obtain ⟨p, id, stage, c, stage', h⟩ | ⟨still, counters, rfl⟩ := moved_step hf hn h
    · exact ⟨c, .moved h⟩
    · exact ⟨_, .quiet rfl still .keep rfl rfl rfl (fun h => h) keep⟩
  | clock valid => exact ⟨_, .quiet rfl rfl .keep rfl rfl rfl (fun _ => valid) keep⟩
  | faults plan => exact ⟨_, .quiet rfl rfl .keep rfl rfl rfl (fun h => h) keep⟩

theorem Effect.records {ev : Event} {c : Change} (h : Effect e ev c e') :
    e.backend.records.Took c e'.backend.records := by
  cases h with
  | quiet _ _ _ _ _ _ _ records => exact records
  | started _ _ _ _ _ _ _ _ _ records => exact records
  | restored _ _ _ _ records => exact records
  | moved h => exact h.records

theorem Effect.settings {ev : Event} {c : Change} (h : Effect e ev c e') :
    e'.settings = e.settings := by
  cases h with
  | quiet _ _ _ _ _ settings _ _ => exact settings
  | started _ _ _ _ _ _ _ settings _ _ => exact settings
  | restored _ _ settings _ _ => exact settings
  | moved h => exact h.settings

/-- The clock stays at moments that exist. -/
theorem Effect.now {ev : Event} {c : Change} (h : Effect e ev c e') (hn : e.now.Valid) :
    e'.now.Valid := by
  cases h with
  | quiet _ _ _ _ _ _ now _ => exact now hn
  | started _ _ _ _ _ _ _ _ now _ => exact now ▸ hn
  | restored _ _ _ now _ => exact now ▸ hn
  | moved h => exact h.now ▸ hn

end Calls

/-! ### One export -/

/-- Settings for parts of an hour. -/
def hourly : ExportSettings := { urlBase := "https://files.example.com" }

/-- Midnight at the begin of 2024. -/
def newYear : Instant := ⟨1704067200, 0⟩

/-- The first hour of 2024, searched ten minutes at a time. -/
def audit : ExportRequest :=
  { name := "audit", query := "*", start := ⟨newYear, 0⟩, stop := ⟨⟨1704070800, 0⟩, 0⟩,
    window := .ofSecs 600 }

/-- The id of the sample, if it is started at the begin of its range. -/
def auditId : String := "anonymous/audit_1704067200000"

theorem exact_audit : audit.Exact := ⟨by decide, by decide⟩

end Engine

end LogExport
