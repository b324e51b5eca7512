import LogExport.Proofs.Service.Calm

/-! A service begins if all stored sessions can be read. What it stores itself can
be, so a new one can begin over it at any time. -/

namespace LogExport

open Access

/-- The sessions in the order of their keys. -/
def KeyMap.listing (r : Records) : List Session :=
  (r.within SessionKey.range).filterMap fun e => Session.decode? e.2

namespace SessionStore

variable {b b' : Backend}

theorem eq_encode_of_decode {k : Bytes} {id : String} (h : SessionKey.decode k = .ok id) :
    k = SessionKey.encode id := by
  unfold SessionKey.decode at h
  split at h
  · next v t rest =>
    split_ifs at h with version
    unfold RecordType.ofId at h
    split_ifs at h with session
    · dsimp only at h
      split at h
      · next decoded =>
        cases h
        rw [version, session, ← Utf8.encode_of_decode? decoded]
        rfl
      · cases h
  · cases h

/-- Sessions can all be listed only if there is nothing else in their range. -/
theorem keyed_of_all {ss : List Session} (h : Gives all b (.ok ss) b') : b'.records.Keyed := by
  rcases gives_bind.1 h with ⟨_, _, he⟩ | ⟨es, b₁, scan, rest⟩
  · cases he
  obtain ⟨records, ⟨_, he⟩ | found⟩ := gives_scan scan
  · cases he
  cases found
  obtain ⟨rfl, all⟩ := gives_ofEntries rest
  intro k v hk contains
  rw [records] at hk
  obtain ⟨id, -, decoded, -⟩ := all ss rfl (k, v) (KeyMap.mem_within.2 ⟨hk, contains⟩)
  exact ⟨id, eq_encode_of_decode decoded⟩

theorem mapM_ofEntry {es : List Entry}
    (h : ∀ e ∈ es, ∃ s, SessionKey.decode e.1 = .ok s.id ∧ Session.decode? e.2 = some s) :
    Gives (es.mapM ofEntry) b (.ok (es.filterMap fun e => Session.decode? e.2)) b := by
  induction es with
  | nil => exact gives_pure.2 ⟨rfl, rfl⟩
  | cons e es ih =>
    obtain ⟨s, key, decoded⟩ := h e List.mem_cons_self
    have rest := ih fun e he => h e (List.mem_cons_of_mem _ he)
    have first : Gives (ofEntry e) b (.ok s) b := by
      simp only [ofEntry, key, ofFault, pure_bind, decode, decoded, if_true]
      exact gives_pure.2 ⟨rfl, rfl⟩
    simp only [List.mapM_cons, List.filterMap_cons, decoded]
    refine gives_bind.2 (.inr ⟨s, b, first, ?_⟩)
    exact gives_bind.2 (.inr ⟨_, b, rest, gives_pure.2 ⟨rfl, rfl⟩⟩)

/-- On storage that does not fail, sessions that are in order are all listed. -/
theorem all_quiet (filed : b.records.Filed) (keyed : b.records.Keyed) (quiet : b.faults = {}) :
    Gives all b (.ok b.records.listing) b := by
  have legible : ∀ e ∈ b.records.within SessionKey.range,
      ∃ s, SessionKey.decode e.1 = .ok s.id ∧ Session.decode? e.2 = some s := by
    rintro ⟨k, v⟩ he
    obtain ⟨found, contains⟩ := KeyMap.mem_within.1 he
    obtain ⟨id, rfl⟩ := keyed k v found contains
    obtain ⟨s, decoded, rfl⟩ := filed.session id v found
    exact ⟨s, SessionKey.decode_encode s.id, decoded⟩
  exact gives_bind.2 (.inr ⟨_, b, scan_quiet quiet _, mapM_ofEntry legible⟩)

end SessionStore

/-- Valid settings have a worker at least, and pages that are not empty. -/
theorem ExportSettings.pos_of_validate {s : ExportSettings} {length : PartLength}
    (h : s.validate = .ok length) : 0 < s.workers ∧ 0 < s.pageSize := by
  simp only [validate, bind, Except.bind] at h
  split at h
  · cases h
  · split_ifs at h with workers url pages queue
    exact ⟨Nat.pos_of_ne_zero workers, Nat.pos_of_ne_zero pages⟩

namespace Engine

variable {e : Engine}

/-- An engine begins only if all sessions can be read. -/
theorem keyed_of_create {s : ExportSettings} {b b' : Backend} {now : Instant} {files : Files}
    (h : create s b now files = (.ok e, b')) : e.backend.records.Keyed := by
  unfold create at h
  split at h
  · cases h
  next length _ =>
  rcases hg : (do
      SessionStore.unlock
      let _ ← SessionStore.all : Access Unit).run.run b with ⟨r, b₁⟩
  simp only [access, hg] at h
  cases r with
  | error err => cases h
  | ok _ =>
    cases h
    rcases gives_bind.1 hg with ⟨_, _, he⟩ | ⟨_, b₂, -, hg⟩
    · cases he
    rcases gives_bind.1 hg with ⟨_, _, he⟩ | ⟨ss, b₃, all, hg⟩
    · cases he
    obtain ⟨-, rfl⟩ := gives_pure.1 hg
    exact SessionStore.keyed_of_all all

/-- An engine is set up as its settings tell. -/
theorem settings_of_create {s : ExportSettings} {b b' : Backend} {now : Instant} {files : Files}
    (h : create s b now files = (.ok e, b')) :
    ∃ length, s.validate = .ok length ∧ e.settings =
      { partLength := length, workers := s.workers, pageSize := s.pageSize,
        queueSize := s.taskQueueSize, allowedUsers := s.allowedUsers } := by
  unfold create at h
  split at h
  · cases h
  next length valid =>
  dsimp only at h
  rcases hg : access _ _ with ⟨r, e₁⟩
  rw [hg] at h
  obtain ⟨-, rfl⟩ := Prod.mk.inj hg
  cases r <;> cases h
  exact ⟨length, valid, rfl⟩

/-- An engine that could be created asks for pages that are not empty. -/
theorem pageSize_pos_of_create {s : ExportSettings} {b b' : Backend} {now : Instant} {files : Files}
    (h : create s b now files = (.ok e, b')) : 0 < s.pageSize := by
  obtain ⟨length, valid, -⟩ := settings_of_create h
  exact (ExportSettings.pos_of_validate valid).2

theorem allowedUsers_of_create {s : ExportSettings} {b b' : Backend} {now : Instant} {files : Files}
    (h : create s b now files = (.ok e, b')) : e.settings.allowedUsers = s.allowedUsers := by
  obtain ⟨length, -, settings⟩ := settings_of_create h
  rw [settings]

/-- Over what a service has left, a new one can begin at any time. -/
theorem exists_create {s : ExportSettings} {length : PartLength} {b : Backend}
    (valid : s.validate = .ok length) (filed : b.records.Filed) (keyed : b.records.Keyed)
    (quiet : b.faults = {}) (now : Instant) (files : Files) :
    ∃ e b', create s b now files = (.ok e, b') := by
  generalize hb : ({ b with records := b.records.write SessionStore.dropLock } : Backend) = b₁
  have unlock : Gives SessionStore.unlock b (.ok ()) b₁ := hb ▸ apply_quiet quiet _
  obtain ⟨ss, all⟩ : ∃ ss, Gives SessionStore.all b₁ (.ok ss) b₁ := by
    subst hb
    exact ⟨_, SessionStore.all_quiet filed.dropLock (keyed.erase _) quiet⟩
  have both : Gives (do
      SessionStore.unlock
      let _ ← SessionStore.all : Access Unit) b (.ok ()) b₁ :=
    gives_bind.2 (.inr ⟨(), b₁, unlock, gives_bind.2 (.inr ⟨ss, b₁, all, gives_pure.2 ⟨rfl, rfl⟩⟩)⟩)
  unfold create
  rw [valid]
  dsimp only
  rw [access_eq (e := { settings := _, backend := b, now, files }) both]
  exact ⟨_, _, rfl⟩

/-- Whatever happens, sessions that could be read can be read again. -/
theorem Step.keyed {e' : Engine} {ev : Event} (step : Step e ev e')
    (keyed : e.backend.records.Keyed) : e'.backend.records.Keyed := by
  by_cases shut : ev = .shutdown
  · subst shut
    cases step
    exact keyed
  · by_cases planned : ∃ plan, ev = .faults plan
    · obtain ⟨plan, rfl⟩ := planned
      cases step
      exact keyed
    · exact (step.calm shut fun plan hp => planned ⟨plan, hp⟩).keyed keyed

theorem Run.keyed {e' : Engine} {evs : List Event} (run : Run e evs e')
    (keyed : e.backend.records.Keyed) : e'.backend.records.Keyed := by
  induction run with
  | nil => exact keyed
  | cons step _ ih => exact ih (step.keyed keyed)

end Engine

end LogExport
