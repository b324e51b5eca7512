import Mathlib.Logic.Function.Basic
import LogExport.Proofs.Session.Codec
import LogExport.Proofs.Store.Access
import LogExport.Session.Store

/-! What the records say: which session is stored under an id, and which id
holds the lock. Every computation on the sessions either leaves this as it is
or takes one of the steps listed here. -/

namespace LogExport

open Access

/-- The stored sessions and the holder of the lock. -/
structure Shelf where
  session : String → Option Session
  holder : Option String

namespace KeyMap

/-- The shelf that records describe. -/
def shelf (r : Records) : Shelf :=
  { session := fun id => (r.get? (SessionKey.encode id)).bind Session.decode?
    holder := (r.get? SessionKey.lock).bind fun bs => (decodeLock bs).toOption }

/-- Every session is stored under its own id, and the lock holds an id. -/
structure Filed (r : Records) : Prop where
  session : ∀ id bs, r.get? (SessionKey.encode id) = some bs →
    ∃ s, Session.decode? bs = some s ∧ s.id = id
  lock : ∀ bs, r.get? SessionKey.lock = some bs → ∃ id, decodeLock bs = .ok id

theorem Filed.id_eq {r : Records} (hf : r.Filed) {id : String} {s : Session}
    (h : r.shelf.session id = some s) : s.id = id := by
  obtain ⟨bs, hbs, hd⟩ := Option.bind_eq_some_iff.1 h
  obtain ⟨t, ht, hid⟩ := hf.session id bs hbs
  rw [hd] at ht
  cases ht
  exact hid

/-- Nobody holds the lock only if there is no record of it. -/
theorem Filed.free_iff {r : Records} (hf : r.Filed) :
    r.shelf.holder = none ↔ r.get? SessionKey.lock = none := by
  constructor
  · intro h
    cases hg : r.get? SessionKey.lock with
    | none => rfl
    | some bs =>
      obtain ⟨id, hid⟩ := hf.lock bs hg
      simp only [shelf, hg, Option.bind_some, hid, Except.toOption] at h
      cases h
  · intro h
    simp only [shelf, h, Option.bind_none]

theorem settled_of_shelf {r : Records} {id : String} {s : Session}
    (h : r.shelf.session id = some s) : s.Settled := by
  obtain ⟨bs, -, hd⟩ := Option.bind_eq_some_iff.1 h
  exact Session.settled_of_decode? hd

theorem decodeLock_encode (id : String) : decodeLock (Utf8.encode id) = .ok id := by
  rw [decodeLock, Utf8.decode?_encode]

/-! ### Single writes -/

section Writes

variable {r : Records}

theorem shelf_putSession {s : Session} (hs : s.Storable) :
    (r.write (SessionStore.putSession s)).shelf =
      ⟨Function.update r.shelf.session s.id (some s.stored), r.shelf.holder⟩ := by
  simp only [shelf, write, SessionStore.putSession, get?_insert, Shelf.mk.injEq]
  refine ⟨?_, by rw [if_neg (SessionKey.encode_ne_lock s.id)]⟩
  funext id
  by_cases h : id = s.id
  · rw [h, Function.update_self, if_pos rfl, Option.bind_some, Session.decode?_encode hs]
  · rw [Function.update_of_ne h, if_neg fun he => h (SessionKey.encode_inj he).symm]

theorem shelf_putLock (id : String) :
    (r.write (SessionStore.putLock id)).shelf = ⟨r.shelf.session, some id⟩ := by
  simp only [shelf, write, SessionStore.putLock, get?_insert, Shelf.mk.injEq]
  constructor
  · funext i
    rw [if_neg fun he => SessionKey.encode_ne_lock i he.symm]
  · rw [if_pos trivial, Option.bind_some, decodeLock_encode]
    rfl

theorem get?_dropLock (r : Records) (id : String) :
    (r.write SessionStore.dropLock).get? (SessionKey.encode id) =
      r.get? (SessionKey.encode id) := by
  simp only [write, SessionStore.dropLock, get?_erase]
  rw [if_neg fun he => SessionKey.encode_ne_lock id he.symm]

theorem shelf_dropLock :
    (r.write SessionStore.dropLock).shelf = ⟨r.shelf.session, none⟩ := by
  simp only [shelf, write, SessionStore.dropLock, get?_erase, Shelf.mk.injEq]
  constructor
  · funext i
    rw [if_neg fun he => SessionKey.encode_ne_lock i he.symm]
  · rw [if_pos trivial]
    rfl

theorem Filed.putSession {s : Session} (hf : r.Filed) (hs : s.Storable) :
    (r.write (SessionStore.putSession s)).Filed := by
  constructor
  · intro id bs h
    simp only [write, SessionStore.putSession, get?_insert] at h
    split at h
    · next hk =>
      cases h
      exact ⟨s.stored, Session.decode?_encode hs, SessionKey.encode_inj hk⟩
    · exact hf.session id bs h
  · intro bs h
    simp only [write, SessionStore.putSession, get?_insert,
      if_neg (SessionKey.encode_ne_lock s.id)] at h
    exact hf.lock bs h

theorem Filed.putLock (hf : r.Filed) (id : String) :
    (r.write (SessionStore.putLock id)).Filed := by
  constructor
  · intro i bs h
    simp only [write, SessionStore.putLock, get?_insert] at h
    rw [if_neg fun he => SessionKey.encode_ne_lock i he.symm] at h
    exact hf.session i bs h
  · intro bs h
    simp only [write, SessionStore.putLock, get?_insert] at h
    cases h
    exact ⟨id, decodeLock_encode id⟩

theorem Filed.dropLock (hf : r.Filed) : (r.write SessionStore.dropLock).Filed := by
  constructor
  · intro i bs h
    simp only [write, SessionStore.dropLock, get?_erase] at h
    rw [if_neg fun he => SessionKey.encode_ne_lock i he.symm] at h
    exact hf.session i bs h
  · intro bs h
    simp only [write, SessionStore.dropLock, get?_erase] at h
    cases h

end Writes

end KeyMap

/-! ### Steps -/

/-- A change that one computation makes, with the session as it is stored. -/
inductive Change where
  | keep
  | start (s : Session)
  | restore (id : String)
  | release (id : String)
  | conclude (id : String) (status : Status) (error : Option String) (now : Instant)
  | confirm (id : String) (part : Nat) (size : Sizes)
  | unlock

/-- The session that a change stores anew. -/
def Change.started? : Change → Option Session
  | start s => some s
  | _ => none

/-- When a change can happen, and the shelf after it. -/
inductive Shelf.Step (v : Shelf) : Change → Shelf → Prop
  | keep : Step v .keep v
  | start {s : Session} (running : s.status = .start) (free : v.holder = none) :
    Step v (.start s) ⟨Function.update v.session s.id (some s), some s.id⟩
  | restore {id : String} {s : Session} (found : v.session id = some s)
      (running : s.status = .start) (free : v.holder = none) :
    Step v (.restore id) ⟨v.session, some id⟩
  | release {id : String} {s : Session} (found : v.session id = some s)
      (ended : s.status ≠ .start) (held : v.holder = some id) :
    Step v (.release id) ⟨v.session, none⟩
  | conclude {id : String} {s : Session} {status : Status} {error : Option String} {now : Instant}
      (found : v.session id = some s) (running : s.status = .start) (ends : status ≠ .start) :
    Step v (.conclude id status error now)
      ⟨Function.update v.session id (some (s.ended status error now)),
        if v.holder = some id then none else v.holder⟩
  | confirm {id : String} {s : Session} {part : Nat} {size : Sizes}
      (found : v.session id = some s) (missing : s.uploaded[part]? = some false) :
    Step v (.confirm id part size)
      ⟨Function.update v.session id (some (s.confirm part size)), v.holder⟩
  | unlock : Step v .unlock ⟨v.session, none⟩

theorem Shelf.Step.started {v v' : Shelf} {s : Session} (h : v.Step (.start s) v') :
    v'.session s.id = some s := by
  cases h with
  | start => exact Function.update_self ..

theorem Shelf.Step.confirmed {v v' : Shelf} {id : String} {part : Nat} {size : Sizes} {s : Session}
    (h : v.Step (.confirm id part size) v') (hs : v.session id = some s) :
    v'.session id = some (s.confirm part size) := by
  cases h with
  | confirm found =>
    rw [hs] at found
    cases found
    exact Function.update_self ..

theorem Shelf.Step.concluded {v v' : Shelf} {id : String} {status : Status}
    {error : Option String} {now : Instant} {s : Session}
    (h : v.Step (.conclude id status error now) v') (hs : v.session id = some s) :
    v'.session id = some (s.ended status error now) := by
  cases h with
  | conclude found =>
    rw [hs] at found
    cases found
    exact Function.update_self ..

/-- The lock is released with the session that holds it. -/
theorem Shelf.Step.freed {v v' : Shelf} {id : String} {status : Status} {error : Option String}
    {now : Instant} (h : v.Step (.conclude id status error now) v') (held : v.holder = some id) :
    v'.holder = none := by
  cases h with
  | conclude => exact if_pos held

/-- The records after a change, in good order again. -/
def KeyMap.Took (r : Records) (c : Change) (r' : Records) : Prop :=
  r'.Filed ∧ r.shelf.Step c r'.shelf

theorem KeyMap.took_keep {r r' : Records} (hf : r.Filed) (h : r' = r) : r.Took .keep r' := by
  subst h
  exact ⟨hf, .keep⟩

namespace SessionStore

variable {b b' : Backend}

theorem gives_load {id : String} {r : Except Error Session} (hf : b.records.Filed)
    (h : Gives (load id) b r b') :
    b'.records = b.records ∧
      ((∃ e, r = .error e) ∨ ∃ s, r = .ok s ∧ b.records.shelf.session id = some s) := by
  rcases gives_bind.1 h with ⟨e, hr, rfl⟩ | ⟨o, b₁, hr, hd⟩
  · exact ⟨(gives_read hr).1, .inl ⟨e, rfl⟩⟩
  · obtain ⟨hb, ⟨e, he⟩ | ho⟩ := gives_read hr
    · cases he
    · cases ho
      cases hg : b.records.get? (SessionKey.encode id) with
      | none =>
        rw [hg] at hd
        obtain ⟨rfl, rfl⟩ := gives_throw.1 hd
        exact ⟨hb, .inl ⟨_, rfl⟩⟩
      | some bs =>
        obtain ⟨s, hs, -⟩ := hf.session id bs hg
        rw [hg] at hd
        simp only [decode, hs] at hd
        obtain ⟨rfl, rfl⟩ := gives_pure.1 hd
        exact ⟨hb, .inr ⟨s, rfl, by simp only [KeyMap.shelf, hg, Option.bind_some, hs]⟩⟩

theorem gives_holder {r : Except Error (Option String)} (hf : b.records.Filed)
    (h : Gives holder b r b') :
    b'.records = b.records ∧ ((∃ e, r = .error e) ∨ r = .ok b.records.shelf.holder) := by
  rcases gives_bind.1 h with ⟨e, hr, rfl⟩ | ⟨o, b₁, hr, hd⟩
  · exact ⟨(gives_read hr).1, .inl ⟨e, rfl⟩⟩
  · obtain ⟨hb, ⟨e, he⟩ | ho⟩ := gives_read hr
    · cases he
    · cases ho
      cases hg : b.records.get? SessionKey.lock with
      | none =>
        rw [hg] at hd
        obtain ⟨rfl, rfl⟩ := gives_pure.1 hd
        exact ⟨hb, .inr (by simp only [KeyMap.shelf, hg, Option.bind_none])⟩
      | some bs =>
        obtain ⟨id, hid⟩ := hf.lock bs hg
        rw [hg] at hd
        simp only [hid, ofFault, pure_bind] at hd
        obtain ⟨rfl, rfl⟩ := gives_pure.1 hd
        exact ⟨hb, .inr (by simp only [KeyMap.shelf, hg, Option.bind_some, hid, Except.toOption])⟩

theorem gives_requireFree {r : Except Error Unit} (hf : b.records.Filed)
    (h : Gives requireFree b r b') :
    b'.records = b.records ∧
      ((∃ e, r = .error e) ∨ r = .ok () ∧ b.records.shelf.holder = none) := by
  rcases gives_bind.1 h with ⟨e, hr, rfl⟩ | ⟨o, b₁, hr, hd⟩
  · exact ⟨(gives_holder hf hr).1, .inl ⟨e, rfl⟩⟩
  · obtain ⟨hb, ⟨e, he⟩ | ho⟩ := gives_holder hf hr
    · cases he
    · cases ho
      cases hg : b.records.shelf.holder with
      | none =>
        rw [hg] at hd
        obtain ⟨rfl, rfl⟩ := gives_pure.1 hd
        exact ⟨hb, .inr ⟨rfl, rfl⟩⟩
      | some id =>
        rw [hg] at hd
        obtain ⟨rfl, rfl⟩ := gives_throw.1 hd
        exact ⟨hb, .inl ⟨_, rfl⟩⟩

/-- A start stores the session and takes the lock, or changes nothing. -/
theorem gives_start {s : Session} {r : Except Error Unit} (hf : b.records.Filed) (hs : s.Storable)
    (running : s.status = .start) (h : Gives (start s) b r b') :
    (∃ e, r = .error e) ∧ b.records.Took .keep b'.records ∨
      r = .ok () ∧ b.records.Took (.start s.stored) b'.records := by
  rcases gives_bind.1 h with ⟨e, hr, rfl⟩ | ⟨_, b₁, hr, ha⟩
  · exact .inl ⟨⟨e, rfl⟩, KeyMap.took_keep hf (gives_requireFree hf hr).1⟩
  · obtain ⟨hb, ⟨e, he⟩ | ⟨-, free⟩⟩ := gives_requireFree hf hr
    · cases he
    · rcases gives_apply ha with ⟨e, rfl, hb'⟩ | ⟨rfl, hb'⟩
      · exact .inl ⟨⟨e, rfl⟩, KeyMap.took_keep hf (hb'.trans hb)⟩
      · refine .inr ⟨rfl, ?_⟩
        rw [hb', hb]
        refine ⟨(hf.putSession hs).putLock s.id, ?_⟩
        show b.records.shelf.Step _ ((b.records.write (putSession s)).write (putLock s.id)).shelf
        rw [KeyMap.shelf_putLock, KeyMap.shelf_putSession hs]
        exact .start (s := s.stored) running free

/-- A restore takes the lock for a stored session that runs, or changes
nothing. -/
theorem gives_lockForRestore {id : String} {r : Except Error Session} (hf : b.records.Filed)
    (h : Gives (lockForRestore id) b r b') :
    (∃ e, r = .error e) ∧ b.records.Took .keep b'.records ∨
      (∃ s, r = .ok s) ∧ b.records.Took (.restore id) b'.records := by
  rcases gives_bind.1 h with ⟨e, hr, rfl⟩ | ⟨s, b₁, hr, h⟩
  · exact .inl ⟨⟨e, rfl⟩, KeyMap.took_keep hf (gives_load hf hr).1⟩
  obtain ⟨hb, ⟨e, he⟩ | ⟨_, ⟨⟩, found⟩⟩ := gives_load hf hr
  · cases he
  rw [← hb] at hf found ⊢
  by_cases running : s.status = .start
  · simp only [running, bne_self_eq_false, Bool.false_eq_true, if_false] at h
    rcases gives_bind.1 h with ⟨e, hr, rfl⟩ | ⟨_, b₂, hr, h⟩
    · exact .inl ⟨⟨e, rfl⟩, KeyMap.took_keep hf (gives_requireFree hf hr).1⟩
    obtain ⟨hb₂, ⟨e, he⟩ | ⟨-, free⟩⟩ := gives_requireFree hf hr
    · cases he
    rw [← hb₂] at hf found free ⊢
    rcases gives_bind.1 h with ⟨e, ha, rfl⟩ | ⟨_, b₃, ha, h⟩
    · rcases gives_apply ha with ⟨_, -, hb'⟩ | ⟨he, -⟩
      · exact .inl ⟨⟨e, rfl⟩, KeyMap.took_keep hf hb'⟩
      · cases he
    · obtain ⟨rfl, rfl⟩ := gives_pure.1 h
      rcases gives_apply ha with ⟨_, he, -⟩ | ⟨-, hb'⟩
      · cases he
      · refine .inr ⟨⟨s, rfl⟩, ?_⟩
        rw [hb']
        refine ⟨hf.putLock id, ?_⟩
        show b₂.records.shelf.Step _ (b₂.records.write (putLock id)).shelf
        rw [KeyMap.shelf_putLock]
        exact .restore found running free
  · simp only [bne_iff_ne, ne_eq, running, not_false_eq_true, if_true] at h
    rcases gives_bind.1 h with ⟨e, ht, rfl⟩ | ⟨_, b₂, ht, -⟩
    · exact .inl ⟨⟨e, rfl⟩, KeyMap.took_keep hf (congrArg _ (gives_throw.1 ht).2)⟩
    · cases (gives_throw.1 ht).1

/-- A part that is still missing is marked, or nothing changes. -/
theorem gives_confirm {id : String} {part : Nat} {size : Sizes} {r : Except Error Unit}
    (hf : b.records.Filed) (h : Gives (confirm id part size) b r b') :
    (∃ e, r = .error e) ∧ b.records.Took .keep b'.records ∨
      r = .ok () ∧ b.records.Took (.confirm id part size) b'.records := by
  rcases gives_bind.1 h with ⟨e, hr, rfl⟩ | ⟨s, b₁, hr, h⟩
  · exact .inl ⟨⟨e, rfl⟩, KeyMap.took_keep hf (gives_load hf hr).1⟩
  obtain ⟨hb, ⟨e, he⟩ | ⟨_, ⟨⟩, found⟩⟩ := gives_load hf hr
  · cases he
  rw [← hb] at hf found ⊢
  split at h
  · obtain ⟨rfl, rfl⟩ := gives_throw.1 h
    exact .inl ⟨⟨_, rfl⟩, KeyMap.took_keep hf rfl⟩
  · obtain ⟨rfl, rfl⟩ := gives_throw.1 h
    exact .inl ⟨⟨_, rfl⟩, KeyMap.took_keep hf rfl⟩
  · next missing =>
    rcases gives_apply h with ⟨e, rfl, hb'⟩ | ⟨rfl, hb'⟩
    · exact .inl ⟨⟨e, rfl⟩, KeyMap.took_keep hf hb'⟩
    · have hs := Session.settled_confirm (KeyMap.settled_of_shelf found) part size
      refine .inr ⟨rfl, ?_⟩
      rw [hb']
      refine ⟨hf.putSession hs.toStorable, ?_⟩
      show b₁.records.shelf.Step _ (b₁.records.write (putSession (s.confirm part size))).shelf
      rw [KeyMap.shelf_putSession hs.toStorable, hs.kept]
      rw [show (s.confirm part size).id = id from (hf.id_eq found : s.id = id)]
      exact .confirm found missing

/-- A session that runs is ended and gives the lock back. One that has ended
before only gives the lock back. -/
theorem gives_conclude {now : Instant} {id : String} {status : Status} {error : Option String}
    {r : Except Error Unit} (hf : b.records.Filed) (hn : now.Valid) (ends : status ≠ .start)
    (h : Gives (conclude now id status error) b r b') :
    (∃ e, r = .error e) ∧ b.records.Took .keep b'.records ∨
      (∃ e, r = .error e) ∧ b.records.Took (.release id) b'.records ∨
      r = .ok () ∧ b.records.Took (.conclude id status error now.reread) b'.records := by
  rcases gives_bind.1 h with ⟨e, hr, rfl⟩ | ⟨s, b₁, hr, h⟩
  · exact .inl ⟨⟨e, rfl⟩, KeyMap.took_keep hf (gives_load hf hr).1⟩
  obtain ⟨hb, ⟨e, he⟩ | ⟨_, ⟨⟩, found⟩⟩ := gives_load hf hr
  · cases he
  rw [← hb] at hf found ⊢
  rcases gives_bind.1 h with ⟨e, hr, rfl⟩ | ⟨o, b₂, hr, h⟩
  · exact .inl ⟨⟨e, rfl⟩, KeyMap.took_keep hf (gives_holder hf hr).1⟩
  obtain ⟨hb₂, ⟨e, he⟩ | ho⟩ := gives_holder hf hr
  · cases he
  cases ho
  rw [← hb₂] at hf found h ⊢
  by_cases running : s.status = .start
  · -- The session runs: one batch ends it and drops the lock if it holds it.
    simp only [running, Status.isTerminal, Bool.false_eq_true, if_false] at h
    have hs := KeyMap.settled_of_shelf found
    have hput := Session.storable_ended hs status error hn
    rcases gives_apply h with ⟨e, rfl, hb'⟩ | ⟨rfl, hb'⟩
    · exact .inl ⟨⟨e, rfl⟩, KeyMap.took_keep hf hb'⟩
    · refine .inr (.inr ⟨rfl, ?_⟩)
      have step : b₂.records.shelf.Step (.conclude id status error now.reread) _ :=
        .conclude found running ends
      have hid : (s.ended status error now).id = id := (hf.id_eq found : s.id = id)
      rw [hb']
      split at step
      · next held =>
        simp only [held, if_true]
        refine ⟨hf.dropLock.putSession hput, ?_⟩
        show b₂.records.shelf.Step _
          ((b₂.records.write dropLock).write (putSession (s.ended status error now))).shelf
        rw [KeyMap.shelf_putSession hput, KeyMap.shelf_dropLock, hid, Session.stored_ended hs]
        exact step
      · next held =>
        simp only [held, if_false]
        refine ⟨hf.putSession hput, ?_⟩
        show b₂.records.shelf.Step _
          (b₂.records.write (putSession (s.ended status error now))).shelf
        rw [KeyMap.shelf_putSession hput, hid, Session.stored_ended hs]
        exact step
  · -- The session has ended: only a lock that it still holds is dropped.
    have ht : s.status.isTerminal = true := by
      cases hst : s.status <;> first | rfl | exact absurd hst running
    simp only [ht, if_true] at h
    by_cases held : b₂.records.shelf.holder = some id
    · simp only [held, if_true, List.isEmpty_cons, Bool.not_false] at h
      rcases gives_bind.1 h with ⟨e, ha, rfl⟩ | ⟨_, b₃, ha, h⟩
      · rcases gives_apply ha with ⟨_, -, hb'⟩ | ⟨he, -⟩
        · exact .inl ⟨⟨e, rfl⟩, KeyMap.took_keep hf hb'⟩
        · cases he
      rcases gives_apply ha with ⟨_, he, -⟩ | ⟨-, hb'⟩
      · cases he
      obtain ⟨rfl, rfl⟩ := gives_throw_bind.1 h
      refine .inr (.inl ⟨⟨_, rfl⟩, ?_⟩)
      rw [hb']
      refine ⟨hf.dropLock, ?_⟩
      show b₂.records.shelf.Step _ (b₂.records.write dropLock).shelf
      rw [KeyMap.shelf_dropLock]
      exact .release found running held
    · simp only [held, if_false, List.isEmpty_nil, Bool.not_true, Bool.false_eq_true] at h
      obtain ⟨rfl, rfl⟩ := gives_throw_bind.1 h
      exact .inl ⟨⟨_, rfl⟩, KeyMap.took_keep hf rfl⟩

/-- The lock is cleared, or nothing changes. -/
theorem gives_unlock {r : Except Error Unit} (h : Gives unlock b r b') :
    (∃ e, r = .error e ∧ b'.records = b.records) ∨
      r = .ok () ∧ b'.records = b.records.write dropLock :=
  gives_apply h

theorem gives_ofEntry {e : Entry} {r : Except Error Session} (h : Gives (ofEntry e) b r b') :
    b' = b ∧ ∀ t, r = .ok t →
      ∃ id s, SessionKey.decode e.1 = .ok id ∧ Session.decode? e.2 = some s ∧ s.id = id := by
  cases hk : SessionKey.decode e.1 with
  | error f =>
    simp only [ofEntry, hk, ofFault] at h
    obtain ⟨rfl, rfl⟩ := gives_throw_bind.1 h
    exact ⟨rfl, fun t ht => by cases ht⟩
  | ok key =>
    cases hd : Session.decode? e.2 with
    | none =>
      simp only [ofEntry, hk, ofFault, pure_bind, decode, hd] at h
      obtain ⟨rfl, rfl⟩ := gives_throw_bind.1 h
      exact ⟨rfl, fun t ht => by cases ht⟩
    | some s =>
      simp only [ofEntry, hk, ofFault, pure_bind, decode, hd] at h
      by_cases hid : s.id = key
      · simp only [hid, if_true] at h
        obtain ⟨-, rfl⟩ := gives_pure.1 h
        exact ⟨rfl, fun t _ => ⟨key, s, rfl, rfl, hid⟩⟩
      · simp only [hid, if_false] at h
        obtain ⟨rfl, rfl⟩ := gives_throw.1 h
        exact ⟨rfl, fun t ht => by cases ht⟩

theorem gives_ofEntries {es : List Entry} {r : Except Error (List Session)}
    (h : Gives (es.mapM ofEntry) b r b') :
    b' = b ∧ ∀ ss, r = .ok ss → ∀ e ∈ es,
      ∃ id s, SessionKey.decode e.1 = .ok id ∧ Session.decode? e.2 = some s ∧ s.id = id := by
  induction es generalizing r b' with
  | nil =>
    obtain ⟨rfl, rfl⟩ := gives_pure.1 h
    exact ⟨rfl, fun _ _ e he => by cases he⟩
  | cons e es ih =>
    rw [List.mapM_cons] at h
    rcases gives_bind.1 h with ⟨f, he, rfl⟩ | ⟨s, b₁, he, hrest⟩
    · exact ⟨(gives_ofEntry he).1, fun _ ht => by cases ht⟩
    obtain ⟨rfl, hs⟩ := gives_ofEntry he
    rcases gives_bind.1 hrest with ⟨f, hes, rfl⟩ | ⟨ss, b₂, hes, hend⟩
    · exact ⟨(ih hes).1, fun _ ht => by cases ht⟩
    obtain ⟨rfl, hss⟩ := ih hes
    obtain ⟨-, rfl⟩ := gives_pure.1 hend
    refine ⟨rfl, fun _ _ e' he' => ?_⟩
    rcases List.mem_cons.1 he' with rfl | he'
    · exact hs s rfl
    · exact hss ss rfl e' he'

/-- Sessions that can all be listed are all stored under their own ids. -/
theorem gives_all {r : Except Error (List Session)} (h : Gives all b r b') :
    b'.records = b.records ∧ ∀ ss, r = .ok ss →
      ∀ id bs, b.records.get? (SessionKey.encode id) = some bs →
        ∃ s, Session.decode? bs = some s ∧ s.id = id := by
  rcases gives_bind.1 h with ⟨e, hr, rfl⟩ | ⟨es, b₁, hr, h⟩
  · exact ⟨(gives_scan hr).1, fun _ hs => by cases hs⟩
  obtain ⟨hb, ⟨e, he⟩ | he⟩ := gives_scan hr
  · cases he
  cases he
  obtain ⟨rfl, hall⟩ := gives_ofEntries h
  refine ⟨hb, fun ss hs id bs hg => ?_⟩
  obtain ⟨i, s, hi, hd, hid⟩ := hall ss hs (SessionKey.encode id, bs)
    (KeyMap.mem_within.2 ⟨hg, SessionKey.contains_encode id⟩)
  rw [SessionKey.decode_encode] at hi
  cases hi
  exact ⟨s, hd, hid⟩

/-! ### Without failures -/

theorem load_quiet {id : String} {s : Session} (hq : b.faults = {})
    (found : b.records.shelf.session id = some s) : Gives (load id) b (.ok s) b := by
  obtain ⟨bs, hbs, hd⟩ := Option.bind_eq_some_iff.1 found
  refine gives_bind.2 (.inr ⟨_, b, read_quiet hq _, ?_⟩)
  rw [hbs]
  simp only [decode, hd]
  exact gives_pure.2 ⟨rfl, rfl⟩

theorem holder_quiet (hf : b.records.Filed) (hq : b.faults = {}) :
    Gives holder b (.ok b.records.shelf.holder) b := by
  refine gives_bind.2 (.inr ⟨_, b, read_quiet hq _, ?_⟩)
  cases hg : b.records.get? SessionKey.lock with
  | none => exact gives_pure.2 ⟨by simp only [KeyMap.shelf, hg, Option.bind_none], rfl⟩
  | some bs =>
    obtain ⟨id, hid⟩ := hf.lock bs hg
    simp only [hid, ofFault, pure_bind]
    refine gives_pure.2 ⟨?_, rfl⟩
    simp only [KeyMap.shelf, hg, Option.bind_some, hid, Except.toOption]

theorem confirm_quiet {id : String} {s : Session} {part : Nat} (hq : b.faults = {})
    (found : b.records.shelf.session id = some s) (missing : s.uploaded[part]? = some false)
    (size : Sizes) :
    Gives (confirm id part size) b (.ok ())
      { b with records := b.records.apply [putSession (s.confirm part size)] } := by
  refine gives_bind.2 (.inr ⟨s, b, load_quiet hq found, ?_⟩)
  simp only [missing]
  exact apply_quiet hq _

theorem conclude_quiet {id : String} {s : Session} (hf : b.records.Filed) (hq : b.faults = {})
    (found : b.records.shelf.session id = some s) (running : s.status = .start) (now : Instant)
    (status : Status) (error : Option String) :
    ∃ batch, Gives (conclude now id status error) b (.ok ())
      { b with records := b.records.apply batch } := by
  refine ⟨(if b.records.shelf.holder = some id then [dropLock] else []) ++
    [putSession (s.ended status error now)], ?_⟩
  refine gives_bind.2 (.inr ⟨s, b, load_quiet hq found, ?_⟩)
  refine gives_bind.2 (.inr ⟨_, b, holder_quiet hf hq, ?_⟩)
  simp only [running, Status.isTerminal, Bool.false_eq_true, if_false]
  exact apply_quiet hq _

theorem requireFree_quiet (hq : b.faults = {}) (free : b.records.get? SessionKey.lock = none) :
    Gives requireFree b (.ok ()) b := by
  refine gives_bind.2 (.inr ⟨none, b, gives_bind.2 (.inr ⟨_, b, read_quiet hq _, ?_⟩), ?_⟩)
  · rw [free]
    exact gives_pure.2 ⟨rfl, rfl⟩
  · exact gives_pure.2 ⟨rfl, rfl⟩

theorem start_quiet (hq : b.faults = {}) (free : b.records.get? SessionKey.lock = none)
    (s : Session) :
    Gives (start s) b (.ok ())
      { b with records := b.records.apply [putSession s, putLock s.id] } :=
  gives_bind.2 (.inr ⟨(), b, requireFree_quiet hq free, apply_quiet hq _⟩)

theorem lockForRestore_quiet {id : String} {s : Session} (hq : b.faults = {})
    (found : b.records.shelf.session id = some s) (running : s.status = .start)
    (free : b.records.get? SessionKey.lock = none) :
    Gives (lockForRestore id) b (.ok s)
      { b with records := b.records.insert SessionKey.lock (Utf8.encode id) } := by
  refine gives_bind.2 (.inr ⟨s, b, load_quiet hq found, ?_⟩)
  simp only [running, bne_self_eq_false, Bool.false_eq_true, if_false]
  refine gives_bind.2 (.inr ⟨(), b, requireFree_quiet hq free, ?_⟩)
  exact gives_bind.2 (.inr ⟨(), _, apply_quiet hq _, gives_pure.2 ⟨rfl, rfl⟩⟩)

end SessionStore

end LogExport
