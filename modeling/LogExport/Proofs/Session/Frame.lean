import LogExport.Proofs.Session.Turns

/-! What a request to the store may touch. A call reads, then writes one batch
or none, so a storage call that fails leaves everything as it was. A call that
works out writes the record of its own session and moves the lock for it, and
nothing else. -/

namespace LogExport

open Access

namespace Script

/-- A script fails at a storage call and has written nothing, or it comes to
what it is served with. -/
theorem serve_or_fault {b b' : Backend} {s : Script} {a : StoreAnswer} (h : Gives s.access b a b') :
    ((∃ e, a = .error e) ∧ b'.records = b.records) ∨ (a, b'.records) = s.serve b.records := by
  induction s generalizing b with
  | done answer =>
    have hb : (answer, b) = (a, b') := gives_ofExcept.symm.trans h
    cases hb
    exact .inr rfl
  | read key next ih =>
    rcases gives_bind.1 h with ⟨e, hr, rfl⟩ | ⟨o, b₁, hr, hn⟩
    · exact .inl ⟨⟨e, rfl⟩, (gives_read hr).1⟩
    · obtain ⟨hb, ⟨e, he⟩ | ho⟩ := gives_read hr
      · cases he
      · cases ho
        have rest := ih _ hn
        rw [hb] at rest
        exact rest
  | write batch answer =>
    rcases gives_bind.1 h with ⟨e, hw, rfl⟩ | ⟨_, b₁, hw, hn⟩
    · rcases gives_apply hw with ⟨_, -, hb⟩ | ⟨he, -⟩
      · exact .inl ⟨⟨e, rfl⟩, hb⟩
      · cases he
    · rcases gives_apply hw with ⟨_, he, -⟩ | ⟨-, hb⟩
      · cases he
      · have hb' : (answer, b₁) = (a, b') := gives_ofExcept.symm.trans hn
        cases hb'
        exact .inr (by rw [hb]; rfl)

end Script

namespace StoreCall

/-- Whatever fails in storage, a call either writes nothing and gives an error,
or is served as on storage that does not fail. -/
theorem serve_or_fault {b b' : Backend} {now : Instant} {c : StoreCall} {a : StoreAnswer}
    (hf : b.records.Filed) (h : Gives (c.access now) b a b') :
    ((∃ e, a = .error e) ∧ b'.records = b.records) ∨ (a, b'.records) = b.records.serve now c := by
  rw [← Script.serve_script hf now c]
  rw [← Script.access_script] at h
  exact Script.serve_or_fault h

/-- The session whose record a call may write. -/
def writes? : StoreCall → Option String
  | start s => some s.id
  | cancel id => some id
  | fail id _ => some id
  | finish id => some id
  | confirm id _ _ => some id
  | _ => none

/-- The session that a call may take the lock for. -/
def locks? : StoreCall → Option String
  | start s => some s.id
  | lock id => some id
  | restore id => some id
  | _ => none

theorem writes?_of_ends? {c : StoreCall} {id : String} {status : Status} {error : Option String}
    (h : c.ends? = some (id, status, error)) : c.writes? = some id := by
  cases c <;> cases h <;> rfl

/-- How a call may change the record of the lock. -/
inductive MovesLock (c : StoreCall) : Option Bytes → Option Bytes → Prop
  | kept (o : Option Bytes) : MovesLock c o o
  | taken {id : String} (locks : c.locks? = some id) : MovesLock c none (some (Utf8.encode id))
  | released {id : String} {status : Status} {error : Option String}
      (ends : c.ends? = some (id, status, error)) : MovesLock c (some (Utf8.encode id)) none
  | cleared (o : Option Bytes) (clears : c = .unlock) : MovesLock c o none

/-- What a call may change: the record of its session, and the lock. -/
structure Frame (c : StoreCall) (r r' : Records) : Prop where
  others : ∀ k, k ≠ SessionKey.lock → (∀ id, c.writes? = some id → k ≠ SessionKey.encode id) →
    r'.get? k = r.get? k
  lock : c.MovesLock (r.get? SessionKey.lock) (r'.get? SessionKey.lock)

/-- An error means that nothing is changed, and an answer keeps to the frame. -/
structure Contains (c : StoreCall) (r : Records) (res : StoreAnswer × Records) : Prop where
  refused : ∀ e, res.1 = .error e → res.2 = r
  served : res.1 = .ok () → c.Frame r res.2

theorem contains_refused (c : StoreCall) (r : Records) (e : Error) : c.Contains r (.error e, r) :=
  ⟨fun _ _ => rfl, fun h => by cases h⟩

theorem contains_ok {c : StoreCall} {r r' : Records} (h : c.Frame r r') :
    c.Contains r (.ok (), r') :=
  ⟨fun _ he => (by cases he), fun _ => h⟩

end StoreCall

namespace KeyMap

open SessionStore

variable {r : Records} {now : Instant} {c : StoreCall}

/-- A session that holds the lock runs. -/
def HolderRuns (r : Records) : Prop :=
  ∀ id s, r.shelf.holder = some id → r.shelf.session id = some s → s.status = .start

/-- The record of the lock is the id of the holder. -/
theorem get?_lock_of_holder {id : String} (h : r.shelf.holder = some id) :
    r.get? SessionKey.lock = some (Utf8.encode id) := by
  obtain ⟨bs, hbs, hd⟩ := Option.bind_eq_some_iff.1 h
  unfold decodeLock at hd
  split at hd
  · next i hi =>
    cases hd
    rw [hbs, Utf8.encode_of_decode? hi]
  · cases hd

theorem get?_putSession_of_ne {k : Bytes} {s : Session} (h : k ≠ SessionKey.encode s.id) :
    (r.write (putSession s)).get? k = r.get? k :=
  (get?_insert ..).trans (if_neg h.symm)

theorem get?_putLock_of_ne {k : Bytes} {id : String} (h : k ≠ SessionKey.lock) :
    (r.write (putLock id)).get? k = r.get? k :=
  (get?_insert ..).trans (if_neg h.symm)

theorem get?_dropLock_of_ne {k : Bytes} (h : k ≠ SessionKey.lock) :
    (r.write dropLock).get? k = r.get? k :=
  (get?_erase ..).trans (if_neg h.symm)

theorem lock_putSession (s : Session) :
    (r.write (putSession s)).get? SessionKey.lock = r.get? SessionKey.lock :=
  get?_putSession_of_ne (SessionKey.encode_ne_lock s.id).symm

theorem lock_putLock (id : String) :
    (r.write (putLock id)).get? SessionKey.lock = some (Utf8.encode id) :=
  (get?_insert ..).trans (if_pos rfl)

theorem lock_dropLock : (r.write dropLock).get? SessionKey.lock = none :=
  (get?_erase ..).trans (if_pos rfl)

/-- The record of a session is written and the lock stays. -/
theorem frame_putSession {s : Session} (writes : c.writes? = some s.id) :
    c.Frame r (r.write (putSession s)) where
  others _ _ hk := get?_putSession_of_ne (hk s.id writes)
  lock := by
    rw [lock_putSession]
    exact .kept _

theorem frame_putLock {id : String} (locks : c.locks? = some id)
    (free : r.get? SessionKey.lock = none) : c.Frame r (r.write (putLock id)) where
  others _ hk _ := get?_putLock_of_ne hk
  lock := by
    rw [lock_putLock, free]
    exact .taken locks

/-- A new session is stored together with the lock for it. -/
theorem frame_start {s : Session} (free : r.get? SessionKey.lock = none) :
    (StoreCall.start s).Frame r ((r.write (putSession s)).write (putLock s.id)) where
  others k hk hs := (get?_putLock_of_ne hk).trans (get?_putSession_of_ne (hs s.id rfl))
  lock := by
    rw [lock_putLock, free]
    exact .taken rfl

/-- A session is ended together with the release of its lock. -/
theorem frame_release {s : Session} {status : Status} {error : Option String}
    (ends : c.ends? = some (s.id, status, error)) (held : r.shelf.holder = some s.id) :
    c.Frame r ((r.write dropLock).write (putSession s)) where
  others k hk hs :=
    (get?_putSession_of_ne (hs s.id (StoreCall.writes?_of_ends? ends))).trans
      (get?_dropLock_of_ne hk)
  lock := by
    rw [lock_putSession, lock_dropLock, get?_lock_of_holder held]
    exact .released ends

theorem contains_withSession {id : String} {next : Session → StoreAnswer × Records}
    (h : ∀ s, r.shelf.session id = some s → c.Contains r (next s)) :
    c.Contains r (r.withSession id next) := by
  unfold withSession
  cases found : r.shelf.session id with
  | none => exact c.contains_refused r _
  | some s => exact h s found

theorem contains_whileFree {next : StoreAnswer × Records} (hf : r.Filed)
    (h : r.get? SessionKey.lock = none → c.Contains r next) : c.Contains r (r.whileFree next) := by
  unfold whileFree
  cases free : r.shelf.holder with
  | none => exact h (hf.free_iff.1 free)
  | some id => exact c.contains_refused r _

/-- The attempt to end a session that has ended before would take the lock from
it, if it had it: here is why nobody may hold the lock who does not run. -/
theorem contains_conclude {id : String} {status : Status} {error : Option String} (hf : r.Filed)
    (runs : r.HolderRuns) (ends : c.ends? = some (id, status, error)) :
    c.Contains r (r.conclude now id status error) := by
  refine contains_withSession fun s found => ?_
  have hid : (s.ended status error now).id = id := (hf.id_eq found : s.id = id)
  by_cases running : s.status = .start
  · simp only [running, if_true]
    refine StoreCall.contains_ok ?_
    by_cases held : r.shelf.holder = some id
    · simp only [release, held, if_true]
      exact frame_release (hid ▸ ends) (hid ▸ held)
    · simp only [release, held, if_false]
      exact frame_putSession (hid ▸ StoreCall.writes?_of_ends? ends)
  · have free : r.shelf.holder ≠ some id := fun held => running (runs id s held found)
    simp only [running, if_false, release, free]
    exact c.contains_refused r _

/-- While the holder of the lock runs, every call is contained. -/
theorem contains_serve (hf : r.Filed) (runs : r.HolderRuns) (c : StoreCall) :
    c.Contains r (r.serve now c) := by
  cases c with
  | start s =>
    refine contains_whileFree hf fun free => ?_
    exact StoreCall.contains_ok (frame_start free)
  | cancel id => exact contains_conclude hf runs rfl
  | fail id message => exact contains_conclude hf runs rfl
  | finish id => exact contains_conclude hf runs rfl
  | confirm id part size =>
    refine contains_withSession fun s found => ?_
    have hid : (s.confirm part size).id = id := (hf.id_eq found : s.id = id)
    cases s.uploaded[part]? with
    | none => exact StoreCall.contains_refused _ r _
    | some flag =>
      cases flag with
      | true => exact StoreCall.contains_refused _ r _
      | false => exact StoreCall.contains_ok (frame_putSession (hid ▸ rfl))
  | lock id =>
    refine contains_whileFree hf fun free => ?_
    exact StoreCall.contains_ok (frame_putLock rfl free)
  | restore id =>
    refine contains_withSession fun s _ => ?_
    by_cases running : s.status = .start
    · simp only [running, if_true]
      refine contains_whileFree hf fun free => ?_
      exact StoreCall.contains_ok (frame_putLock rfl free)
    · simp only [running, if_false]
      exact StoreCall.contains_refused _ r _
  | unlock =>
    refine StoreCall.contains_ok ⟨fun k hk _ => get?_dropLock_of_ne hk, ?_⟩
    show StoreCall.MovesLock _ _ ((r.write dropLock).get? SessionKey.lock)
    rw [lock_dropLock]
    exact .cleared _ rfl

end KeyMap

/-- Whatever the store can be asked. -/
inductive StoreRequest where
  | call (c : StoreCall)
  | check (id : String)
  | all

namespace StoreRequest

/-- The computation behind a request, without what it tells. -/
def access (now : Instant) : StoreRequest → Access Unit
  | call c => c.access now
  | check id => do let _ ← SessionStore.check id
  | all => do let _ ← SessionStore.all

/-- What a request may change. -/
def Frame (r r' : Records) : StoreRequest → Prop
  | call c => c.Frame r r'
  | check _ => r' = r
  | all => r' = r

/-- A request that only reads changes nothing. -/
theorem records_of_reads {α : Type} {m : Access α} {b b' : Backend} {a : Except Error Unit}
    (reads : ∀ {x b₁}, Gives m b x b₁ → b₁.records = b.records)
    (h : Gives (do let _ ← m) b a b') : b'.records = b.records := by
  rcases gives_bind.1 h with ⟨_, hm, -⟩ | ⟨_, b₁, hm, hp⟩
  · exact reads hm
  · obtain ⟨-, rfl⟩ := gives_pure.1 hp
    exact reads hm

/-- Whatever fails in storage, an error means that the request has changed
nothing, and an answer that it has kept to its frame. -/
theorem contained {b b' : Backend} {now : Instant} {q : StoreRequest} {a : StoreAnswer}
    (hf : b.records.Filed) (runs : b.records.HolderRuns) (h : Gives (q.access now) b a b') :
    (∀ e, a = .error e → b'.records = b.records) ∧
      (a = .ok () → q.Frame b.records b'.records) := by
  cases q with
  | call c =>
    rcases c.serve_or_fault hf h with ⟨⟨e, rfl⟩, same⟩ | served
    · exact ⟨fun _ _ => same, fun he => by cases he⟩
    · have contains : c.Contains b.records (b.records.serve now c) :=
        KeyMap.contains_serve hf runs c
      rw [← served] at contains
      exact ⟨contains.refused, contains.served⟩
  | check id =>
    have same := records_of_reads (fun hl => (SessionStore.gives_load hf hl).1) h
    exact ⟨fun _ _ => same, fun _ => same⟩
  | all =>
    have same := records_of_reads (fun hl => (SessionStore.gives_all hl).1) h
    exact ⟨fun _ _ => same, fun _ => same⟩

end StoreRequest

end LogExport
