import LogExport.Proofs.Session.Shelf

/-! The writers of the store as functions of the records: what a call is
answered on storage that does not fail, and the records after it. -/

namespace LogExport

open Access

/-- A call that may write. -/
inductive StoreCall where
  | start (s : Session)
  | cancel (id : String)
  | fail (id message : String)
  | finish (id : String)
  | confirm (id : String) (part : Nat) (size : Sizes)
  | lock (id : String)
  | restore (id : String)
  | unlock

/-- What a call is answered. -/
abbrev StoreAnswer := Except Error Unit

namespace StoreCall

/-- The computation behind a call, with the clock at `now`. -/
def access (now : Instant) : StoreCall → Access Unit
  | start s => SessionStore.start s
  | cancel id => SessionStore.cancel now id
  | fail id message => SessionStore.fail now id message
  | finish id => SessionStore.finish now id
  | confirm id part size => SessionStore.confirm id part size
  | lock id => SessionStore.lock id
  | restore id => do let _ ← SessionStore.lockForRestore id
  | unlock => SessionStore.unlock

/-- The session that a call is to end, the status for it and the error. -/
def ends? : StoreCall → Option (String × Status × Option String)
  | cancel id => some (id, .cancel, none)
  | fail id message => some (id, .fail, some message)
  | finish id => some (id, .finish, none)
  | _ => none

theorem terminal_of_ends? {c : StoreCall} {id : String} {status : Status} {error : Option String}
    (h : c.ends? = some (id, status, error)) :
    status ≠ .start ∧ (error.isSome ↔ status = .fail) := by
  cases c <;> cases h <;> simp

end StoreCall

namespace KeyMap

/-- Looks up a session for what comes next. -/
def withSession (r : Records) (id : String) (next : Session → StoreAnswer × Records) :
    StoreAnswer × Records :=
  match r.shelf.session id with
  | none => (.error (.notFound id), r)
  | some s => next s

/-- Goes on only while the lock is free. -/
def whileFree (r : Records) (next : StoreAnswer × Records) : StoreAnswer × Records :=
  match r.shelf.holder with
  | some id => (.error (.conflict (.running id)), r)
  | none => next

/-- What drops the lock if the session holds it. -/
def release (r : Records) (id : String) : List Write :=
  if r.shelf.holder = some id then [SessionStore.dropLock] else []

/-- An attempt to end a session. -/
def conclude (r : Records) (now : Instant) (id : String) (status : Status)
    (error : Option String) : StoreAnswer × Records :=
  r.withSession id fun s =>
    if s.status = .start then
      (.ok (), r.apply (r.release id ++ [SessionStore.putSession (s.ended status error now)]))
    else (.error (.alreadyTerminal id s.status.text), r.apply (r.release id))

/-- What a call is answered at its turn, and the records after it. -/
def serve (r : Records) (now : Instant) : StoreCall → StoreAnswer × Records
  | .start s =>
    r.whileFree (.ok (), r.apply [SessionStore.putSession s, SessionStore.putLock s.id])
  | .cancel id => r.conclude now id .cancel none
  | .fail id message => r.conclude now id .fail (some message)
  | .finish id => r.conclude now id .finish none
  | .confirm id part size =>
    r.withSession id fun s =>
      match s.uploaded[part]? with
      | none => (.error (.invalidRequest (.partOutOfRange part id s.partCount)), r)
      | some true => (.error (.conflict (.confirmed part id)), r)
      | some false => (.ok (), r.apply [SessionStore.putSession (s.confirm part size)])
  | .lock id => r.whileFree (.ok (), r.apply [SessionStore.putLock id])
  | .restore id =>
    r.withSession id fun s =>
      if s.status = .start then r.whileFree (.ok (), r.apply [SessionStore.putLock id])
      else (.error (.conflict (.notRestorable id s.status.text)), r)
  | .unlock => (.ok (), r.apply [SessionStore.dropLock])

@[simp] theorem withSession_of_found {r : Records} {id : String} {s : Session}
    (found : r.shelf.session id = some s) (next : Session → StoreAnswer × Records) :
    r.withSession id next = next s := by
  simp only [withSession, found]

theorem serve_of_ends? {r : Records} {now : Instant} {c : StoreCall} {id : String}
    {status : Status} {error : Option String} (h : c.ends? = some (id, status, error)) :
    r.serve now c = r.conclude now id status error := by
  cases c <;> cases h <;> rfl

end KeyMap

/-! ### The functions are what the store computes -/

namespace SessionStore

variable {r : Records}

/-- The backend with these records and no failures ahead. -/
def calm (r : Records) : Backend := { records := r }

theorem load_unknown {id : String} (hf : r.Filed) (h : r.shelf.session id = none) :
    Gives (load id) (calm r) (.error (.notFound id)) (calm r) := by
  refine gives_bind.2 (.inr ⟨_, calm r, read_quiet rfl _, ?_⟩)
  cases hg : r.get? (SessionKey.encode id) with
  | none =>
    simp only [calm, hg]
    exact gives_throw.2 ⟨rfl, rfl⟩
  | some bs =>
    obtain ⟨s, hs, -⟩ := hf.session id bs hg
    simp only [KeyMap.shelf, hg, Option.bind_some, hs] at h
    cases h

/-- What comes after the look-up of a session decides what is given. -/
theorem gives_withSession {id : String} {m : Session → Access Unit}
    {next : Session → StoreAnswer × Records} (hf : r.Filed)
    (h : ∀ s, r.shelf.session id = some s → Gives (m s) (calm r) (next s).1 (calm (next s).2)) :
    Gives (load id >>= m) (calm r) (r.withSession id next).1 (calm (r.withSession id next).2) := by
  unfold KeyMap.withSession
  cases hs : r.shelf.session id with
  | none => exact gives_bind.2 (.inl ⟨_, load_unknown hf hs, rfl⟩)
  | some s => exact gives_bind.2 (.inr ⟨s, calm r, load_quiet rfl hs, h s hs⟩)

theorem gives_whileFree {m : Access Unit} {next : StoreAnswer × Records} (hf : r.Filed)
    (h : Gives m (calm r) next.1 (calm next.2)) :
    Gives (requireFree >>= fun _ => m) (calm r) (r.whileFree next).1
      (calm (r.whileFree next).2) := by
  unfold KeyMap.whileFree
  cases hh : r.shelf.holder with
  | none =>
    exact gives_bind.2 (.inr ⟨(), calm r, requireFree_quiet rfl (hf.free_iff.1 hh), h⟩)
  | some id =>
    refine gives_bind.2 (.inl ⟨_, gives_bind.2 (.inr ⟨some id, calm r, ?_, ?_⟩), rfl⟩)
    · exact hh ▸ holder_quiet (b := calm r) hf rfl
    · exact gives_throw.2 ⟨rfl, rfl⟩

theorem gives_batch (batch : List Write) :
    Gives (Backend.apply batch) (calm r) (.ok ()) (calm (r.apply batch)) :=
  apply_quiet rfl batch

theorem gives_conclusion {now : Instant} {id : String} {status : Status} {error : Option String}
    (hf : r.Filed) :
    Gives (conclude now id status error) (calm r) (r.conclude now id status error).1
      (calm (r.conclude now id status error).2) := by
  refine gives_withSession hf fun s _ => ?_
  refine gives_bind.2 (.inr ⟨_, calm r, holder_quiet (b := calm r) hf rfl, ?_⟩)
  show Gives (if s.status.isTerminal then _ else _) (calm r) _ _
  by_cases running : s.status = .start
  · simp only [running, Status.isTerminal, Bool.false_eq_true, if_false, if_true]
    exact gives_batch _
  · have ended : s.status.isTerminal = true := by
      cases hst : s.status <;> first | rfl | exact absurd hst running
    simp only [ended, running, if_true, if_false]
    by_cases held : r.shelf.holder = some id
    · simp only [calm, held, KeyMap.release, if_true, List.isEmpty_cons, Bool.not_false]
      exact gives_bind.2 (.inr ⟨(), _, gives_batch _, gives_throw.2 ⟨rfl, rfl⟩⟩)
    · simp only [calm, held, KeyMap.release, if_false, List.isEmpty_nil, Bool.not_true,
        Bool.false_eq_true]
      exact gives_throw_bind.2 ⟨rfl, rfl⟩

/-- On storage that does not fail, the store serves every call by the function. -/
theorem gives_serve (hf : r.Filed) (now : Instant) (c : StoreCall) :
    Gives (c.access now) (calm r) (r.serve now c).1 (calm (r.serve now c).2) := by
  cases c with
  | start s => exact gives_whileFree hf (gives_batch _)
  | cancel id => exact gives_conclusion hf
  | fail id message => exact gives_conclusion hf
  | finish id => exact gives_conclusion hf
  | confirm id part size =>
    refine gives_withSession hf fun s _ => ?_
    cases hp : s.uploaded[part]? with
    | none => exact gives_throw.2 ⟨rfl, rfl⟩
    | some flag =>
      cases flag with
      | true => exact gives_throw.2 ⟨rfl, rfl⟩
      | false => exact gives_batch _
  | lock id => exact gives_whileFree hf (gives_batch _)
  | restore id =>
    simp only [StoreCall.access, lockForRestore, bind_assoc]
    refine gives_withSession hf fun s _ => ?_
    by_cases running : s.status = .start
    · simp only [running, bne_self_eq_false, Bool.false_eq_true, if_false, if_true, bind_assoc]
      refine gives_whileFree hf ?_
      exact gives_bind.2 (.inr ⟨(), _, gives_batch [putLock id], gives_pure.2 ⟨rfl, rfl⟩⟩)
    · simp only [bne_iff_ne, ne_eq, running, not_false_eq_true, if_true, if_false]
      exact gives_throw_bind.2 ⟨rfl, rfl⟩
  | unlock => exact gives_batch _

end SessionStore

/-! ### What serving a call changes -/

/-- The session that a start carries can be stored. -/
def StoreCall.Storable (c : StoreCall) : Prop := ∀ s, c = .start s → s.Storable

/-- What serving a call makes of the shelf. -/
inductive Shelf.Served (v : Shelf) (now : Instant) : StoreCall → StoreAnswer → Shelf → Prop
  | refused {c : StoreCall} {e : Error} : Served v now c (.error e) v
  | late {c : StoreCall} {id : String} {status : Status} {error : Option String} {s : Session}
      (ends : c.ends? = some (id, status, error)) (found : v.session id = some s)
      (ended : s.status ≠ .start) (held : v.holder = some id) :
    Served v now c (.error (.alreadyTerminal id s.status.text)) ⟨v.session, none⟩
  | started {s : Session} (free : v.holder = none) :
    Served v now (.start s) (.ok ()) ⟨Function.update v.session s.id (some s.stored), some s.id⟩
  | ended {c : StoreCall} {id : String} {status : Status} {error : Option String} {s : Session}
      (ends : c.ends? = some (id, status, error)) (found : v.session id = some s)
      (running : s.status = .start) :
    Served v now c (.ok ())
      ⟨Function.update v.session id (some (s.ended status error now.reread)),
        if v.holder = some id then none else v.holder⟩
  | confirmed {id : String} {part : Nat} {size : Sizes} {s : Session}
      (found : v.session id = some s) (missing : s.uploaded[part]? = some false) :
    Served v now (.confirm id part size) (.ok ())
      ⟨Function.update v.session id (some (s.confirm part size)), v.holder⟩
  | locked {id : String} (free : v.holder = none) :
    Served v now (.lock id) (.ok ()) ⟨v.session, some id⟩
  | restored {id : String} {s : Session} (found : v.session id = some s)
      (running : s.status = .start) (free : v.holder = none) :
    Served v now (.restore id) (.ok ()) ⟨v.session, some id⟩
  | unlocked : Served v now .unlock (.ok ()) ⟨v.session, none⟩

theorem Shelf.Served.of_started {v v' : Shelf} {now : Instant} {s : Session}
    (h : v.Served now (.start s) (.ok ()) v') :
    v.holder = none ∧
      v' = ⟨Function.update v.session s.id (some s.stored), some s.id⟩ := by
  cases h with
  | started free => exact ⟨free, rfl⟩
  | ended ends => cases ends

/-- Only a start stores a session under an id that had none. -/
theorem Shelf.Served.session_cases {v v' : Shelf} {now : Instant} {c : StoreCall} {a : StoreAnswer}
    {id : String} {t : Session} (h : v.Served now c a v') (found : v'.session id = some t) :
    (∃ t, v.session id = some t) ∨ ∃ s, c = .start s ∧ a = .ok () ∧ s.id = id := by
  have updated {i : String} {s u : Session} (old : v.session i = some u)
      (h : Function.update v.session i (some s) id = some t) : ∃ t, v.session id = some t := by
    by_cases hid : id = i
    · exact ⟨u, hid ▸ old⟩
    · exact ⟨t, (Function.update_of_ne hid _ _).symm.trans h⟩
  cases h with
  | @started s free =>
    by_cases hid : id = s.id
    · exact .inr ⟨s, rfl, rfl, hid.symm⟩
    · exact .inl ⟨t, (Function.update_of_ne hid _ _).symm.trans found⟩
  | ended _ old _ => exact .inl (updated old found)
  | confirmed old _ => exact .inl (updated old found)
  | _ => exact .inl ⟨t, found⟩

namespace KeyMap

open SessionStore

variable {r : Records} {now : Instant} {c : StoreCall}

/-- A call has been served on records in good order. -/
def Serves (r : Records) (now : Instant) (c : StoreCall) (res : StoreAnswer × Records) : Prop :=
  res.2.Filed ∧ r.shelf.Served now c res.1 res.2.shelf

theorem serves_refused (hf : r.Filed) (e : Error) : r.Serves now c (.error e, r) :=
  ⟨hf, .refused⟩

theorem serves_withSession {id : String} {next : Session → StoreAnswer × Records} (hf : r.Filed)
    (h : ∀ s, r.shelf.session id = some s → r.Serves now c (next s)) :
    r.Serves now c (r.withSession id next) := by
  unfold withSession
  cases found : r.shelf.session id with
  | none => exact serves_refused hf _
  | some s => exact h s found

theorem serves_whileFree {next : StoreAnswer × Records} (hf : r.Filed)
    (h : r.shelf.holder = none → r.Serves now c next) : r.Serves now c (r.whileFree next) := by
  unfold whileFree
  cases free : r.shelf.holder with
  | none => exact h free
  | some id => exact serves_refused hf _

theorem serves_conclude {id : String} {status : Status} {error : Option String} (hf : r.Filed)
    (hn : now.Valid) (ends : c.ends? = some (id, status, error)) :
    r.Serves now c (r.conclude now id status error) := by
  refine serves_withSession hf fun s found => ?_
  by_cases running : s.status = .start
  · have hs := settled_of_shelf found
    have hput := Session.storable_ended hs status error hn
    have hid : (s.ended status error now).id = id := (hf.id_eq found : s.id = id)
    have served : r.shelf.Served now c (.ok ()) _ := .ended ends found running
    simp only [running, if_true]
    by_cases held : r.shelf.holder = some id
    · rw [if_pos held] at served
      simp only [release, held, if_true]
      refine ⟨hf.dropLock.putSession hput, ?_⟩
      show r.shelf.Served now c (.ok ())
        ((r.write dropLock).write (putSession (s.ended status error now))).shelf
      rw [shelf_putSession hput, shelf_dropLock, hid, Session.stored_ended hs]
      exact served
    · rw [if_neg held] at served
      simp only [release, held, if_false]
      refine ⟨hf.putSession hput, ?_⟩
      show r.shelf.Served now c (.ok ())
        (r.write (putSession (s.ended status error now))).shelf
      rw [shelf_putSession hput, hid, Session.stored_ended hs]
      exact served
  · simp only [running, if_false]
    by_cases held : r.shelf.holder = some id
    · simp only [release, held, if_true]
      refine ⟨hf.dropLock, ?_⟩
      show r.shelf.Served now c _ (r.write dropLock).shelf
      rw [shelf_dropLock]
      exact .late ends found running held
    · simp only [release, held, if_false]
      exact serves_refused hf _

theorem serves_confirm {id : String} {part : Nat} {size : Sizes} {s : Session} (hf : r.Filed)
    (found : r.shelf.session id = some s) (missing : s.uploaded[part]? = some false) :
    r.Serves now (.confirm id part size)
      (.ok (), r.apply [putSession (s.confirm part size)]) := by
  have hs := Session.settled_confirm (settled_of_shelf found) part size
  refine ⟨hf.putSession hs.toStorable, ?_⟩
  show r.shelf.Served now _ _ (r.write (putSession (s.confirm part size))).shelf
  rw [shelf_putSession hs.toStorable, hs.kept,
    show (s.confirm part size).id = id from (hf.id_eq found : s.id = id)]
  exact .confirmed found missing

theorem serves_lock {id : String} (hf : r.Filed)
    (served : r.shelf.Served now c (.ok ()) ⟨r.shelf.session, some id⟩) :
    r.Serves now c (.ok (), r.apply [putLock id]) := by
  refine ⟨hf.putLock id, ?_⟩
  show r.shelf.Served now c _ (r.write (putLock id)).shelf
  rw [shelf_putLock]
  exact served

/-- Every call does one of the things listed, and leaves the records in good
order. -/
theorem serves (hf : r.Filed) (hc : c.Storable) (hn : now.Valid) :
    r.Serves now c (r.serve now c) := by
  cases c with
  | start s =>
    refine serves_whileFree hf fun free => ?_
    have hs := hc s rfl
    refine ⟨(hf.putSession hs).putLock s.id, ?_⟩
    show r.shelf.Served now _ _ ((r.write (putSession s)).write (putLock s.id)).shelf
    rw [shelf_putLock, shelf_putSession hs]
    exact .started free
  | cancel id => exact serves_conclude hf hn rfl
  | fail id message => exact serves_conclude hf hn rfl
  | finish id => exact serves_conclude hf hn rfl
  | confirm id part size =>
    refine serves_withSession hf fun s found => ?_
    cases missing : s.uploaded[part]? with
    | none => exact serves_refused hf _
    | some flag =>
      cases flag with
      | true => exact serves_refused hf _
      | false => exact serves_confirm hf found missing
  | lock id => exact serves_whileFree hf fun free => serves_lock hf (.locked free)
  | restore id =>
    refine serves_withSession hf fun s found => ?_
    by_cases running : s.status = .start
    · simp only [running, if_true]
      exact serves_whileFree hf fun free => serves_lock hf (.restored found running free)
    · simp only [running, if_false]
      exact serves_refused hf _
  | unlock =>
    refine ⟨hf.dropLock, ?_⟩
    show r.shelf.Served now _ _ (r.write dropLock).shelf
    rw [shelf_dropLock]
    exact .unlocked

/-- A session that has ended stays as it is, and so does all else unless it
still holds the lock. -/
theorem serve_late {id : String} {status : Status} {error : Option String} {s : Session}
    (ends : c.ends? = some (id, status, error)) (found : r.shelf.session id = some s)
    (ended : s.status ≠ .start) (left : r.shelf.holder ≠ some id) :
    r.serve now c = (.error (.alreadyTerminal id s.status.text), r) := by
  simp only [serve_of_ends? ends, conclude, withSession_of_found found, ended, if_false, release,
    left]
  rfl

theorem serve_ends {id : String} {status : Status} {error : Option String} {s : Session}
    (ends : c.ends? = some (id, status, error)) (found : r.shelf.session id = some s)
    (running : s.status = .start) : (r.serve now c).1 = .ok () := by
  simp only [serve_of_ends? ends, conclude, withSession_of_found found, running, if_true]

/-- A part is confirmed exactly if it is one of the session and still missing. -/
theorem serve_confirm_iff {id : String} {part : Nat} {size : Sizes} {s : Session}
    (found : r.shelf.session id = some s) :
    (r.serve now (.confirm id part size)).1 = .ok () ↔ s.uploaded[part]? = some false := by
  simp only [serve, withSession_of_found found]
  split <;> simp_all

end KeyMap

end LogExport
