import LogExport.Proofs.Service.Creation
import LogExport.Proofs.Session.Accounting
import LogExport.Proofs.Session.Keys

/-! The list of all sessions. Whatever the callers of a store have done, the list
can be read, and has one session for each id that was ever started, in the order
of the bytes of their ids. -/

namespace LogExport

open Access

namespace KeyMap

variable {r : Records}

theorem mem_listing (filed : r.Filed) (keyed : r.Keyed) {s : Session} :
    s ∈ r.listing ↔ r.shelf.session s.id = some s := by
  simp only [listing, List.mem_filterMap, Prod.exists, mem_within, shelf]
  constructor
  · rintro ⟨k, v, ⟨found, contains⟩, decoded⟩
    obtain ⟨id, rfl⟩ := keyed k v found contains
    obtain ⟨t, decoded', rfl⟩ := filed.session id v found
    rw [decoded] at decoded'
    cases decoded'
    rw [found, Option.bind_some, decoded]
  · intro h
    obtain ⟨v, found, decoded⟩ := Option.bind_eq_some_iff.1 h
    exact ⟨_, v, ⟨found, SessionKey.contains_encode s.id⟩, decoded⟩

/-- The keys of the listed sessions are the keys that are scanned. -/
theorem keys_listing (filed : r.Filed) (keyed : r.Keyed) :
    (r.listing.map fun s => SessionKey.encode s.id) = (r.within SessionKey.range).map Prod.fst := by
  have legible : ∀ e ∈ r.within SessionKey.range,
      ∃ s, Session.decode? e.2 = some s ∧ SessionKey.encode s.id = e.1 := by
    rintro ⟨k, v⟩ he
    obtain ⟨found, contains⟩ := mem_within.1 he
    obtain ⟨id, rfl⟩ := keyed k v found contains
    obtain ⟨s, decoded, rfl⟩ := filed.session id v found
    exact ⟨s, decoded, rfl⟩
  unfold listing
  generalize r.within SessionKey.range = es at legible
  induction es with
  | nil => rfl
  | cons e es ih =>
    obtain ⟨s, decoded, key⟩ := legible e List.mem_cons_self
    simp only [List.filterMap_cons, decoded, List.map_cons, key,
      ih fun e he => legible e (List.mem_cons_of_mem _ he)]

theorem sorted_listing (filed : r.Filed) (keyed : r.Keyed) :
    r.listing.Pairwise fun s t => Utf8.encode s.id < Utf8.encode t.id := by
  have keys : ((r.within SessionKey.range).map Prod.fst).Pairwise (· < ·) :=
    List.pairwise_map.2 (r.sorted_within SessionKey.range)
  rw [← keys_listing filed keyed, List.pairwise_map] at keys
  exact keys.imp SessionKey.encode_lt_iff.1

end KeyMap

/-- No call takes a session away, and only a start brings one. -/
theorem Shelf.Served.stored_iff {v v' : Shelf} {now : Instant} {c : StoreCall} {a : StoreAnswer}
    (h : v.Served now c a v') (id : String) :
    (∃ t, v'.session id = some t) ↔
      (∃ t, v.session id = some t) ∨ ∃ s, (c, a) = (.start s, .ok ()) ∧ s.id = id := by
  have kept {f : String → Option Session} {i : String} {s : Session}
      (h : ∃ t, f id = some t) : ∃ t, Function.update f i (some s) id = some t := by
    by_cases hid : id = i
    · exact ⟨s, by rw [hid, Function.update_self]⟩
    · rwa [Function.update_of_ne hid]
  constructor
  · rintro ⟨t, found⟩
    rcases h.session_cases found with old | ⟨s, rfl, rfl, hid⟩
    · exact .inl old
    · exact .inr ⟨s, rfl, hid⟩
  · rintro (old | ⟨s, hc, rfl⟩)
    · cases h with
      | started => exact kept old
      | ended => exact kept old
      | confirmed => exact kept old
      | _ => exact old
    · obtain ⟨rfl, rfl⟩ := Prod.mk.inj hc
      rw [h.of_started.2]
      exact ⟨s.stored, Function.update_self ..⟩

/-- Calls write nothing but sessions and the lock. -/
theorem StoreCall.steady_access (now : Instant) (c : StoreCall) : Steady (c.access now) := by
  cases c with
  | start s => exact SessionStore.steady_start s
  | cancel id => exact SessionStore.steady_conclude now id .cancel none
  | fail id message => exact SessionStore.steady_conclude now id .fail (some message)
  | finish id => exact SessionStore.steady_conclude now id .finish none
  | confirm id part size => exact SessionStore.steady_confirm id part size
  | lock id => exact SessionStore.steady_requireFree.bind fun _ => SessionStore.steady_putLock id
  | restore id => exact (SessionStore.steady_lockForRestore id).bind fun _ => steady_pure ()
  | unlock => exact SessionStore.steady_unlock

theorem KeyMap.Keyed.serve {r : Records} (filed : r.Filed) (keyed : r.Keyed) (now : Instant)
    (c : StoreCall) : (r.serve now c).2.Keyed :=
  (c.steady_access now _ _ _ (SessionStore.gives_serve filed now c)).keyed keyed

namespace Desk

/-- A session was started under the id. -/
def Started (id : String) (log : List (StoreCall × StoreAnswer)) : Prop :=
  ∃ s, (.start s, .ok ()) ∈ log ∧ s.id = id

variable {d : Desk}

/-- What callers leave of empty records: keys of sessions in their range, and the
sessions that were started. -/
theorem Reaches.filing (run : Reaches anyCall ⟨.empty, none, []⟩ d) :
    d.records.Filed ∧ d.records.Keyed ∧
      ∀ id, (∃ s, d.records.shelf.session id = some s) ↔ Started id d.log := by
  have all := run.induct
    (P := fun log r => r.Keyed ∧ ∀ id, (∃ s, r.shelf.session id = some s) ↔ Started id log)
    (fun _ _ h => h) filed_empty ?_ ?_
  · exact ⟨all.1, all.2.2⟩
  · refine ⟨fun k v h => (by cases h), fun id => ?_⟩
    constructor
    · rintro ⟨s, h⟩
      cases h
    · rintro ⟨s, h, -⟩
      cases h
  · rintro log r now c ⟨keyed, stored⟩ filed admitted clock
    refine ⟨keyed.serve filed now c, fun id => ?_⟩
    rw [(KeyMap.serves filed admitted clock).2.stored_iff id, stored id]
    simp only [Started, List.mem_cons, or_and_right, exists_or, eq_comm, or_comm]

/-- Whatever the callers of a store have done, the list of all sessions can be
read, and reading it changes nothing. It is in the strict order of the bytes of
the ids; there is a session for an id exactly if one was started under it, the
one that a look-up of the id finds; and the scan behind it meets as many keys,
and not the lock. -/
theorem lists_all_started (run : Reaches anyCall ⟨.empty, none, []⟩ d) :
    ∃ ss, Gives SessionStore.all (SessionStore.calm d.records) (.ok ss)
        (SessionStore.calm d.records) ∧
      (ss.Pairwise fun s t => Utf8.encode s.id < Utf8.encode t.id) ∧
      (∀ id, id ∈ ss.map Session.id ↔ Started id d.log) ∧
      (∀ s ∈ ss, Gives (SessionStore.check s.id) (SessionStore.calm d.records) (.ok s)
        (SessionStore.calm d.records)) ∧
      ∃ es, d.records.scan? SessionKey.range = some es ∧
        es.map Prod.fst = ss.map (fun s => SessionKey.encode s.id) ∧
        SessionKey.lock ∉ es.map Prod.fst := by
  obtain ⟨filed, keyed, stored⟩ := run.filing
  have listed {s : Session} := KeyMap.mem_listing filed keyed (s := s)
  refine ⟨d.records.listing, SessionStore.all_quiet filed keyed rfl,
    KeyMap.sorted_listing filed keyed, fun id => ?_, fun s hs => ?_, ?_⟩
  · rw [List.mem_map, ← stored id]
    constructor
    · rintro ⟨s, hs, rfl⟩
      exact ⟨s, listed.1 hs⟩
    · rintro ⟨s, found⟩
      have hid := filed.id_eq found
      exact ⟨s, listed.2 (hid ▸ found), hid⟩
  · exact SessionStore.load_quiet rfl (listed.1 hs)
  · refine ⟨_, if_pos (by decide), (KeyMap.keys_listing filed keyed).symm, ?_⟩
    rw [List.mem_map]
    rintro ⟨⟨k, v⟩, he, rfl⟩
    have contains := (KeyMap.mem_within.1 he).2
    rw [SessionKey.not_contains_lock] at contains
    cases contains

/-- The sample is started, somebody clears the lock, and another session is
started whose id goes on where that of the first ends. -/
theorem lists_all_started_audit :
    ∃ (d : Desk) (ss : List Session), Reaches anyCall ⟨.empty, none, []⟩ d ∧
      d.records.shelf.holder = some (Engine.auditId ++ "0") ∧
      Gives SessionStore.all (SessionStore.calm d.records) (.ok ss)
        (SessionStore.calm d.records) ∧
      Engine.auditId ∈ ss.map Session.id ∧ Engine.auditId ++ "0" ∈ ss.map Session.id ∧
      "b" ∉ ss.map Session.id := by
  obtain ⟨s₀, built, hid, -⟩ := built_audit
  let s₁ : Session := { s₀ with id := Engine.auditId ++ "0" }
  have clock : Engine.newYear.Valid := by decide
  have start₀ : (StoreCall.start s₀).Storable := fun _ h => by cases h; exact built.storable
  have start₁ : (StoreCall.start s₁).Storable := fun _ h => by
    cases h
    exact { built.storable with }
  have unlock : StoreCall.unlock.Storable := fun _ h => by cases h
  have filed₁ := (KeyMap.serves filed_empty start₀ clock).1
  set r₁ : Records := (KeyMap.serve .empty Engine.newYear (.start s₀)).2
  have filed₂ := (KeyMap.serves filed₁ unlock clock).1
  set r₂ : Records := (r₁.serve Engine.newYear .unlock).2 with hr₂
  have free : r₂.shelf.holder = none := by
    rw [hr₂]
    show (r₁.write SessionStore.dropLock).shelf.holder = none
    rw [KeyMap.shelf_dropLock]
  have ok : (r₂.serve Engine.newYear (.start s₁)).1 = .ok () := by
    simp only [KeyMap.serve, KeyMap.whileFree, free]
  have started := (KeyMap.serves filed₂ start₁ clock).2
  rw [ok] at started
  have first : Reaches anyCall ⟨.empty, none, []⟩ ⟨r₁, none, [(.start s₀, .ok ())]⟩ :=
    reaches_serve filed_empty start₀ clock
  have cleared : Reaches anyCall _ ⟨r₂, none, [(.unlock, .ok ()), (.start s₀, .ok ())]⟩ :=
    first.trans (reaches_serve filed₁ unlock clock)
  have last : Reaches anyCall ⟨r₂, none, [(.unlock, .ok ()), (.start s₀, .ok ())]⟩
      ⟨_, none, (_, _) :: _⟩ := reaches_serve filed₂ start₁ clock
  rw [ok] at last
  obtain ⟨ss, listed, -, started_iff, -⟩ := lists_all_started (cleared.trans last)
  refine ⟨_, ss, cleared.trans last, ?_, listed, (started_iff _).2 ⟨s₀, ?_, hid⟩,
    (started_iff _).2 ⟨s₁, ?_, rfl⟩, fun other => ?_⟩
  · exact congrArg Shelf.holder started.of_started.2
  · simp
  · simp
  · obtain ⟨s, hs, hid'⟩ := (started_iff _).1 other
    simp only [List.mem_cons, Prod.mk.injEq, StoreCall.start.injEq, reduceCtorEq, false_or,
      and_true, List.not_mem_nil, or_false] at hs
    rcases hs with rfl | rfl
    · exact absurd (show Engine.auditId ++ "0" = "b" from hid') (by decide)
    · exact absurd (hid.symm.trans hid') (by decide)

end Desk

end LogExport
