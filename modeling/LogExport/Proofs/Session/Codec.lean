import LogExport.Proofs.Json.RoundTrip
import LogExport.Proofs.Time.StampText
import LogExport.Session.Codec

/-! What storing a session keeps of it. A stored session reads back with its
lengths of time in whole milliseconds and its moments as their texts say; one
that was read already is kept as it is. -/

namespace LogExport

theorem except_bind_eq_ok {ε α β : Type} {x : Except ε α} {f : α → Except ε β} {b : β} :
    (x >>= f) = .ok b ↔ ∃ a, x = .ok a ∧ f a = .ok b := by
  cases x with
  | error e => simp [bind, Except.bind]
  | ok a => simp [bind, Except.bind]

namespace Syntax

variable {δ : Type}

/-- A named member that is met for the first time is set. -/
theorem readMembersOf_cons {names seen : List String}
    {set : String → Syntax → δ → Except ReadFault δ} {k : String} {x : Syntax}
    {ms : List (Option String × Syntax)} {d d' : δ} {r : Except ReadFault δ} (hk : k ∈ names)
    (hs : k ∉ seen) (hx : set k x d = .ok d')
    (hr : readMembersOf names set (k :: seen) ms d' = r) :
    readMembersOf names set seen ((some k, x) :: ms) d = r := by
  rw [readMembersOf, if_pos hk, if_neg hs, hx]
  exact hr

/-- A field is set to what its reader reads. -/
theorem set_eq {α : Type} {r : Reader α} {x : Syntax} {a : α} {f : α → δ} (h : r x = .ok a) :
    (do return f (← r x)) = (.ok (f a) : Except ReadFault δ) := by
  rw [h]
  rfl

/-- What every set field keeps is true of the record read. -/
theorem readMembersOf_induct {P : δ → Prop} {names : List String}
    {set : String → Syntax → δ → Except ReadFault δ}
    (hset : ∀ k x d d', P d → set k x d = .ok d' → P d') {seen : List String}
    {ms : List (Option String × Syntax)} {d d' : δ} (hd : P d)
    (h : readMembersOf names set seen ms d = .ok d') : P d' := by
  induction ms generalizing seen d with
  | nil =>
    cases h
    exact hd
  | cons m ms ih =>
    obtain ⟨_ | k, x⟩ := m
    · cases h
    · rw [readMembersOf] at h
      split_ifs at h
      · obtain ⟨d₁, h₁, h⟩ := except_bind_eq_ok.1 h
        exact ih (hset k x d d₁ hd h₁) h
      · exact ih hd h

theorem readFieldsOf_induct {P : δ → Prop} {set : String → Syntax → δ → Except ReadFault δ}
    {early : String → Except ReadFault Unit}
    (hset : ∀ k x d d', P d → set k x d = .ok d' → P d') {names : List String} {xs : List Syntax}
    {d d' : δ} (hd : P d) (h : readFieldsOf set early names xs d = .ok d') : P d' := by
  induction names generalizing xs d with
  | nil =>
    cases xs with
    | nil =>
      cases h
      exact hd
    | cons x xs => cases h
  | cons n names ih =>
    cases xs with
    | nil =>
      obtain ⟨_, -, h⟩ := except_bind_eq_ok.1 h
      exact ih hd h
    | cons x xs =>
      obtain ⟨d₁, h₁, h⟩ := except_bind_eq_ok.1 h
      exact ih (hset n x d d₁ hd h₁) h

theorem readRecord_induct {P : δ → Prop} {names : List String}
    {set : String → Syntax → δ → Except ReadFault δ} {early : String → Except ReadFault Unit}
    (hset : ∀ k x d d', P d → set k x d = .ok d' → P d') {x : Syntax} {d d' : δ} (hd : P d)
    (h : readRecord names set early d x = .ok d') : P d' := by
  unfold readRecord at h
  split at h
  · exact readMembersOf_induct hset hd h
  · exact readFieldsOf_induct hset hd h
  · cases h

/-! ### Values of fields -/

theorem readInstant_json {t : Instant} (h : t.Valid) : readInstant t.json.parsed = .ok t.reread := by
  have hr := Instant.read?_text h
  rw [Instant.read?, Option.map_eq_some_iff] at hr
  obtain ⟨u, hu, htu⟩ := hr
  simp only [Instant.json, Json.parsed, readInstant, readStamp, hu, Except.map, htu]

theorem settled_of_readInstant {x : Syntax} {t : Instant} (h : readInstant x = .ok t) :
    t.Settled := by
  simp only [readInstant, readStamp] at h
  split at h
  · split at h
    · next hu =>
      cases h
      exact Stamp.settled_of_read? hu
    · cases h
  · cases h

theorem readOption_instant {o : Option Instant} (h : ∀ t ∈ o, t.Valid) :
    readOption readInstant (Json.ofOption Instant.json o).parsed = .ok (o.map Instant.reread) := by
  cases o with
  | none => rfl
  | some t =>
    have ht := readInstant_json (h t rfl)
    simp only [Json.ofOption, Instant.json, Json.parsed, readOption] at ht ⊢
    rw [ht]
    rfl

theorem settled_of_readOption {x : Syntax} {o : Option Instant}
    (h : readOption readInstant x = .ok o) : ∀ t ∈ o, t.Settled := by
  intro t ht
  unfold readOption at h
  split at h
  · cases h
    cases ht
  · cases hx : readInstant x with
    | error e =>
      rw [hx] at h
      cases h
    | ok u =>
      rw [hx] at h
      cases h
      cases ht
      exact settled_of_readInstant hx

theorem eq_some_of_required {α : Type} {o : Option α} {a : α} (h : required o = .ok a) :
    o = some a := by
  cases o with
  | none => cases h
  | some b =>
    cases h
    rfl

theorem of_readAll {α : Type} {r : Reader α} {s : String} {a : α} (h : readAll r s = .ok a) :
    ∃ x, r x = .ok a := by
  rcases hr : read s with ⟨x, clean⟩
  simp only [readAll, hr] at h
  obtain ⟨b, hb, h⟩ := except_bind_eq_ok.1 h
  cases clean with
  | false => cases h
  | true =>
    cases h
    exact ⟨x, hb⟩

theorem readOption_text (o : Option String) :
    readOption readText (Json.ofOption .string o).parsed = .ok o := by
  cases o <;> rfl

theorem readList_bools (bs : List Bool) :
    readList readBool (.array (Json.parsedItems (bs.map .bool))) = .ok bs := by
  rw [readList]
  induction bs with
  | nil => rfl
  | cons b bs ih =>
    simp only [List.map_cons, Json.parsedItems, Json.parsed, List.mapM_cons, ih]
    rfl

end Syntax

/-! ### Sessions -/

/-- A length of time as it is stored. -/
def Duration.stored (d : Duration) : Duration := .ofMillis d.roundedMillis

theorem Duration.roundedMillis_ofMillis (n : Nat) : (ofMillis n).roundedMillis = n := by
  simp only [roundedMillis, ofMillis]
  omega

theorem Duration.stored_ofMillis (n : Nat) : (ofMillis n).stored = ofMillis n := by
  rw [stored, roundedMillis_ofMillis]

namespace Session

/-- A session whose fields have the sizes that storage has room for. -/
structure Storable (s : Session) : Prop where
  start : s.start.Valid
  stop : s.stop.Valid
  window : s.window.roundedMillis ≤ Numeral.maxUInt64
  partLength : s.partLength.roundedMillis ≤ Numeral.maxUInt64
  batchSize : s.batchSize ≤ Numeral.maxUInt64
  unpacked : s.total.unpacked ≤ Numeral.maxUInt64
  packed : s.total.packed ≤ Numeral.maxUInt64
  createdAt : s.createdAt.Valid
  startedAt : ∀ t ∈ s.startedAt, t.Valid
  finishedAt : ∀ t ∈ s.finishedAt, t.Valid

/-- The session that is read from what is stored for one. -/
def stored (s : Session) : Session :=
  { s with
    start := s.start.reread
    stop := s.stop.reread
    window := s.window.stored
    partLength := s.partLength.stored
    createdAt := s.createdAt.reread
    startedAt := s.startedAt.map Instant.reread
    finishedAt := s.finishedAt.map Instant.reread }

theorem readSizes_json {t : Sizes} (hu : t.unpacked ≤ Numeral.maxUInt64)
    (hp : t.packed ≤ Numeral.maxUInt64) : readSizes t.json.parsed = .ok t := by
  unfold readSizes
  refine except_bind_eq_ok.2 ⟨⟨some t.unpacked, some t.packed⟩, ?_, rfl⟩
  simp only [Sizes.json, Json.parsed, Json.parsedMembers, Syntax.readRecord]
  refine Syntax.readMembersOf_cons (by decide) (by decide)
    (Syntax.set_eq (Syntax.readNat_nat hu)) ?_
  exact Syntax.readMembersOf_cons (by decide) (by decide)
    (Syntax.set_eq (Syntax.readNat_nat hp)) rfl

theorem readStatus_text (t : Status) : readStatus (.string (some t.text)) = .ok t := by
  simp only [readStatus, Syntax.readText, statusOf, bind, Except.bind, Status.ofText?_text]

/-- All fields of a session. -/
def draft (s : Session) : Draft :=
  { id := some s.id, user := some s.user, name := some s.name, status := some s.status,
    query := some s.query, start := some s.start, stop := some s.stop, window := some s.window,
    partLength := some s.partLength, batchSize := some s.batchSize, uploaded := some s.uploaded,
    total := some s.total, pathRoot := some s.pathRoot, createdAt := some s.createdAt,
    startedAt := s.startedAt, finishedAt := s.finishedAt, error := s.error }

theorem read_json {s : Session} (h : s.Storable) : read s.json.parsed = .ok s.stored := by
  unfold read
  refine except_bind_eq_ok.2 ⟨s.stored.draft, ?_, rfl⟩
  simp only [json, Json.parsed, Json.parsedMembers, Syntax.readRecord]
  refine Syntax.readMembersOf_cons (by decide) (by decide) (Syntax.set_eq rfl) ?_
  refine Syntax.readMembersOf_cons (by decide) (by decide) (Syntax.set_eq rfl) ?_
  refine Syntax.readMembersOf_cons (by decide) (by decide) (Syntax.set_eq rfl) ?_
  refine Syntax.readMembersOf_cons (by decide) (by decide)
    (Syntax.set_eq (readStatus_text s.status)) ?_
  refine Syntax.readMembersOf_cons (by decide) (by decide) (Syntax.set_eq rfl) ?_
  refine Syntax.readMembersOf_cons (by decide) (by decide)
    (Syntax.set_eq (Syntax.readInstant_json h.start)) ?_
  refine Syntax.readMembersOf_cons (by decide) (by decide)
    (Syntax.set_eq (Syntax.readInstant_json h.stop)) ?_
  refine Syntax.readMembersOf_cons (by decide) (by decide)
    (Syntax.set_eq (Syntax.readNat_nat h.window)) ?_
  refine Syntax.readMembersOf_cons (by decide) (by decide)
    (Syntax.set_eq (Syntax.readNat_nat h.partLength)) ?_
  refine Syntax.readMembersOf_cons (by decide) (by decide)
    (Syntax.set_eq (Syntax.readNat_nat h.batchSize)) ?_
  refine Syntax.readMembersOf_cons (by decide) (by decide)
    (Syntax.set_eq (Syntax.readList_bools s.uploaded)) ?_
  refine Syntax.readMembersOf_cons (by decide) (by decide)
    (Syntax.set_eq (readSizes_json h.unpacked h.packed)) ?_
  refine Syntax.readMembersOf_cons (by decide) (by decide) (Syntax.set_eq rfl) ?_
  refine Syntax.readMembersOf_cons (by decide) (by decide)
    (Syntax.set_eq (Syntax.readInstant_json h.createdAt)) ?_
  refine Syntax.readMembersOf_cons (by decide) (by decide)
    (Syntax.set_eq (Syntax.readOption_instant h.startedAt)) ?_
  refine Syntax.readMembersOf_cons (by decide) (by decide)
    (Syntax.set_eq (Syntax.readOption_instant h.finishedAt)) ?_
  exact Syntax.readMembersOf_cons (by decide) (by decide)
    (Syntax.set_eq (Syntax.readOption_text s.error)) rfl

theorem isBroken_bools (bs : List Bool) :
    Syntax.anyBroken (Json.parsedItems (bs.map .bool)) = false := by
  induction bs with
  | nil => rfl
  | cons b bs ih =>
    rw [List.map_cons, Json.parsedItems, Syntax.anyBroken, ih]
    rfl

theorem isBroken_ofOption {α : Type} {f : α → Json} (hf : ∀ a, (f a).parsed.isBroken = false)
    (o : Option α) : (Json.ofOption f o).parsed.isBroken = false := by
  cases o with
  | none => rfl
  | some a => exact hf a

theorem isBroken_json (s : Session) : s.json.parsed.isBroken = false := by
  simp only [json, Sizes.json, Instant.json, Json.nat, Json.parsed, Json.parsedMembers,
    Syntax.isBroken, Syntax.anyMemberBroken, isBroken_bools, Bool.or_false]
  simp only [isBroken_ofOption (f := Instant.json) fun _ => rfl,
    isBroken_ofOption (f := Json.string) fun _ => rfl, Bool.or_false]

/-- A session reads back as what is stored of it. -/
theorem decode?_encode {s : Session} (h : s.Storable) : decode? s.encode = some s.stored := by
  simp only [decode?, encode, Utf8.decode?_encode, bind, Option.bind_some, ofText?, text,
    Syntax.readAll_text read s.isBroken_json, read_json h, Except.toOption]

/-- Storing the session loses nothing. -/
structure Settled (s : Session) : Prop extends Storable s where
  kept : s.stored = s

theorem Settled.decode?_encode {s : Session} (h : s.Settled) : decode? s.encode = some s := by
  rw [Session.decode?_encode h.toStorable, h.kept]

/-- What has been read of a session can be stored without loss. -/
structure Draft.Settled (d : Draft) : Prop where
  start : ∀ t ∈ d.start, t.Settled
  stop : ∀ t ∈ d.stop, t.Settled
  window : ∀ w ∈ d.window, ∃ n ≤ Numeral.maxUInt64, w = .ofMillis n
  partLength : ∀ l ∈ d.partLength, ∃ n ≤ Numeral.maxUInt64, l = .ofMillis n
  batchSize : ∀ n ∈ d.batchSize, n ≤ Numeral.maxUInt64
  total : ∀ t ∈ d.total, t.unpacked ≤ Numeral.maxUInt64 ∧ t.packed ≤ Numeral.maxUInt64
  createdAt : ∀ t ∈ d.createdAt, t.Settled
  startedAt : ∀ t ∈ d.startedAt, t.Settled
  finishedAt : ∀ t ∈ d.finishedAt, t.Settled

theorem settled_of_readSizes {x : Syntax} {t : Sizes} (h : readSizes x = .ok t) :
    t.unpacked ≤ Numeral.maxUInt64 ∧ t.packed ≤ Numeral.maxUInt64 := by
  unfold readSizes at h
  obtain ⟨d, hd, h⟩ := except_bind_eq_ok.1 h
  obtain ⟨u, hu, h⟩ := except_bind_eq_ok.1 h
  obtain ⟨p, hp, h⟩ := except_bind_eq_ok.1 h
  cases h
  have hfit := Syntax.readRecord_induct (P := fun d : SizesDraft =>
      (∀ n ∈ d.unpacked, n ≤ Numeral.maxUInt64) ∧ ∀ n ∈ d.packed, n ≤ Numeral.maxUInt64) (by
    intro k x d d' hd h
    split at h
    all_goals
      obtain ⟨n, hn, h⟩ := except_bind_eq_ok.1 h
      cases h
    · exact ⟨by rintro _ ⟨⟩; exact Syntax.le_of_readNat hn, hd.2⟩
    · exact ⟨hd.1, by rintro _ ⟨⟩; exact Syntax.le_of_readNat hn⟩)
    ⟨by rintro _ ⟨⟩, by rintro _ ⟨⟩⟩ hd
  exact ⟨hfit.1 u (Syntax.eq_some_of_required hu), hfit.2 p (Syntax.eq_some_of_required hp)⟩

theorem settled_setField (k : String) (x : Syntax) (d d' : Draft) (hd : d.Settled)
    (h : setField k x d = .ok d') : d'.Settled := by
  unfold setField at h
  split at h
  all_goals
    obtain ⟨a, ha, h⟩ := except_bind_eq_ok.1 h
    cases h
  · exact { hd with }
  · exact { hd with }
  · exact { hd with }
  · exact { hd with }
  · exact { hd with }
  · exact { hd with start := by rintro _ ⟨⟩; exact Syntax.settled_of_readInstant ha }
  · exact { hd with stop := by rintro _ ⟨⟩; exact Syntax.settled_of_readInstant ha }
  · exact { hd with window := by rintro _ ⟨⟩; exact ⟨a, Syntax.le_of_readNat ha, rfl⟩ }
  · exact { hd with partLength := by rintro _ ⟨⟩; exact ⟨a, Syntax.le_of_readNat ha, rfl⟩ }
  · exact { hd with batchSize := by rintro _ ⟨⟩; exact Syntax.le_of_readNat ha }
  · exact { hd with }
  · exact { hd with total := by rintro _ ⟨⟩; exact settled_of_readSizes ha }
  · exact { hd with }
  · exact { hd with createdAt := by rintro _ ⟨⟩; exact Syntax.settled_of_readInstant ha }
  · exact { hd with startedAt := Syntax.settled_of_readOption ha }
  · exact { hd with finishedAt := Syntax.settled_of_readOption ha }
  · exact { hd with }

theorem settled_of_ofDraft {d : Draft} {s : Session} (hd : d.Settled) (h : ofDraft d = .ok s) :
    s.Settled := by
  have hs : d = s.draft := by
    unfold ofDraft at h
    simp only [except_bind_eq_ok] at h
    obtain ⟨_, h1, _, h2, _, h3, _, h4, _, h5, _, h6, _, h7, _, h8, _, h9, _, h10, _, h11, _, h12,
      _, h13, _, h14, h⟩ := h
    cases h
    simp only [draft, ← Syntax.eq_some_of_required h1, ← Syntax.eq_some_of_required h2,
      ← Syntax.eq_some_of_required h3, ← Syntax.eq_some_of_required h4,
      ← Syntax.eq_some_of_required h5, ← Syntax.eq_some_of_required h6,
      ← Syntax.eq_some_of_required h7, ← Syntax.eq_some_of_required h8,
      ← Syntax.eq_some_of_required h9, ← Syntax.eq_some_of_required h10,
      ← Syntax.eq_some_of_required h11, ← Syntax.eq_some_of_required h12,
      ← Syntax.eq_some_of_required h13, ← Syntax.eq_some_of_required h14]
  subst hs
  obtain ⟨w, hw, hwe⟩ := hd.window s.window rfl
  obtain ⟨l, hl, hle⟩ := hd.partLength s.partLength rfl
  have keep : ∀ o : Option Instant, (∀ t ∈ o, t.Settled) → o.map Instant.reread = o := by
    rintro (_ | t) h
    · rfl
    · exact congrArg some (h t rfl).2
  have hstarted := keep s.startedAt hd.startedAt
  have hfinished := keep s.finishedAt hd.finishedAt
  exact
    { start := (hd.start _ rfl).1
      stop := (hd.stop _ rfl).1
      window := by rwa [hwe, Duration.roundedMillis_ofMillis]
      partLength := by rwa [hle, Duration.roundedMillis_ofMillis]
      batchSize := hd.batchSize _ rfl
      unpacked := (hd.total _ rfl).1
      packed := (hd.total _ rfl).2
      createdAt := (hd.createdAt _ rfl).1
      startedAt := fun t ht => (hd.startedAt t ht).1
      finishedAt := fun t ht => (hd.finishedAt t ht).1
      kept := by
        simp only [stored, (hd.start _ rfl).2, (hd.stop _ rfl).2, (hd.createdAt _ rfl).2,
          hstarted, hfinished, hwe, hle, Duration.stored_ofMillis]
        rw [← hwe, ← hle] }

/-- What is read can be stored again without loss. -/
theorem settled_of_decode? {bs : Bytes} {s : Session} (h : decode? bs = some s) : s.Settled := by
  simp only [decode?, bind, Option.bind_eq_some_iff, ofText?] at h
  obtain ⟨t, -, h⟩ := h
  cases ht : Syntax.readAll read t with
  | error f =>
    rw [ht] at h
    cases h
  | ok u =>
    rw [ht] at h
    cases h
    obtain ⟨x, hu⟩ := Syntax.of_readAll ht
    obtain ⟨d, hd, h⟩ := except_bind_eq_ok.1 hu
    refine settled_of_ofDraft (Syntax.readRecord_induct settled_setField ?_ hd) h
    constructor <;> rintro _ ⟨⟩

theorem settled_confirm {s : Session} (h : s.Settled) (i : Nat) (size : Sizes) :
    (s.confirm i size).Settled := by
  have fit : ∀ n, n % Sizes.wordCount ≤ Numeral.maxUInt64 := fun n =>
    Nat.le_of_lt_succ (Nat.mod_lt n (by decide))
  exact
    { h with
      unpacked := fit _
      packed := fit _
      kept := congrArg (Session.confirm · i size) h.kept }

theorem storable_ended {s : Session} (h : s.Settled) (status : Status) (error : Option String)
    {now : Instant} (hn : now.Valid) : (s.ended status error now).Storable :=
  { h.toStorable with finishedAt := by rintro _ ⟨⟩; exact hn }

theorem stored_ended {s : Session} (h : s.Settled) (status : Status) (error : Option String)
    (now : Instant) : (s.ended status error now).stored = s.ended status error now.reread :=
  congrArg (Session.ended · status error now.reread) h.kept

end Session

end LogExport
