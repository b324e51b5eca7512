import LogExport.Proofs.Session.Codec

/-! Stored sessions read back. What comes back of a session has its lengths of
time in whole milliseconds and is otherwise the same, as long as each of its
leap seconds ends a minute; written again, it is the same text in any case. -/

namespace LogExport

namespace Instant

/-- A leap second inside a minute looks like the second after it. -/
theorem wallClock_reread {t : Instant} (hn : t.nano < 2000000000) :
    t.reread.wallClock = t.wallClock := by
  unfold reread
  split
  · next hl =>
    have hleap := (isLeap_iff t).1 hl.1
    have hday : (t.sec + 1) / 86400 = t.sec / 86400 := by omega
    have hsec : (t.sec + 1) % 86400 = t.sec % 86400 + 1 := by omega
    simp only [wallClock, day, secondOfDay, secondsPerDay, hday, hsec, WallClock.mk.injEq,
      true_and]
    omega
  · rfl

theorem text_reread {t : Instant} (h : t.Valid) : t.reread.text = t.text := by
  rw [text, wallClock_reread h.2, text]

end Instant

namespace Session

/-- The moments that a session tells. -/
def moments (s : Session) : List Instant :=
  [s.start, s.stop, s.createdAt] ++ s.startedAt.toList ++ s.finishedAt.toList

/-- A session with its lengths of time in whole milliseconds. -/
def rounded (s : Session) : Session :=
  { s with window := s.window.stored, partLength := s.partLength.stored }

theorem stored_eq_rounded_iff (s : Session) :
    s.stored = s.rounded ↔ ∀ t ∈ s.moments, t.reread = t := by
  have optional : ∀ o : Option Instant, o.map Instant.reread = o ↔ ∀ t ∈ o.toList, t.reread = t := by
    rintro (_ | t) <;> simp
  simp only [stored, rounded, mk.injEq, true_and, and_true, optional, moments, List.mem_append,
    or_imp, forall_and, List.forall_mem_cons, List.not_mem_nil, false_imp_iff, implies_true]
  tauto

/-- What is read back is written as it was. -/
theorem encode_stored {s : Session} (h : s.Storable) : s.stored.encode = s.encode := by
  have optional : ∀ o : Option Instant, (∀ t ∈ o, t.Valid) →
      Json.ofOption Instant.json (o.map Instant.reread) = Json.ofOption Instant.json o := by
    rintro (_ | t) ht
    · rfl
    · exact congrArg Json.string (Instant.text_reread (ht t rfl))
  have hw := Duration.roundedMillis_ofMillis s.window.roundedMillis
  have hl := Duration.roundedMillis_ofMillis s.partLength.roundedMillis
  simp only [encode, text, json, stored, Duration.stored, Instant.json,
    Instant.text_reread h.start, Instant.text_reread h.stop, Instant.text_reread h.createdAt,
    hw, hl]
  rw [optional _ h.startedAt, optional _ h.finishedAt]

/-- A session that storage has room for reads back. It is written as the same
text again; and it is the session that was stored, up to the rounding of its
lengths of time, exactly if none of its leap seconds is inside a minute. -/
theorem reads_back {s : Session} (h : s.Storable) :
    (decode? s.encode).map encode = some s.encode ∧
      (decode? s.encode = some s.rounded ↔ ∀ t ∈ s.moments, t.isLeap → t.sec % 60 = 59) := by
  rw [decode?_encode h]
  refine ⟨congrArg some (encode_stored h), ?_⟩
  simp only [Option.some.injEq, stored_eq_rounded_iff, Instant.reread_eq_iff]

/-- The end of 2016 in second 60, lengths of time of half a millisecond, and
texts beyond one byte. -/
theorem leap_session_reads_back :
    ∃ s : Session, s.Storable ∧ (∃ t ∈ s.moments, t.isLeap) ∧
      s.rounded = { s with window := .ofMillis 1, partLength := .ofMillis 2 } ∧
      decode? s.encode = some s.rounded ∧ (decode? s.encode).map encode = some s.encode := by
  let s : Session :=
    { id := "a/\"é\"", user := "a", name := "\"é\"", status := .finish, query := "\n",
      start := ⟨-62167219200, 1⟩, stop := ⟨1483228799, 1500000000⟩, window := ⟨500000⟩,
      partLength := ⟨1500000⟩, batchSize := 18446744073709551615, uploaded := [true, false],
      total := ⟨0, 18446744073709551615⟩, pathRoot := "exports/a/\"é\"",
      createdAt := ⟨1704153600, 0⟩, startedAt := none, finishedAt := some ⟨1704153600, 999⟩,
      error := some "" }
  have storable : s.Storable :=
    { start := by decide
      stop := by decide
      window := by decide
      partLength := by decide
      batchSize := by decide
      unpacked := by decide
      packed := by decide
      createdAt := by decide
      startedAt := by rintro _ ⟨⟩
      finishedAt := by rintro _ ⟨⟩; decide }
  exact ⟨s, storable, by decide, by decide, (reads_back storable).2.2 (by decide),
    (reads_back storable).1⟩

end Session

end LogExport
