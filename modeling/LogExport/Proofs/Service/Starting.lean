import LogExport.Proofs.Partition.Rounding
import LogExport.Proofs.Service.Runs

/-! When a start is answered. The only arithmetic that can leave its range is the
rounding of the requested range to bounds of parts, at either end of the calendar.
The count of parts and all that comes after it always work out. -/

namespace LogExport

/-- Whole parts are counted, never zero milliseconds. -/
theorem PartLength.stepMillis_pos (p : PartLength) : 0 < p.length.stepMillis := by
  have hsm := p.stepMillis_eq
  have hmin := p.minute_le_step
  omega

namespace Engine

variable {e : Engine} {user : Option String} {r : ExportRequest}

/-- What can keep a session from being prepared or refused. -/
theorem prepare_eq_none_iff (first : r.start.Exact) (last : r.stop.Exact) :
    e.prepare user r = none ↔ (∃ name, e.authorize user = .ok name) ∧
      requestFault? e.settings.partLength.length r = none ∧
      (e.settings.partLength.BeginsBefore r.start ∨ e.settings.partLength.EndsAfter r.stop) := by
  rw [← PartLength.floor?_eq_none_iff first, ← PartLength.ceil?_eq_none_iff last,
    ← PartLength.normalize?_eq_none_iff]
  unfold prepare
  cases allowed : e.authorize user with
  | error err => simp
  | ok name =>
    cases sound : requestFault? e.settings.partLength.length r with
    | some f => simp
    | none =>
      cases bounds : e.settings.partLength.normalize? r.start r.stop with
      | none => simp [bind, Option.bind]
      | some range =>
        obtain ⟨lo, hi⟩ := range
        obtain ⟨hlo, hhi⟩ := PartLength.valid_of_normalize? first.settled.1 last.settled.1 bounds
        obtain ⟨n, hn⟩ := partitionCount?_isSome (p := e.settings.partLength) hlo hhi
        simp only [hn, bind, Option.bind_some]
        split_ifs <;> simp

/-- A start for moments that can be read is answered, with an id or an error,
unless the caller and the request are in order and the last bound before the range
or the first one after it is outside of the calendar. So it is answered whenever
the range keeps a part away from both ends of the calendar. The count of parts
neither overflows nor divides by zero. -/
theorem start_eq_none_iff {a b : String} (start : Stamp.read? a = some r.start)
    (stop : Stamp.read? b = some r.stop) :
    (e.start user r = none ↔ (∃ name, e.authorize user = .ok name) ∧
      requestFault? e.settings.partLength.length r = none ∧
      (e.settings.partLength.BeginsBefore r.start ∨ e.settings.partLength.EndsAfter r.stop)) ∧
    (Instant.earliest * Instant.perSecond + e.settings.partLength.step ≤ r.start.utc.toNanos →
      r.stop.utc.toNanos + e.settings.partLength.step ≤ Instant.latest * Instant.perSecond →
      ∃ answer e', e.start user r = some (answer, e')) ∧
    ∀ lo hi, e.settings.partLength.normalize? r.start r.stop = some (lo, hi) →
      0 < e.settings.partLength.length.stepMillis ∧
        ∃ n, partitionCount? lo hi e.settings.partLength.length = some n := by
  have first := Stamp.exact_of_read? start
  have last := Stamp.exact_of_read? stop
  have unanswered : e.start user r = none ↔ e.prepare user r = none := by
    rw [Engine.start, Option.map_eq_none_iff]
  refine ⟨unanswered.trans (prepare_eq_none_iff first last), fun early late => ?_,
    fun lo hi bounds => ⟨e.settings.partLength.stepMillis_pos, ?_⟩⟩
  · have answered : e.start user r ≠ none := by
      rw [Ne, unanswered, prepare_eq_none_iff first last]
      rintro ⟨-, -, before | after⟩
      · exact PartLength.not_beginsBefore early before
      · exact PartLength.not_endsAfter late after
    obtain ⟨⟨answer, e'⟩, h⟩ := Option.ne_none_iff_exists'.1 answered
    exact ⟨answer, e', h⟩
  · obtain ⟨hlo, hhi⟩ := PartLength.valid_of_normalize? first.settled.1 last.settled.1 bounds
    exact partitionCount?_isSome hlo hhi

/-- The last half hour of the calendar has no answer; the hour before it has. -/
theorem start_eq_none_iff_dusk :
    ∃ e b, create hourly {} newYear { linkBase := "" } = (.ok e, b) ∧
      e.start none { audit with stop := ⟨⟨Instant.latest - 1800, 0⟩, 0⟩ } = none ∧
      ∃ answer e', e.start none { audit with stop := ⟨⟨Instant.latest - 3600, 0⟩, 0⟩ } =
        some (answer, e') := by
  obtain ⟨e, b, created, allowed, sound, after, early, late⟩ :
      ∃ e b, create hourly {} newYear { linkBase := "" } = (.ok e, b) ∧
        (∃ name, e.authorize none = .ok name) ∧
        requestFault? e.settings.partLength.length
          { audit with stop := ⟨⟨Instant.latest - 1800, 0⟩, 0⟩ } = none ∧
        e.settings.partLength.EndsAfter ⟨⟨Instant.latest - 1800, 0⟩, 0⟩ ∧
        Instant.earliest * Instant.perSecond + e.settings.partLength.step ≤ newYear.toNanos ∧
        Instant.toNanos ⟨Instant.latest - 3600, 0⟩ + e.settings.partLength.step ≤
          Instant.latest * Instant.perSecond :=
    ⟨_, _, rfl, ⟨_, rfl⟩, by decide, by decide, by decide, by decide⟩
  have start : Stamp.read? "2024-01-01T00:00:00Z" = some ⟨newYear, 0⟩ := by decide
  have half : Stamp.read? "+262142-12-31T23:30:00Z" = some ⟨⟨Instant.latest - 1800, 0⟩, 0⟩ := by
    decide
  have full : Stamp.read? "+262142-12-31T23:00:00Z" = some ⟨⟨Instant.latest - 3600, 0⟩, 0⟩ := by
    decide
  refine ⟨e, b, created, ?_, ?_⟩
  · exact (start_eq_none_iff (r := { audit with stop := _ }) start half).1.2
      ⟨allowed, sound, .inr after⟩
  · exact (start_eq_none_iff (r := { audit with stop := _ }) start full).2.1 early late

end Engine

end LogExport
