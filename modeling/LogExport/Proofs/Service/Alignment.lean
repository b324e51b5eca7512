import LogExport.Proofs.Partition.EvenCuts
import LogExport.Proofs.Service.Finishing
import LogExport.Proofs.Session.Frame

/-! What a start that is accepted stores, and whether its range is cut into equal
parts between bounds. The start of the range is always a bound. The end is one
unless it was asked for at an offset with other bounds, or inside a second 60. -/

namespace LogExport

open Access

/-- A start that works out has stored its session and the lock for it. -/
theorem SessionStore.records_of_start {s : Session} {b b' : Backend}
    (h : Gives (start s) b (.ok ()) b') :
    b'.records = b.records.apply [putSession s, putLock s.id] := by
  have script : Gives ((StoreCall.start s).script s.createdAt).access b (.ok ()) b' := by
    rw [Script.access_script]
    exact h
  rcases Script.serve_or_fault script with ⟨⟨_, he⟩, -⟩ | served
  · cases he
  simp only [StoreCall.script, Script.requireFree, Script.holder, Script.serve] at served
  cases hk : b.records.get? SessionKey.lock with
  | none =>
    rw [hk] at served
    exact (Prod.mk.inj served).2
  | some bs =>
    simp only [hk] at served
    split at served
    · cases (Prod.mk.inj served).1
    · cases (Prod.mk.inj served).1

namespace Engine

variable {e e' : Engine} {user : Option String} {r : ExportRequest} {id : String}

/-- What is stored for an accepted start. -/
theorem stored_of_start (clock : e.now.Valid) (pages : e.settings.pageSize ≤ Numeral.maxUInt64)
    (exact : r.Exact) (accepted : e.start user r = some (.ok id, e')) :
    ∃ name lo hi parts, requestFault? e.settings.partLength.length r = none ∧
      e.settings.partLength.normalize? r.start r.stop = some (lo, hi) ∧
      partitionCount? lo hi e.settings.partLength.length = some parts ∧
      e'.backend.records.shelf.session id = some (e.newSession name r lo hi parts).stored := by
  unfold Engine.start at accepted
  obtain ⟨prepared, hprepared, h⟩ := Option.map_eq_some_iff.1 accepted
  cases prepared with
  | error err => cases h
  | ok s =>
    obtain ⟨name, lo, hi, parts, -, sound, bounds, count, rfl⟩ := prepare_eq_ok hprepared
    have storable : (e.newSession name r lo hi parts).Storable :=
      storable_newSession clock pages exact sound bounds
    rcases hg : (SessionStore.start (e.newSession name r lo hi parts)).run.run e.backend with
      ⟨done, b⟩
    dsimp only at h
    rw [access_eq hg] at h
    cases done with
    | error err => cases h
    | ok _ =>
      cases h
      refine ⟨name, lo, hi, parts, sound, bounds, count, ?_⟩
      show b.records.shelf.session _ = _
      rw [SessionStore.records_of_start hg]
      show ((e.backend.records.write (SessionStore.putSession _)).write
        (SessionStore.putLock _)).shelf.session _ = _
      rw [KeyMap.shelf_putLock, KeyMap.shelf_putSession storable]
      exact Function.update_self ..

/-- Of the range that is stored for an accepted start, the start is a bound of
parts on the clock of the requested start. All of it is cut into equal parts
between such bounds exactly if the requested end is not inside a second 60, unless
at a bound; its offset is whole parts from that of the start; and the ends that
are stored are regular, which they are unless they were asked for in second 60. -/
theorem accepted_evenly_iff {a b : String} (clock : e.now.Valid)
    (pages : e.settings.pageSize ≤ Numeral.maxUInt64) (start : Stamp.read? a = some r.start)
    (stop : Stamp.read? b = some r.stop) (accepted : e.start user r = some (.ok id, e')) :
    ∃ s, e'.backend.records.shelf.session id = some s ∧
      s.partLength = e.settings.partLength.length ∧
      e.settings.partLength.normalize? r.start r.stop = some (s.start, s.stop) ∧
      s.start.IsBound r.start.offset e.settings.partLength.step ∧
      (EvenlyCut s.start s.stop s.partCount s.partLength r.start.offset ↔
        (r.stop.utc.isLeap → r.stop.utc.IsBound r.stop.offset e.settings.partLength.step) ∧
        e.settings.partLength.step ∣ (r.stop.offset - r.start.offset) * Instant.perSecond ∧
        Instant.Regular s.start s.stop e.settings.partLength.step) ∧
      (r.start.utc.isLeap = false → r.stop.utc.isLeap = false →
        Instant.Regular s.start s.stop e.settings.partLength.step) := by
  have first := Stamp.exact_of_read? start
  have last := Stamp.exact_of_read? stop
  obtain ⟨name, lo, hi, parts, sound, bounds, count, found⟩ :=
    stored_of_start clock pages ⟨first.settled.1, last.settled.1⟩ accepted
  obtain ⟨wlo, whi, below, above⟩ :=
    PartLength.normalize?_spec first.settled.1 last.settled.1 bounds
  have hlt : lo < hi := (below.trans_lt (lt_of_sound sound)).trans_le above
  obtain ⟨u, v, hu, hv, rfl, rfl⟩ := PartLength.normalize?_eq_some bounds
  obtain ⟨bound, ulo⟩ := PartLength.isBound_of_floor? first hu
  have vhi := PartLength.settled_of_ceil? last hv
  generalize hs : (e.newSession name r u.utc v.utc parts).stored = s at found
  have hstart : s.start = u.utc := by rw [← hs]; exact ulo.2
  have hstop : s.stop = v.utc := by rw [← hs]; exact vhi.2
  have hlength : s.partLength = e.settings.partLength.length := by
    rw [← hs]
    exact PartLength.stored_length _
  have hcount : s.partCount = parts := by rw [← hs]; exact List.length_replicate
  have aligned := PartLength.isBound_ceil?_iff last first.minutes hv
  refine ⟨s, found, hlength, ?_, ?_, ?_, ?_⟩
  · rw [hstart, hstop]
    exact bounds
  · rw [hstart]
    exact bound
  · rw [hstart, hstop, hlength, hcount, ← and_assoc, ← aligned]
    constructor
    · intro even
      exact ⟨even.stop, even.regular wlo whi hlt count⟩
    · rintro ⟨stop, regular⟩
      exact evenlyCut_of_regular ulo.1 vhi.1 wlo whi hlt bound stop count regular
  · intro hlo hhi
    rw [hstart, hstop]
    refine Instant.regular_of_not_leap ?_ ?_
    · exact Bool.eq_false_iff.2 fun leap => by
        rw [PartLength.leap_of_floor? first hu leap] at hlo
        cases hlo
    · exact Bool.eq_false_iff.2 fun leap => by
        rw [PartLength.leap_of_ceil? last hv leap] at hhi
        cases hhi

/-- From 00:20:00 to 01:00:01, the latter seen an hour further east, is cut evenly;
from 00:00 to 01:00, the latter seen half an hour further east, is not. -/
theorem accepted_evenly_iff_audit :
    ∃ e b, create hourly {} newYear { linkBase := "" } = (.ok e, b) ∧
      (∃ e' s, e.start none { audit with
          start := ⟨⟨1704068400, 0⟩, 0⟩, stop := ⟨⟨1704070801, 0⟩, 3600⟩ } =
            some (.ok auditId, e') ∧
        e'.backend.records.shelf.session auditId = some s ∧
        EvenlyCut s.start s.stop s.partCount s.partLength 0) ∧
      ∃ e' s, e.start none { audit with stop := ⟨⟨1704070800, 0⟩, 1800⟩ } =
          some (.ok auditId, e') ∧
        e'.backend.records.shelf.session auditId = some s ∧
        ¬ EvenlyCut s.start s.stop s.partCount s.partLength 0 := by
  obtain ⟨e, b, created, clock, pages, ⟨e₁, wide⟩, e₂, skewed, length⟩ :
      ∃ e b, create hourly {} newYear { linkBase := "" } = (.ok e, b) ∧ e.now.Valid ∧
        e.settings.pageSize ≤ Numeral.maxUInt64 ∧
        (∃ e', e.start none { audit with
          start := ⟨⟨1704068400, 0⟩, 0⟩, stop := ⟨⟨1704070801, 0⟩, 3600⟩ } =
            some (.ok auditId, e')) ∧
        ∃ e', e.start none { audit with stop := ⟨⟨1704070800, 0⟩, 1800⟩ } =
            some (.ok auditId, e') ∧ e.settings.partLength.step = 3600000000000 :=
    ⟨_, _, rfl, by decide, by decide, ⟨_, rfl⟩, _, rfl, rfl⟩
  refine ⟨e, b, created, ?_, ?_⟩
  · have start : Stamp.read? "2024-01-01T00:20:00Z" = some ⟨⟨1704068400, 0⟩, 0⟩ := by decide
    have stop : Stamp.read? "2024-01-01T02:00:01+01:00" = some ⟨⟨1704070801, 0⟩, 3600⟩ := by decide
    obtain ⟨s, found, -, -, -, even, regular⟩ := accepted_evenly_iff clock pages start stop wide
    refine ⟨e₁, s, wide, found, even.2 ⟨fun leap => (by cases leap), ?_, regular rfl rfl⟩⟩
    rw [length]
    decide
  · have start : Stamp.read? "2024-01-01T00:00:00Z" = some ⟨newYear, 0⟩ := by decide
    have stop : Stamp.read? "2024-01-01T01:30:00+00:30" = some ⟨⟨1704070800, 0⟩, 1800⟩ := by decide
    obtain ⟨s, found, -, -, -, even, -⟩ := accepted_evenly_iff clock pages start stop skewed
    refine ⟨e₂, s, skewed, found, fun h => ?_⟩
    have apart := (even.1 h).2.1
    rw [length] at apart
    exact absurd apart (by decide)

end Engine

end LogExport
