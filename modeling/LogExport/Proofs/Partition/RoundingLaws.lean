import LogExport.Proofs.Partition.Rounding

/-! The laws of rounding, away from the ends of the calendar and from second 60.
Rounding down leads to the last bound that is not after a moment, and rounding up
to the first that is not before it. The order, the fixed points and the distance
of a part between the two follow, at every offset and across midnights. -/

namespace LogExport

namespace Instant

/-- A day or more from either end of the calendar. -/
def IsInside (t : Instant) : Prop :=
  (earliest + secondsPerDay) * perSecond ≤ t.toNanos ∧
    t.toNanos + secondsPerDay * perSecond < latest * perSecond

instance (t : Instant) : Decidable t.IsInside := inferInstanceAs (Decidable (_ ∧ _))

theorem toNanos_atOffset (t : Instant) (offset : Int) :
    (t.atOffset offset).toNanos = t.toNanos + offset * perSecond := by
  simp only [toNanos, atOffset]
  ring

end Instant

namespace Stamp

/-- The clock of a moment in nanoseconds, on which bounds are multiples. -/
def clock (t : Stamp) : Int := t.utc.toNanos + t.offset * Instant.perSecond

/-- A moment that rounding cannot lead out of the calendar: outside of second 60,
at an offset of less than a day, and on the clock of the offset a day inside the
calendar. -/
structure Ordinary (t : Stamp) : Prop where
  leap : t.utc.isLeap = false
  fixed : |t.offset| < Instant.secondsPerDay
  inside : t.shown.IsInside

end Stamp

namespace PartLength

open Instant

variable {p : PartLength} {t u f c : Stamp} {b : Int}

/-- The ends of the calendar are midnights. -/
theorem step_dvd_midnight (p : PartLength) (days : Int) :
    p.step ∣ days * secondsPerDay * perSecond := by
  rw [Int.mul_assoc]
  exact p.step_dvd_day.mul_left days

/-- No bound lies between two that are a part apart. -/
theorem step_le_sub {a b : Int} (ha : p.step ∣ a) (hb : p.step ∣ b) (h : a < b) :
    p.step ≤ b - a :=
  Int.le_of_dvd (by omega) (Int.dvd_sub hb ha)

/-- What is missing to the next bound, nothing at a bound. -/
def missing (p : PartLength) (t : Stamp) : Int := if p.rest t = 0 then 0 else p.step - p.rest t

theorem missing_nonneg (p : PartLength) (t : Stamp) : 0 ≤ p.missing t := by
  have := p.rest_lt t
  unfold missing
  split_ifs <;> omega

theorem missing_lt (p : PartLength) (t : Stamp) : p.missing t < p.step := by
  have := p.rest_nonneg t
  have := p.minute_le_step
  unfold missing
  split_ifs <;> omega

theorem missing_eq_zero_iff : p.missing t = 0 ↔ p.rest t = 0 := by
  have := p.rest_lt t
  unfold missing
  split_ifs <;> omega

theorem step_dvd_last (p : PartLength) (t : Stamp) : p.step ∣ t.clock - p.rest t :=
  Int.dvd_self_sub_emod

theorem step_dvd_next (p : PartLength) (t : Stamp) : p.step ∣ t.clock + p.missing t := by
  have last := p.step_dvd_last t
  unfold missing
  split_ifs with hz
  · rwa [hz, Int.sub_zero, ← Int.add_zero t.clock] at last
  · convert Int.dvd_add last (Int.dvd_refl p.step) using 1
    ring

/-- A bound that is not after a moment is not after the last one. -/
theorem le_last (hb : p.step ∣ b) (h : b ≤ t.clock) : b ≤ t.clock - p.rest t := by
  have hlt := p.rest_lt t
  by_contra after
  have := step_le_sub (p.step_dvd_last t) hb (by omega)
  omega

/-- A bound that is not before a moment is not before the next one. -/
theorem next_le (hb : p.step ∣ b) (h : t.clock ≤ b) : t.clock + p.missing t ≤ b := by
  have hlt := p.missing_lt t
  by_contra before
  have := step_le_sub hb (p.step_dvd_next t) (by omega)
  omega

section Ordinary

variable (ordinary : t.Ordinary)

include ordinary

theorem shown_inRange : t.shown.InRange := by
  have hc : perSecond = 1000000000 := rfl
  have hd : secondsPerDay = 86400 := rfl
  obtain ⟨leap, fixed, inside⟩ := ordinary
  rw [← Bool.not_eq_true, isLeap_iff] at leap
  rw [abs_lt] at fixed
  simp only [IsInside, Stamp.shown, InRange, toNanos, atOffset, hc, hd] at inside fixed ⊢
  omega

/-- The last bound and the next one are in the calendar, in universal time and on
the clock of the offset. -/
theorem bounds_inRange :
    (ofNanos (t.utc.toNanos - p.rest t)).InRange ∧
      (ofNanos (t.utc.toNanos + p.missing t)).InRange ∧
      (ofNanos (t.clock - p.rest t)).InRange ∧ (ofNanos (t.clock + p.missing t)).InRange := by
  have hc : perSecond = 1000000000 := rfl
  have hd : secondsPerDay = 86400 := rfl
  have day : p.step ≤ 86400000000000 := Int.ofNat_le.2 p.length_le_day
  have := p.rest_nonneg t
  have := p.rest_lt t
  have := p.missing_nonneg t
  have := p.missing_lt t
  have first := p.step_dvd_midnight (Date.mk (-262143) 1 1).toDays
  have second := Int.dvd_add first p.step_dvd_day
  have last := Int.dvd_sub (p.step_dvd_midnight (Date.mk 262143 1 1).toDays) p.step_dvd_day
  obtain ⟨-, fixed, inside⟩ := ordinary
  rw [abs_lt] at fixed
  simp only [inRange_ofNanos_iff]
  simp only [IsInside, Stamp.shown, toNanos_atOffset, hc, hd] at inside
  rw [← earliest] at first second
  rw [← latest] at last
  -- The midnight after the first and the one before the last are bounds as well.
  have floor := fun h => le_last (t := t) first h
  have floor' := fun h => le_last (t := t) second h
  have ceil := fun h => next_le (t := t) last h
  simp only [Stamp.clock, hc, hd] at floor floor' ceil fixed ⊢
  omega

theorem floor?_eq_some : p.floor? t = some ⟨ofNanos (t.utc.toNanos - p.rest t), t.offset⟩ := by
  have range := (bounds_inRange (p := p) ordinary).1
  rw [floor?_eq (shown_inRange ordinary), sub?, add?_eq_some ordinary.leap range]
  rfl

theorem ceil?_eq_some : p.ceil? t = some ⟨ofNanos (t.utc.toNanos + p.missing t), t.offset⟩ := by
  have range := (bounds_inRange (p := p) ordinary).2.1
  rw [ceil?_eq (shown_inRange ordinary)]
  unfold missing at range ⊢
  split_ifs at range ⊢ with hz
  · rw [Int.add_zero, ofNanos_toNanos ordinary.leap]
  · rw [add?_eq_some ordinary.leap range]
    rfl

end Ordinary

/-- A moment, rounded down to `f` and up to `c`: `f` and `c` are bounds on the clock
of the moment, less than a part before and after it. At a bound both are the moment
itself, between bounds they are a part apart. -/
structure Rounds (p : PartLength) (t f c : Stamp) : Prop where
  down : p.floor? t = some f
  up : p.ceil? t = some c
  offsets : f.offset = t.offset ∧ c.offset = t.offset
  leaps : f.utc.isLeap = false ∧ c.utc.isLeap = false
  floor_le : f.utc ≤ t.utc
  lt_floor_add : t.utc.toNanos < f.utc.toNanos + p.step
  le_ceil : t.utc ≤ c.utc
  ceil_lt_add : c.utc.toNanos < t.utc.toNanos + p.step
  floor_bound : f.utc.IsBound f.offset p.step
  ceil_bound : c.utc.IsBound c.offset p.step
  floor_fixed : f = t ↔ t.utc.IsBound t.offset p.step
  ceil_fixed : c = t ↔ t.utc.IsBound t.offset p.step
  apart : ¬ t.utc.IsBound t.offset p.step → f.utc.add? p.step = some c.utc
  floor_again : p.floor? f = some f
  ceil_again : p.ceil? c = some c

theorem floor?_of_isBound (hb : t.utc.IsBound t.offset p.step) (shown : t.shown.InRange)
    (range : t.utc.InRange) : p.floor? t = some t := by
  rw [floor?_eq shown, rest_eq_zero_iff.2 hb, sub?, add?, Int.neg_zero, shifted_zero, checked,
    if_pos range]
  rfl

theorem ceil?_of_isBound (hb : t.utc.IsBound t.offset p.step) (shown : t.shown.InRange) :
    p.ceil? t = some t := by
  rw [ceil?_eq shown, if_pos (rest_eq_zero_iff.2 hb)]

/-- A moment that many nanoseconds later, as the clock shows it. -/
theorem shown_later (t : Stamp) (span : Int) :
    (Stamp.mk (ofNanos (t.utc.toNanos + span)) t.offset).shown = ofNanos (t.clock + span) := by
  have hc : perSecond = 1000000000 := rfl
  refine Instant.ext ?_ ?_ <;>
    simp only [Stamp.shown, atOffset, ofNanos, Stamp.clock, hc] <;> omega

theorem isBound_later_iff {span : Int} :
    (ofNanos (t.utc.toNanos + span)).IsBound t.offset p.step ↔ p.step ∣ t.clock + span := by
  rw [isBound_iff p.step_dvd_day, toNanos_ofNanos, Stamp.clock, Int.add_right_comm]

theorem isBound_last (p : PartLength) (t : Stamp) :
    (ofNanos (t.utc.toNanos - p.rest t)).IsBound t.offset p.step :=
  isBound_later_iff.2 (p.step_dvd_last t)

theorem isBound_next (p : PartLength) (t : Stamp) :
    (ofNanos (t.utc.toNanos + p.missing t)).IsBound t.offset p.step :=
  isBound_later_iff.2 (p.step_dvd_next t)

theorem eq_of_offset_iff (leap : t.utc.isLeap = false) {n : Int} :
    Stamp.mk (ofNanos n) t.offset = t ↔ n = t.utc.toNanos := by
  constructor
  · intro h
    rw [← h, toNanos_ofNanos]
  · rintro rfl
    rw [ofNanos_toNanos leap]

/-- Ordinary moments are rounded both ways. -/
theorem rounds (p : PartLength) (ordinary : t.Ordinary) :
    p.Rounds t ⟨ofNanos (t.utc.toNanos - p.rest t), t.offset⟩
      ⟨ofNanos (t.utc.toNanos + p.missing t), t.offset⟩ := by
  obtain ⟨lastRange, nextRange, lastShown, nextShown⟩ := bounds_inRange (p := p) ordinary
  have hrest := p.rest_nonneg t
  have hrest' := p.rest_lt t
  have hmissing := p.missing_nonneg t
  have hmissing' := p.missing_lt t
  constructor
  case down => exact floor?_eq_some ordinary
  case up => exact ceil?_eq_some ordinary
  case offsets => exact ⟨rfl, rfl⟩
  case leaps => exact ⟨isLeap_ofNanos _, isLeap_ofNanos _⟩
  case floor_le =>
    rw [le_iff_toNanos_le (isLeap_ofNanos _) ordinary.leap, toNanos_ofNanos]
    omega
  case lt_floor_add =>
    rw [toNanos_ofNanos]
    omega
  case le_ceil =>
    rw [le_iff_toNanos_le ordinary.leap (isLeap_ofNanos _), toNanos_ofNanos]
    omega
  case ceil_lt_add =>
    rw [toNanos_ofNanos]
    omega
  case floor_bound => exact p.isBound_last t
  case ceil_bound => exact p.isBound_next t
  case floor_fixed =>
    rw [eq_of_offset_iff ordinary.leap, ← rest_eq_zero_iff]
    omega
  case ceil_fixed =>
    rw [eq_of_offset_iff ordinary.leap, ← rest_eq_zero_iff, ← missing_eq_zero_iff]
    omega
  case apart =>
    intro hb
    have span : t.utc.toNanos + p.missing t = t.utc.toNanos - p.rest t + p.step := by
      rw [missing, if_neg fun hz => hb (rest_eq_zero_iff.1 hz)]
      omega
    rw [span] at nextRange ⊢
    rw [add?_eq_some (isLeap_ofNanos _) (by rwa [toNanos_ofNanos]), toNanos_ofNanos]
  case floor_again =>
    refine floor?_of_isBound (p.isBound_last t) ?_ lastRange
    exact (shown_later t (-p.rest t)).symm ▸ lastShown
  case ceil_again =>
    refine ceil?_of_isBound (p.isBound_next t) ?_
    exact (shown_later t (p.missing t)).symm ▸ nextShown

/-- Both roundings keep the order, as there is no bound between a moment and the one
that it is rounded to. -/
theorem Rounds.mono {f' c' : Stamp} (ht : p.Rounds t f c) (hu : p.Rounds u f' c')
    (leaps : t.utc.isLeap = false ∧ u.utc.isLeap = false)
    (same : t.offset = u.offset) (h : t.utc ≤ u.utc) : f.utc ≤ f'.utc ∧ c.utc ≤ c'.utc := by
  have boundAt {s : Stamp} (hb : s.utc.IsBound s.offset p.step) (ho : s.offset = t.offset) :
      p.step ∣ s.utc.toNanos + t.offset * perSecond := by
    rwa [← ho, ← isBound_iff p.step_dvd_day]
  have floor := boundAt ht.floor_bound ht.offsets.1
  have floor' := boundAt hu.floor_bound (hu.offsets.1.trans same.symm)
  have ceil := boundAt ht.ceil_bound ht.offsets.2
  have ceil' := boundAt hu.ceil_bound (hu.offsets.2.trans same.symm)
  have below := ht.floor_le
  have above := hu.le_ceil
  rw [le_iff_toNanos_le ht.leaps.1 leaps.1] at below
  rw [le_iff_toNanos_le leaps.2 hu.leaps.2] at above
  rw [le_iff_toNanos_le leaps.1 leaps.2] at h
  have near := hu.lt_floor_add
  have near' := ht.ceil_lt_add
  constructor
  · rw [le_iff_toNanos_le ht.leaps.1 hu.leaps.1]
    by_contra after
    have := step_le_sub floor' floor (by omega)
    omega
  · rw [le_iff_toNanos_le ht.leaps.2 hu.leaps.2]
    by_contra after
    have := step_le_sub ceil' ceil (by omega)
    omega

/-- The laws of rounding: at one offset, every two ordinary moments are rounded both
ways, and in their order. -/
theorem floor_ceil_laws {d : Duration} (accepted : ofDuration d = .ok p) (ht : t.Ordinary)
    (hu : u.Ordinary) (same : t.offset = u.offset) :
    p.length = d ∧ ∃ f c f' c', p.Rounds t f c ∧ p.Rounds u f' c' ∧
      (t.utc ≤ u.utc → f.utc ≤ f'.utc ∧ c.utc ≤ c'.utc) := by
  have length : p.length = d := by
    unfold ofDuration at accepted
    split_ifs at accepted
    cases accepted
    rfl
  have rt := p.rounds ht
  have ru := p.rounds hu
  exact ⟨length, _, _, _, _, rt, ru, rt.mono ru ⟨ht.leap, hu.leap⟩ same⟩

/-- Five to seven on the evening of a leap day and a quarter past the next midnight,
on a clock half an hour off the hours of universal time. -/
theorem floor_ceil_laws_leap_day :
    let hour := Duration.mk 3600000000000
    let t : Stamp := ⟨⟨1709213100, 250000000⟩, 19800⟩
    let u : Stamp := ⟨⟨1709232300, 0⟩, 19800⟩
    ∃ p, ofDuration hour = .ok p ∧ t.Ordinary ∧ u.Ordinary ∧ t.utc ≤ u.utc ∧
      ∃ f c f' c', p.Rounds t f c ∧ p.Rounds u f' c' ∧ f.utc ≤ f'.utc ∧ c.utc ≤ c'.utc := by
  have ht : Stamp.Ordinary ⟨⟨1709213100, 250000000⟩, 19800⟩ :=
    ⟨by decide, by decide, by decide⟩
  have hu : Stamp.Ordinary ⟨⟨1709232300, 0⟩, 19800⟩ := ⟨by decide, by decide, by decide⟩
  have le : (Instant.mk 1709213100 250000000) ≤ Instant.mk 1709232300 0 := by decide
  obtain ⟨-, f, c, f', c', rt, ru, mono⟩ :=
    floor_ceil_laws (d := ⟨3600000000000⟩) (p := ⟨⟨3600000000000⟩, by decide, by decide, by decide⟩)
      rfl ht hu rfl
  exact ⟨_, rfl, ht, hu, le, f, c, f', c', rt, ru, mono le⟩

/-- It is not enough to be a day inside universal time. A day before its end a clock
can show the last half hour of the calendar; rounded up to a full hour, it comes to a
midnight that it cannot show, and that cannot be rounded again. -/
theorem ceil_leaves_clock :
    let p : PartLength := ⟨⟨3600000000000⟩, by decide, by decide, by decide⟩
    let t : Stamp := ⟨⟨latest - 88140, 0⟩, 86340⟩
    let c : Stamp := ⟨⟨latest - 86340, 0⟩, 86340⟩
    ofDuration p.length = .ok p ∧ t.utc.isLeap = false ∧ |t.offset| < secondsPerDay ∧
      t.utc.IsInside ∧ p.ceil? t = some c ∧ p.ceil? c ≠ some c := by
  refine ⟨rfl, by decide, by decide, by decide, by decide, by decide⟩

end PartLength

end LogExport
