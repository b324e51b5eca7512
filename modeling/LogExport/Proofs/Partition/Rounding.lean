import LogExport.Proofs.Partition.Count

/-! Where rounding leads. A bound of partitions lies a whole multiple of their
length after midnight on the clock of an offset. Rounding down leads to a bound,
and so does rounding up, unless it begins inside a second 60, which the addition
does not count. Either can leave the calendar. -/

namespace LogExport

namespace Instant

variable {t : Instant} {offset step span : Int}

/-- Whole multiples of a step after midnight, at an offset. -/
def IsBound (t : Instant) (offset step : Int) : Prop :=
  step ∣ (t.atOffset offset).secondOfDay * perSecond + t.nano

instance : Decidable (t.IsBound offset step) :=
  inferInstanceAs (Decidable (step ∣ (t.atOffset offset).secondOfDay * perSecond + t.nano))

/-- Days are whole multiples of the step, so midnight does not matter. -/
theorem dvd_secondOfDay_sub (t : Instant) (offset : Int)
    (day : step ∣ secondsPerDay * perSecond) :
    step ∣ (t.atOffset offset).secondOfDay * perSecond + t.nano -
      (t.toNanos + offset * perSecond) := by
  have hmod := Int.emod_def (t.sec + offset) secondsPerDay
  have hsub : (t.atOffset offset).secondOfDay * perSecond + t.nano -
      (t.toNanos + offset * perSecond) =
        secondsPerDay * perSecond * -((t.sec + offset) / secondsPerDay) := by
    simp only [atOffset, secondOfDay, toNanos, hmod]
    ring
  rw [hsub]
  exact day.mul_right _

theorem isBound_iff (day : step ∣ secondsPerDay * perSecond) :
    t.IsBound offset step ↔ step ∣ t.toNanos + offset * perSecond :=
  Int.dvd_iff_dvd_of_dvd_sub (dvd_secondOfDay_sub t offset day)

/-- Going forward to a whole second leaves second 60, which is not counted. -/
theorem shifted_to_whole (hn : t.nano < 2000000000) (h : 0 < span)
    (whole : (t.nano + span) % 1000000000 = 0) :
    t.shifted span = ofNanos (t.toNanos + span - if t.isLeap then perSecond else 0) := by
  obtain ⟨hs, hw, hp⟩ := seconds_of_nonneg h.le
  unfold shifted
  dsimp only
  split_ifs with leap past back
  · congr 1
    omega
  · omega
  · have := (isLeap_iff t).1 leap
    omega
  · rw [Int.sub_zero]

/-- A moment that was moved is in second 60 only if it was there before. -/
theorem leap_of_shifted (h : (t.shifted span).isLeap = true) :
    t.isLeap = true ∧ (t.shifted span).sec = t.sec := by
  unfold shifted at h ⊢
  dsimp only at h ⊢
  split_ifs at h ⊢ with leap past back
  · rw [isLeap_ofNanos] at h
    cases h
  · rw [isLeap_ofNanos] at h
    cases h
  · exact ⟨leap, rfl⟩
  · rw [isLeap_ofNanos] at h
    cases h

theorem settled_of_add? {u : Instant} (ht : t.Settled) (h : t.add? span = some u) : u.Settled := by
  refine ⟨valid_of_add? ht.1.2 h, ?_⟩
  rw [reread_eq_iff, eq_of_add? h]
  intro leap
  obtain ⟨before, same⟩ := leap_of_shifted leap
  rw [same]
  exact (reread_eq_iff t).1 ht.2 before

theorem add?_eq_none_iff : t.add? span = none ↔ ¬ (t.shifted span).InRange := by
  rw [add?, checked]
  split
  · next h => exact iff_of_false (by simp) (not_not.2 h)
  · next h => exact iff_of_true rfl h

/-- Going back leaves the calendar at its begin. -/
theorem sub?_eq_none_iff (ht : t.Valid) (h : 0 ≤ span) :
    t.sub? span = none ↔ t.toNanos - span < earliest * perSecond := by
  have hc : perSecond = 1000000000 := rfl
  have back : (t.shifted (-span)).toNanos = t.toNanos - span := by
    rcases h.lt_or_eq with h | rfl
    · rw [toNanos_shifted_of_neg t (by omega), Int.sub_eq_add_neg]
    · rw [Int.neg_zero, shifted_zero, Int.sub_zero]
  have hle : t.shifted (-span) ≤ t := by
    rcases h.lt_or_eq with h | rfl
    · exact (shifted_lt ht.2 (by omega)).le
    · rw [Int.neg_zero, shifted_zero]
  have field := nano_shifted_lt ht.2 (-span)
  have stays := sec_shifted_or t (-span)
  obtain ⟨⟨first, last⟩, -⟩ := ht
  rw [sub?, add?_eq_none_iff, ← back, InRange]
  rw [le_iff] at hle
  simp only [toNanos, hc] at back ⊢
  omega

/-- Going forward leaves it at its end. -/
theorem add?_eq_none_iff_of_whole (ht : t.Valid) (h : 0 < span)
    (whole : (t.nano + span) % 1000000000 = 0) :
    t.add? span = none ↔
      latest * perSecond ≤ t.toNanos + span - if t.isLeap then perSecond else 0 := by
  have hc : perSecond = 1000000000 := rfl
  have hlt := lt_shifted ht.2 h
  obtain ⟨⟨first, last⟩, field⟩ := ht
  rw [add?_eq_none_iff, InRange]
  rw [shifted_to_whole field h whole] at hlt ⊢
  generalize (t.toNanos + span - if t.isLeap then perSecond else 0) = n at hlt ⊢
  rw [lt_iff] at hlt
  simp only [ofNanos, hc] at hlt ⊢
  omega

end Instant

namespace Stamp

/-- What is known of a stamp that was read. -/
structure Exact (t : Stamp) : Prop where
  settled : t.utc.Settled
  shown : t.shown.InRange
  minutes : t.offset % 60 = 0

theorem shown_of_ofWallClock? {w : WallClock} {o : Int} {t : Stamp}
    (h : ofWallClock? w o = some t) : t.shown.InRange ∧ t.offset = o := by
  unfold ofWallClock? at h
  split at h
  · simp only [bind, pure, Option.bind_eq_some_iff, Option.some.injEq] at h
    obtain ⟨seen, hseen, utc, hutc, rfl⟩ := h
    unfold Instant.checked at hseen hutc
    split_ifs at hseen hutc with range
    cases hseen
    cases hutc
    refine ⟨?_, rfl⟩
    have back : (Instant.ofWallClock w).sec + -o + o = (Instant.ofWallClock w).sec := by omega
    unfold Instant.InRange shown Instant.atOffset
    dsimp only
    rw [back]
    exact range
  · cases h

theorem exact_of_read? {s : String} {t : Stamp} (h : read? s = some t) : t.Exact := by
  have settled := settled_of_read? h
  unfold read? at h
  simp only [bind, Option.bind_eq_some_iff] at h
  obtain ⟨_, _, _, _, ⟨w, _⟩, -, ⟨o, _⟩, ho, h⟩ := h
  split at h
  · obtain ⟨shown, rfl⟩ := shown_of_ofWallClock? h
    exact ⟨settled, shown, offset_of_readOffset ho⟩
  · cases h

end Stamp

namespace PartLength

variable {p : PartLength} {t u : Stamp}

theorem step_dvd_day (p : PartLength) : p.step ∣ Instant.secondsPerDay * Instant.perSecond :=
  Int.natCast_dvd_natCast.2 (Nat.dvd_of_mod_eq_zero p.ofDay)

theorem minute_dvd_step (p : PartLength) : 60 * Instant.perSecond ∣ p.step :=
  Int.natCast_dvd_natCast.2 (Nat.dvd_of_mod_eq_zero p.minutes)

/-- Nanoseconds since the last bound. -/
def rest (p : PartLength) (t : Stamp) : Int :=
  (t.utc.toNanos + t.offset * Instant.perSecond) % p.step

theorem rest_nonneg (p : PartLength) (t : Stamp) : 0 ≤ p.rest t :=
  Int.emod_nonneg _ (by have := p.minute_le_step; omega)

theorem rest_lt (p : PartLength) (t : Stamp) : p.rest t < p.step :=
  Int.emod_lt_of_pos _ (by have := p.minute_le_step; omega)

theorem rest_eq_zero_iff : p.rest t = 0 ↔ t.utc.IsBound t.offset p.step := by
  rw [Instant.isBound_iff p.step_dvd_day, rest, Int.dvd_iff_emod_eq_zero]

/-- Bounds are whole seconds. -/
theorem rest_mod_second (p : PartLength) (t : Stamp) :
    (t.utc.nano - p.rest t) % 1000000000 = 0 := by
  have hc : Instant.perSecond = 1000000000 := rfl
  have hd := Int.emod_emod_of_dvd (t.utc.toNanos + t.offset * Instant.perSecond)
    (Int.dvd_of_emod_eq_zero p.step_mod_second)
  rw [← rest] at hd
  simp only [Instant.toNanos, hc] at hd
  omega

theorem sinceBound?_eq (p : PartLength) (t : Stamp) :
    p.sinceBound? t = t.shown.checked.map fun _ => p.rest t := by
  unfold sinceBound? Instant.checked
  split
  · exact congrArg some (Int.emod_eq_emod_iff_emod_sub_eq_zero.2
      (Int.emod_eq_zero_of_dvd (Instant.dvd_secondOfDay_sub t.utc t.offset p.step_dvd_day)))
  · rfl

/-- Rounding down goes back by what has passed since the last bound. -/
theorem floor?_eq (shown : t.shown.InRange) :
    p.floor? t = (t.utc.sub? (p.rest t)).map fun utc => { t with utc } := by
  simp only [floor?, sinceBound?_eq, Instant.checked, shown, if_true, Option.map_some, bind,
    Option.bind_some, pure]
  cases t.utc.sub? (p.rest t) <;> rfl

/-- Rounding up goes forward by what is missing to the next bound. -/
theorem ceil?_eq (shown : t.shown.InRange) :
    p.ceil? t = if p.rest t = 0 then some t
      else (t.utc.add? (p.step - p.rest t)).map fun utc => { t with utc } := by
  simp only [ceil?, sinceBound?_eq, Instant.checked, shown, if_true, Option.map_some, bind,
    Option.bind_some, pure]
  split_ifs
  · rfl
  · cases t.utc.add? (p.step - p.rest t) <;> rfl

/-- The last bound is before the calendar begins. -/
def BeginsBefore (p : PartLength) (t : Stamp) : Prop :=
  t.utc.toNanos - p.rest t < Instant.earliest * Instant.perSecond

/-- The moment is no bound, and the next one is after the calendar ends. -/
def EndsAfter (p : PartLength) (t : Stamp) : Prop :=
  p.rest t ≠ 0 ∧ Instant.latest * Instant.perSecond ≤
    t.utc.toNanos + (p.step - p.rest t) - if t.utc.isLeap then Instant.perSecond else 0

instance (p : PartLength) (t : Stamp) : Decidable (p.BeginsBefore t) :=
  inferInstanceAs (Decidable (_ < _))

instance (p : PartLength) (t : Stamp) : Decidable (p.EndsAfter t) :=
  inferInstanceAs (Decidable (_ ∧ _))

theorem floor?_eq_none_iff (exact : t.Exact) : p.floor? t = none ↔ p.BeginsBefore t := by
  rw [floor?_eq exact.shown, Option.map_eq_none_iff,
    Instant.sub?_eq_none_iff exact.settled.1 (p.rest_nonneg t), BeginsBefore]

theorem ceil?_eq_none_iff (exact : t.Exact) : p.ceil? t = none ↔ p.EndsAfter t := by
  have hlt := p.rest_lt t
  have hstep := p.step_mod_second
  have hrest := p.rest_mod_second t
  rw [ceil?_eq exact.shown]
  by_cases hz : p.rest t = 0
  · rw [if_pos hz]
    exact iff_of_false (Option.some_ne_none t) fun h => h.1 hz
  · rw [if_neg hz, Option.map_eq_none_iff,
      Instant.add?_eq_none_iff_of_whole exact.settled.1 (by omega) (by omega)]
    exact (and_iff_right hz).symm

/-- A part after the begin of the calendar there is a bound before. -/
theorem not_beginsBefore (h : Instant.earliest * Instant.perSecond + p.step ≤ t.utc.toNanos) :
    ¬ p.BeginsBefore t := by
  have := p.rest_lt t
  unfold BeginsBefore
  omega

theorem not_endsAfter (h : t.utc.toNanos + p.step ≤ Instant.latest * Instant.perSecond) :
    ¬ p.EndsAfter t := by
  have := p.rest_nonneg t
  have hc : Instant.perSecond = 1000000000 := rfl
  unfold EndsAfter
  split_ifs <;> omega

/-- Rounding down leads to a bound, in any case. -/
theorem isBound_of_floor? (exact : t.Exact) (h : p.floor? t = some u) :
    u.utc.IsBound t.offset p.step ∧ u.utc.Settled := by
  rw [floor?_eq exact.shown] at h
  obtain ⟨utc, hutc, rfl⟩ := Option.map_eq_some_iff.1 h
  refine ⟨?_, Instant.settled_of_add? exact.settled hutc⟩
  have back : utc.toNanos = t.utc.toNanos - p.rest t := by
    rcases (p.rest_nonneg t).lt_or_eq with hpos | hz
    · exact Instant.toNanos_sub? hpos hutc
    · rw [Instant.eq_of_add? hutc, ← hz, Int.neg_zero, Instant.shifted_zero, Int.sub_zero]
  have hd : p.step ∣ t.utc.toNanos + t.offset * Instant.perSecond - p.rest t :=
    Int.dvd_self_sub_emod
  rw [Instant.isBound_iff p.step_dvd_day, back]
  convert hd using 1
  ring

/-- A bound is in second 60 only if the moment that was rounded is. -/
theorem leap_of_floor? (exact : t.Exact) (h : p.floor? t = some u) (leap : u.utc.isLeap = true) :
    t.utc.isLeap = true := by
  rw [floor?_eq exact.shown] at h
  obtain ⟨utc, hutc, rfl⟩ := Option.map_eq_some_iff.1 h
  exact (Instant.leap_of_shifted (Instant.eq_of_add? hutc ▸ leap)).1

theorem leap_of_ceil? (exact : t.Exact) (h : p.ceil? t = some u) (leap : u.utc.isLeap = true) :
    t.utc.isLeap = true := by
  rw [ceil?_eq exact.shown] at h
  split_ifs at h
  · cases h
    exact leap
  · obtain ⟨utc, hutc, rfl⟩ := Option.map_eq_some_iff.1 h
    exact (Instant.leap_of_shifted (Instant.eq_of_add? hutc ▸ leap)).1

theorem settled_of_ceil? (exact : t.Exact) (h : p.ceil? t = some u) : u.utc.Settled := by
  rw [ceil?_eq exact.shown] at h
  split_ifs at h
  · cases h
    exact exact.settled
  · obtain ⟨utc, hutc, rfl⟩ := Option.map_eq_some_iff.1 h
    exact Instant.settled_of_add? exact.settled hutc

/-- How far rounding up goes: one second short, if it begins inside second 60. -/
theorem toNanos_ceil? (exact : t.Exact) (h : p.ceil? t = some u) (hz : p.rest t ≠ 0) :
    u.utc.toNanos = t.utc.toNanos + (p.step - p.rest t) -
      if t.utc.isLeap then Instant.perSecond else 0 := by
  have hlt := p.rest_lt t
  have hstep := p.step_mod_second
  have hrest := p.rest_mod_second t
  rw [ceil?_eq exact.shown, if_neg hz] at h
  obtain ⟨utc, hutc, rfl⟩ := Option.map_eq_some_iff.1 h
  rw [Instant.eq_of_add? hutc,
    Instant.shifted_to_whole exact.settled.1.2 (by omega) (by omega), Instant.toNanos_ofNanos]

/-- Rounding up leads to a bound at an offset exactly if it begins outside of
second 60 or at a bound, and the offsets are whole parts apart. -/
theorem isBound_ceil?_iff {offset : Int} (exact : t.Exact) (minutes : offset % 60 = 0)
    (h : p.ceil? t = some u) :
    u.utc.IsBound offset p.step ↔
      (t.utc.isLeap → t.utc.IsBound t.offset p.step) ∧
        p.step ∣ (t.offset - offset) * Instant.perSecond := by
  have hc : Instant.perSecond = 1000000000 := rfl
  -- A bound at the one offset is a bound at the other if the offsets are whole parts apart.
  have move (ok : p.step ∣ u.utc.toNanos + t.offset * Instant.perSecond) :
      u.utc.IsBound offset p.step ↔ p.step ∣ (t.offset - offset) * Instant.perSecond := by
    rw [Instant.isBound_iff p.step_dvd_day]
    refine Int.dvd_iff_dvd_of_dvd_add ?_
    convert ok using 1
    ring
  have hd : p.step ∣ t.utc.toNanos + t.offset * Instant.perSecond - p.rest t :=
    Int.dvd_self_sub_emod
  rw [← rest_eq_zero_iff]
  by_cases hz : p.rest t = 0
  · rw [ceil?_eq exact.shown, if_pos hz] at h
    cases h
    rw [hz, Int.sub_zero] at hd
    rw [move hd]
    exact (and_iff_right fun _ => hz).symm
  have far := toNanos_ceil? exact h hz
  by_cases leap : t.utc.isLeap = true
  · rw [if_pos leap] at far
    refine iff_of_false (fun bound => ?_) fun ok => hz (ok.1 leap)
    -- One second short of a bound is no bound at any offset of whole minutes.
    rw [Instant.isBound_iff p.step_dvd_day] at bound
    have hm := Int.emod_eq_zero_of_dvd (p.minute_dvd_step.trans bound)
    have hm' := Int.emod_eq_zero_of_dvd (p.minute_dvd_step.trans hd)
    have hs := Int.emod_eq_zero_of_dvd p.minute_dvd_step
    have := exact.minutes
    rw [hc] at hm hm' hs far
    omega
  · rw [if_neg leap] at far
    rw [move, and_iff_right fun h => absurd h leap]
    rw [far]
    convert Int.dvd_add hd (Int.dvd_refl p.step) using 1
    ring

theorem normalize?_eq_none_iff {s : Stamp} :
    p.normalize? s t = none ↔ p.floor? s = none ∨ p.ceil? t = none := by
  cases hs : p.floor? s <;> cases ht : p.ceil? t <;>
    simp [normalize?, hs, ht, bind, Option.bind, pure]

end PartLength

end LogExport
