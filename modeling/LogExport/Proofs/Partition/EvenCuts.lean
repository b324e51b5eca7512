import LogExport.Proofs.Partition.Rounding

/-! Ranges that are cut into equal parts. Between bounds the cuts are exact, and
reach the start without being clipped. The time in a range and in its newest part
is right as well, unless an end of the range is a second 60 that is counted at a
time of day at which it has not passed. -/

namespace LogExport

namespace Instant

variable {t lo hi : Instant} {step : Int}

/-- A part that ends outside of second 60 has its length. One that ends in it has
its length unless it reaches back to a later time of day. -/
theorem since_cut_iff :
    t.since (ofNanos (t.toNanos - step)) = step ↔
      (t.isLeap → ¬ t.secondOfDay < (ofNanos (t.toNanos - step)).secondOfDay) := by
  have hc : perSecond = 1000000000 := rfl
  have heq := since_eq (ofNanos (t.toNanos - step)) t
  rw [toNanos_ofNanos, isLeap_ofNanos] at heq
  simp only [Bool.false_eq_true, and_false, if_false] at heq
  rw [heq]
  split_ifs with early
  · exact iff_of_false (by omega) fun h => h early.2 early.1
  · exact iff_of_true (by omega) fun leap late => early ⟨late, leap⟩

theorem secondOfDay_cut_iff {p : PartLength} (whole : t.IsWhole) (leap : t.isLeap = true) :
    t.secondOfDay < (ofNanos (t.toNanos - p.step)).secondOfDay ↔
      (t.secondOfDay + 1) * perSecond < p.step := by
  have hc : perSecond = 1000000000 := rfl
  have hd : secondsPerDay = 86400 := rfl
  have hmin := p.minute_le_step
  have hmax : p.step ≤ 86400000000000 := Int.ofNat_le.2 p.length_le_day
  have hmod := p.step_mod_second
  rw [isLeap_iff] at leap
  unfold IsWhole at whole
  simp only [secondOfDay, ofNanos, toNanos, hc, hd]
  omega

/-- A second 60 at an end of the range that is neither counted too often nor
missed: at the start, it comes at a time of day that the end does not exceed; at
the end, not before the time of day of the start, and a part or more after
midnight. -/
structure Regular (lo hi : Instant) (step : Int) : Prop where
  start : lo.isLeap → lo.toNanos ≠ hi.toNanos ∧ ¬ lo.secondOfDay < hi.secondOfDay
  stop : hi.isLeap → ¬ hi.secondOfDay < lo.secondOfDay ∧ step ≤ (hi.secondOfDay + 1) * perSecond

theorem regular_of_not_leap (hlo : lo.isLeap = false) (hhi : hi.isLeap = false) :
    Regular lo hi step := by
  constructor
  · rw [hlo]
    simp
  · rw [hhi]
    simp

/-- The time in a range of whole parts is a number of whole parts exactly if no
second 60 is added to it or taken from it. -/
theorem dvd_since_iff (hs : 1000000000 < step) (whole : step ∣ hi.toNanos - lo.toNanos) :
    step ∣ hi.since lo ↔ hi.since lo = hi.toNanos - lo.toNanos := by
  have hc : perSecond = 1000000000 := rfl
  obtain ⟨leap, small, heq⟩ : ∃ leap, |leap| < step ∧
      hi.since lo = hi.toNanos - lo.toNanos + leap :=
    ⟨_, by split_ifs <;> rw [abs_lt] <;> omega, since_eq lo hi⟩
  rw [heq, Int.dvd_add_right whole]
  constructor
  · intro hd
    rw [Int.eq_zero_of_abs_lt_dvd hd small, Int.add_zero]
  · intro h
    obtain rfl : leap = 0 := by omega
    exact Int.dvd_zero step

/-- What regular ends come to: time passes, as much as is counted, and the newest
part has its length. -/
theorem regular_iff {p : PartLength} (wlo : lo.IsWhole) (whi : hi.IsWhole) (hlt : lo < hi) :
    Regular lo hi p.step ↔ lo.toNanos < hi.toNanos ∧ hi.since lo = hi.toNanos - lo.toNanos ∧
      hi.since (ofNanos (hi.toNanos - p.step)) = p.step := by
  have hc : perSecond = 1000000000 := rfl
  have hle := toNanos_le wlo hlt
  have heq := since_eq lo hi
  rw [since_cut_iff]
  constructor
  · intro regular
    refine ⟨?_, ?_, fun leap => ?_⟩
    · by_cases leap : lo.isLeap = true
      · exact lt_of_le_of_ne hle (regular.start leap).1
      · rw [isLeap_iff] at leap
        rw [lt_iff] at hlt
        unfold IsWhole at wlo whi
        simp only [toNanos, hc] at hle ⊢
        omega
    · split_ifs at heq with early late
      · exact absurd early.1 (regular.start early.2).2
      · exact absurd late.1 (regular.stop late.2).1
      · rw [heq, Int.add_zero]
    · rw [secondOfDay_cut_iff whi leap, not_lt]
      exact (regular.stop leap).2
  · rintro ⟨hpos, exact, newest⟩
    refine ⟨fun leap => ⟨hpos.ne, fun early => ?_⟩, fun leap => ⟨fun late => ?_, ?_⟩⟩
    · rw [if_pos ⟨early, leap⟩] at heq
      omega
    · rw [if_neg fun early => absurd early.1 (not_lt.2 late.le), if_pos ⟨late, leap⟩] at heq
      omega
    · have := newest leap
      rwa [secondOfDay_cut_iff whi leap, not_lt] at this

end Instant

open Instant

section Cuts

variable {start upper : Instant} {step : Int} {ps : List Partition}

/-- From an end that lies whole parts above the start, every cut is a part long
and none is clipped. -/
theorem cuts?_even (hs : 1000000000 ≤ step) (ha : start.InRange) (hu : upper.Valid) {n : Nat}
    (span : upper.toNanos = start.toNanos + step * n) (index : Nat) :
    ∃ ps, cuts? start step n index upper = some ps ∧
      ∀ q ∈ ps, q.start = ofNanos (q.stop.toNanos - step) ∧
        step ∣ q.stop.toNanos - start.toNanos ∧ (q.stop = upper ∨ q.stop.isLeap = false) := by
  have hc : perSecond = 1000000000 := rfl
  induction n generalizing index upper with
  | zero => exact ⟨[], rfl, fun q hq => by cases hq⟩
  | succ n ih =>
    set cut := ofNanos (upper.toNanos - step) with hcut
    have hmoved : upper.shifted (-step) = cut := shifted_of_second_le hs
    have hcount : cut.toNanos = start.toNanos + step * n := by
      rw [hcut, toNanos_ofNanos, span]
      push_cast
      ring
    have hpos : 0 ≤ step * n := Int.mul_nonneg (by omega) (by omega)
    have habove : start ≤ cut := (le_ofNanos_toNanos start).trans (ofNanos_mono (by
      rw [hcut, toNanos_ofNanos] at hcount
      omega))
    have hvalid : cut.Valid := by
      obtain ⟨⟨-, last⟩, field⟩ := hu
      have hfield := nano_ofNanos_lt (upper.toNanos - step)
      refine ⟨⟨?_, ?_⟩, hfield.trans (by decide)⟩
      · have := ha.1
        rw [le_iff] at habove
        omega
      · simp only [hcut, ofNanos, toNanos, hc]
        omega
    obtain ⟨rest, hrest, hall⟩ := ih hvalid hcount (index + 1)
    refine ⟨⟨index, cut, upper⟩ :: rest, ?_, fun q hq => ?_⟩
    · simp only [cuts?, Instant.sub?, add?, checked, hmoved, hvalid.1, if_true, bind,
        Option.bind_some, later_eq_left habove, hrest, pure]
    · rcases List.mem_cons.1 hq with rfl | hq
      · refine ⟨rfl, ?_, .inl rfl⟩
        rw [span, add_sub_cancel_left]
        exact Int.dvd_mul_right step _
      · obtain ⟨hstart, hdvd, hstop⟩ := hall q hq
        refine ⟨hstart, hdvd, .inr ?_⟩
        rcases hstop with hstop | hstop
        · rw [hstop]
          exact isLeap_ofNanos _
        · exact hstop

end Cuts

/-- A range that is cut into so many parts of one length, all between bounds at
an offset. -/
structure EvenlyCut (lo hi : Instant) (parts : Nat) (length : Duration) (offset : Int) : Prop where
  start : lo.IsBound offset length.nanos
  stop : hi.IsBound offset length.nanos
  span : ∃ n : Nat, 0 < n ∧ hi.since lo = length.nanos * n
  nonempty : 0 < parts
  cuts : ∃ ps, partitions? lo hi length = some ps ∧ ps.length = parts ∧
    ∀ q ∈ ps, q.stop.since q.start = length.nanos ∧ q.start.IsBound offset length.nanos ∧
      q.stop.IsBound offset length.nanos

section Even

variable {p : PartLength} {lo hi : Instant} {n : Nat} {offset : Int}

theorem dvd_toNanos_sub (hlo : lo.IsBound offset p.step) (hhi : hi.IsBound offset p.step) :
    p.step ∣ hi.toNanos - lo.toNanos := by
  rw [isBound_iff p.step_dvd_day] at hlo hhi
  have := Int.dvd_sub hhi hlo
  rwa [Int.add_sub_add_right] at this

/-- The time in the range is a number of parts, and so is its count; and the
newest part has its length. -/
theorem EvenlyCut.regular (h : EvenlyCut lo hi n p.length offset) (wlo : lo.IsWhole)
    (whi : hi.IsWhole) (hlt : lo < hi) (count : partitionCount? lo hi p.length = some n) :
    Regular lo hi p.step := by
  obtain ⟨start, stop, ⟨k, hk, span⟩, nonempty, ps, laidOut, -, pieces⟩ := h
  have hmin := p.minute_le_step
  have exact := (dvd_since_iff (by omega) (dvd_toNanos_sub start stop)).1 ⟨k, span⟩
  have hone : p.step * 1 ≤ p.step * k := Int.mul_le_mul_of_nonneg_left (by omega) (by omega)
  have hcount : hi.toNanos - lo.toNanos = p.step * k := exact.symm.trans span
  refine (regular_iff wlo whi hlt).2 ⟨by omega, exact, ?_⟩
  obtain ⟨m, rfl⟩ : ∃ m, n = m + 1 := ⟨n - 1, by omega⟩
  simp only [partitions?, count, bind, Option.bind_some, p.step_eq] at laidOut
  obtain ⟨rest, rfl, -, -⟩ := cuts?_succ laidOut
  have newest := (pieces _ List.mem_cons_self).1
  have above : lo ≤ ofNanos (hi.toNanos - p.step) :=
    (le_ofNanos_toNanos lo).trans (ofNanos_mono (by omega))
  rwa [shifted_of_second_le (by omega), later_eq_left above] at newest

/-- If the time in the range is a number of parts, there are as many. -/
theorem count_eq (wlo : lo.IsWhole) (whi : hi.IsWhole) {k : Nat}
    (span : hi.since lo = p.step * k) (count : partitionCount? lo hi p.length = some n) :
    n = k := by
  have hmin := p.minute_le_step
  have hpos := Int.mul_nonneg (a := p.step) (b := k) (by omega) (by omega)
  obtain ⟨enough, tight⟩ := count_spec wlo whi (by omega) count
  rw [span] at enough tight
  have hle := Int.le_of_mul_le_mul_left enough (by omega)
  have hlt := Int.lt_of_mul_lt_mul_left
    (show p.step * n < p.step * ((k : Int) + 1) by rw [Int.mul_add]; omega) (by omega)
  omega

theorem evenlyCut_of_regular (hlo : lo.Valid) (hhi : hi.Valid) (wlo : lo.IsWhole)
    (whi : hi.IsWhole) (hlt : lo < hi) (start : lo.IsBound offset p.step)
    (stop : hi.IsBound offset p.step) (count : partitionCount? lo hi p.length = some n)
    (regular : Regular lo hi p.step) : EvenlyCut lo hi n p.length offset := by
  have hmin := p.minute_le_step
  obtain ⟨hpos, exact, newest⟩ := (regular_iff wlo whi hlt).1 regular
  obtain ⟨k, hk⟩ := dvd_toNanos_sub start stop
  have hk0 : 0 < k := by
    by_contra hle
    have := Int.mul_nonpos_of_nonneg_of_nonpos (a := p.step) (b := k) (by omega) (by omega)
    omega
  obtain ⟨k, rfl⟩ : ∃ m : Nat, k = m := ⟨k.toNat, by omega⟩
  obtain rfl := count_eq wlo whi (exact.trans hk) count
  have span : hi.toNanos = lo.toNanos + p.step * n := by omega
  obtain ⟨ps, laidOut, all⟩ := cuts?_even (by omega) hlo.1 hhi span 0
  refine ⟨start, stop, ⟨n, by omega, exact.trans hk⟩, by omega, ps, ?_, length_of_cuts? laidOut,
    fun q hq => ?_⟩
  · simp only [partitions?, count, bind, Option.bind_some, p.step_eq]
    exact laidOut
  obtain ⟨hstart, hdvd, hstop⟩ := all q hq
  have above : q.stop.IsBound offset p.step := by
    rw [isBound_iff p.step_dvd_day] at start ⊢
    convert Int.dvd_add hdvd start using 1
    ring
  refine ⟨?_, ?_, above⟩
  · rw [hstart]
    rcases hstop with rfl | hstop
    · exact newest
    · exact since_cut_iff.2 fun leap => by rw [hstop] at leap; cases leap
  · show q.start.IsBound offset p.step
    rw [isBound_iff p.step_dvd_day] at above ⊢
    rw [hstart, toNanos_ofNanos]
    convert Int.dvd_sub above (Int.dvd_refl p.step) using 1
    ring

end Even

end LogExport
