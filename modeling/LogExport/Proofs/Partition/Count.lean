import Mathlib.Algebra.Order.Group.Unbundled.Int
import Mathlib.Tactic.Ring
import LogExport.Proofs.Partition.Tiling

/-! When the partitions of a range reach its start. They are counted by the time
that has passed, second 60 included, and cut by a clock that skips it. Only if a
bound lies in a leap second can the count be too small. -/

namespace LogExport

/-- Rounded up, a quotient covers the whole, and one less does not. -/
theorem le_mul_div_up {d m : Int} (hm : 0 < m) :
    d ≤ m * ((d + m - 1) / m) ∧ m * ((d + m - 1) / m) < d + m := by
  have hmul := Int.mul_ediv_add_emod (d + m - 1) m
  have h0 := Int.emod_nonneg (d + m - 1) hm.ne'
  have hlt := Int.emod_lt_of_pos (d + m - 1) hm
  omega

namespace Duration

variable {length : Duration}

theorem step_eq (short : length.nanos ≤ maxInt64) : length.step = length.nanos :=
  min_eq_left short

/-- Whole milliseconds are counted without a loss. -/
theorem stepMillis_eq (short : length.nanos ≤ maxInt64) (whole : 1000000 ∣ length.nanos) :
    1000000 * length.stepMillis = length.nanos := by
  have hm : maxInt64 = 9223372036854775807 := rfl
  unfold stepMillis millis
  rw [Int.bmod_eq_of_le] <;> omega

end Duration

namespace PartLength

variable (p : PartLength)

theorem nanos_le_maxInt64 : p.length.nanos ≤ maxInt64 := by
  have h := p.length_le_day
  have hm : maxInt64 = 9223372036854775807 := rfl
  omega

theorem step_eq : p.length.step = p.step := Duration.step_eq p.nanos_le_maxInt64

theorem stepMillis_eq : 1000000 * p.length.stepMillis = p.step := by
  have hs := p.step_mod_second
  refine Duration.stepMillis_eq p.nanos_le_maxInt64 ?_
  unfold step at hs
  omega

end PartLength

namespace Instant

variable {a b : Instant}

/-- The time between two moments is that between their counts, unless second 60
lies between them and only one count has it. -/
theorem since_eq (a b : Instant) :
    b.since a = b.toNanos - a.toNanos +
      if a.secondOfDay < b.secondOfDay ∧ a.isLeap then perSecond
      else if b.secondOfDay < a.secondOfDay ∧ b.isLeap then -perSecond
      else 0 := by
  have hc : perSecond = 1000000000 := rfl
  simp only [since, toNanos, hc]
  split_ifs <;> omega

/-- Second 60 comes before the second that has the same count. -/
theorem ofNanos_le_iff (ha : a.IsWhole) {n : Int} :
    ofNanos n ≤ a ↔ n < a.toNanos ∨ n = a.toNanos ∧ a.isLeap = false := by
  have hc : perSecond = 1000000000 := rfl
  rw [← Bool.not_eq_true, isLeap_iff]
  unfold IsWhole at ha
  simp only [le_iff, ofNanos, toNanos, hc]
  omega

theorem toNanos_le (ha : a.IsWhole) (hlt : a < b) : a.toNanos ≤ b.toNanos := by
  have hc : perSecond = 1000000000 := rfl
  unfold IsWhole at ha
  rw [lt_iff] at hlt
  simp only [toNanos, hc]
  omega

theorem toNanos_mod_second (ha : a.IsWhole) : a.toNanos % 1000000000 = 0 := by
  have hc : perSecond = 1000000000 := rfl
  unfold IsWhole at ha
  simp only [toNanos, hc]
  omega

theorem since_mod_second (ha : a.IsWhole) (hb : b.IsWhole) : b.since a % 1000000000 = 0 := by
  have hc : perSecond = 1000000000 := rfl
  unfold IsWhole at ha hb
  simp only [since, hc]
  omega

/-- No more time passes than the calendar has. -/
theorem since_le (ha : a.Valid) (hb : b.Valid) :
    b.since a ≤ (latest - earliest + 3) * perSecond := by
  have hc : perSecond = 1000000000 := rfl
  obtain ⟨⟨_, _⟩, _⟩ := ha
  obtain ⟨⟨_, _⟩, _⟩ := hb
  simp only [since, hc]
  split_ifs <;> omega

/-- The count covers the time that has passed, and not a whole part more. -/
theorem count_spec {p : PartLength} {n : Nat} (ha : a.IsWhole) (hb : b.IsWhole)
    (hd : -p.step < b.since a) (h : partitionCount? a b p.length = some n) :
    b.since a ≤ p.step * n ∧ p.step * n < b.since a + p.step := by
  have hsm := p.stepMillis_eq
  have hmin := p.minute_le_step
  have hwhole := since_mod_second ha hb
  simp only [partitionCount?] at h
  generalize b.since a = d at *
  generalize p.length.stepMillis = m at *
  split_ifs at h with hz hover
  · -- Nothing has passed, and nothing is counted.
    cases h
    have hle : d ≤ 0 := by
      by_contra hpos
      rw [Int.tdiv_eq_ediv_of_nonneg (by omega)] at hz
      omega
    exact ⟨by simpa using hle, by simp only [Nat.cast_zero, Int.mul_zero]; omega⟩
  · cases h
    have hpos : 0 < d := by
      by_contra hle
      have hle' := Int.tdiv_nonneg (a := -d) (b := 1000000) (by omega) (by decide)
      rw [Int.neg_tdiv] at hle'
      omega
    rw [Int.tdiv_eq_ediv_of_nonneg hpos.le] at hz hover ⊢
    have hq : 0 ≤ (d / 1000000 + m - 1) / m := Int.ediv_nonneg (by omega) (by omega)
    obtain ⟨enough, tight⟩ := le_mul_div_up (d := d / 1000000) (m := m) (by omega)
    rw [Int.toNat_of_nonneg hq, ← hsm, Int.mul_assoc]
    omega

/-- Two bounds between which no whole number of parts can be counted right. -/
def Skips (a b : Instant) (step : Int) : Prop :=
  (a.isLeap = true ∧ ¬ a.secondOfDay < b.secondOfDay ∧ step ∣ b.toNanos - a.toNanos) ∨
    (b.isLeap = true ∧ b.secondOfDay < a.secondOfDay ∧
      step ∣ b.toNanos - a.toNanos - perSecond)

theorem dvd_iff_eq {step x d : Int} (hx : step ∣ x) (h : |x - d| < step) : step ∣ d ↔ x = d := by
  constructor
  · intro hd
    have := Int.eq_zero_of_abs_lt_dvd (Int.dvd_sub hx hd) h
    omega
  · rintro rfl
    exact hx

/-- The counted parts reach the start of the range. -/
theorem reaches_iff {p : PartLength} {n : Nat} (ha : a.IsWhole) (hb : b.IsWhole) (hlt : a < b)
    (h : partitionCount? a b p.length = some n) :
    ofNanos (b.toNanos - p.step * n) ≤ a ↔ ¬ Skips a b p.step := by
  have hc : perSecond = 1000000000 := rfl
  have hmin := p.minute_le_step
  have hmod := p.step_mod_second
  have hx : p.step ∣ p.step * n := Int.dvd_mul_right _ _
  have hle := toNanos_le ha hlt
  have ham := toNanos_mod_second ha
  have hbm := toNanos_mod_second hb
  have hxm := Int.emod_eq_zero_of_dvd ((Int.dvd_of_emod_eq_zero hmod).trans hx)
  have heq := since_eq a b
  have hspec : b.since a ≤ p.step * n ∧ p.step * n < b.since a + p.step := by
    refine count_spec ha hb ?_ h
    split_ifs at heq <;> omega
  rw [ofNanos_le_iff ha, Skips, ← Bool.not_eq_true]
  split_ifs at heq with early late
  · -- Second 60 at the start is counted: the parts are enough.
    refine iff_of_true (.inl (by omega)) ?_
    rintro (⟨-, hnot, -⟩ | ⟨-, hlater, -⟩)
    · exact hnot early.1
    · omega
  · -- Second 60 at the end is not counted, although it is cut.
    rw [dvd_iff_eq hx (by rw [abs_lt]; omega), dvd_iff_eq hx (by rw [abs_lt]; omega)]
    have hnot : ¬ a.secondOfDay < b.secondOfDay := by omega
    simp only [late.1, late.2, hnot, not_false_eq_true, true_and]
    by_cases leap : a.isLeap = true
    · simp only [leap, not_true_eq_false, and_false, or_false, true_and]
      omega
    · simp only [leap, not_false_eq_true, and_true, Bool.false_eq_true, false_and, false_or]
      omega
  · rw [dvd_iff_eq hx (by rw [abs_lt]; omega)]
    by_cases leap : a.isLeap = true
    · have hnot : ¬ a.secondOfDay < b.secondOfDay := fun h => early ⟨h, leap⟩
      have hlate : ¬ (b.isLeap = true ∧ b.secondOfDay < a.secondOfDay ∧
          p.step ∣ b.toNanos - a.toNanos - perSecond) := fun h => late ⟨h.2.1, h.1⟩
      simp only [leap, hnot, hlate, not_true_eq_false, not_false_eq_true, and_false, or_false,
        true_and]
      omega
    · have hlate : ¬ (b.isLeap = true ∧ b.secondOfDay < a.secondOfDay ∧
          p.step ∣ b.toNanos - a.toNanos - perSecond) := fun h => late ⟨h.2.1, h.1⟩
      simp only [leap, hlate, not_false_eq_true, and_true, Bool.false_eq_true, false_and, or_false,
        iff_true]
      omega

/-- The last of the cuts, if there is one. -/
theorem lowest_eq {step : Int} (hs : 1000000000 ≤ step) (ha : a.nano < 2000000000) (n : Nat)
    (upper : Instant) :
    lowest a step (n + 1) upper =
      (ofNanos (upper.toNanos - step * ((n + 1 : Nat) : Int))).later a := by
  induction n generalizing upper with
  | zero =>
    show (upper.shifted (-step)).later a = _
    rw [shifted_of_second_le hs]
    simp
  | succ n ih =>
    have hpos : step * 1 ≤ step * ((n + 1 : Nat) : Int) :=
      Int.mul_le_mul_of_nonneg_left (by omega) (by omega)
    have hsucc : step * ((n + 1 + 1 : Nat) : Int) = step + step * ((n + 1 : Nat) : Int) := by
      push_cast
      ring
    rw [lowest, ih, shifted_of_second_le hs, hsucc]
    by_cases hle : ofNanos (upper.toNanos - step) ≤ a
    · -- The start is reached, and the cuts stay there.
      have hlow : ofNanos (a.toNanos - step * ((n + 1 : Nat) : Int)) ≤ a := by
        rw [Int.sub_eq_add_neg]
        exact (ofNanos_lt ha (by omega) fun _ => by omega).le
      rw [later_eq_right.2 hle, later_eq_right.2 hlow,
        later_eq_right.2 ((ofNanos_mono (by omega)).trans hle)]
    · rw [later_eq_left (not_le.1 hle).le, toNanos_ofNanos, Int.sub_sub]

/-- Time has passed only from an earlier moment to a later one. -/
theorem lt_of_since_pos (hb : b.IsWhole) (h : 0 < b.since a) : a < b := by
  have hc : perSecond = 1000000000 := rfl
  have hday : secondsPerDay = 86400 := rfl
  unfold IsWhole at hb
  by_contra hnot
  rw [lt_iff] at hnot
  simp only [since, isLeap, decide_eq_true_eq, secondOfDay, hc, hday] at h
  split_ifs at h <;> omega

/-- The last of the counted parts begins above the start. -/
theorem lt_lowest_of_count {p : PartLength} {n : Nat} (ha : a.IsWhole) (hb : b.IsWhole)
    (hlt : a < b) (h : partitionCount? a b p.length = some (n + 1)) :
    a < lowest a p.step n b := by
  have hmin := p.minute_le_step
  have hle := toNanos_le ha hlt
  have ham := toNanos_mod_second ha
  have hbm := toNanos_mod_second hb
  have heq := since_eq a b
  have hc : perSecond = 1000000000 := rfl
  cases n with
  | zero => exact hlt
  | succ n =>
    have hx : p.step * ((n + 1 : Nat) : Int) % 1000000000 = 0 :=
      Int.emod_eq_zero_of_dvd ((Int.dvd_of_emod_eq_zero p.step_mod_second).trans
        (Int.dvd_mul_right ..))
    have hspec : p.step * ((n + 1 : Nat) : Int) < b.since a := by
      have hd : -p.step < b.since a := by split_ifs at heq <;> omega
      have hlast := (count_spec ha hb hd h).2
      rw [show ((n + 1 + 1 : Nat) : Int) = ((n + 1 : Nat) : Int) + 1 by push_cast; rfl,
        Int.mul_add, Int.mul_one] at hlast
      omega
    have above : a < ofNanos (b.toNanos - p.step * ((n + 1 : Nat) : Int)) := by
      refine not_le.1 fun hreach => ?_
      rw [ofNanos_le_iff ha] at hreach
      -- Only a start in second 60 can be met to the nanosecond, and is still before.
      split_ifs at heq with early
      · simp only [early.2, Bool.true_eq_false, and_false, or_false] at hreach
        omega
      all_goals omega
    rw [lowest_eq (by omega) ha.nano_lt, later_eq_left above.le]
    exact above

/-- A bound that is read again is the same or the second that has its count. -/
theorem reread_eq_or (ha : a.IsWhole) :
    a.reread = a ∨ a.isLeap = true ∧ a.reread = ⟨a.sec + 1, 0⟩ := by
  unfold reread
  split_ifs with h
  · have hn : a.nano = 1000000000 := by
      rw [isLeap_iff] at h
      unfold IsWhole at ha
      omega
    exact .inr ⟨h.1, by rw [hn]⟩
  · exact .inl rfl

theorem le_reread (ha : a.IsWhole) : a ≤ a.reread := by
  rcases reread_eq_or ha with h | ⟨-, h⟩
  · exact h.ge
  · rw [h, le_iff]
    dsimp only
    omega

theorem reread_le (ha : a.IsWhole) (hb : b.IsWhole) (hlt : a < b) : a.reread ≤ b := by
  rcases reread_eq_or ha with h | ⟨leap, h⟩
  · rw [h]
    exact hlt.le
  · rw [isLeap_iff] at leap
    unfold IsWhole at ha hb
    rw [lt_iff] at hlt
    rw [h, le_iff]
    dsimp only
    omega

theorem le_ofNanos_toNanos (a : Instant) : a ≤ ofNanos a.toNanos := by
  have hc : perSecond = 1000000000 := rfl
  simp only [le_iff, ofNanos, toNanos, hc]
  omega

theorem nano_reread_lt (h : a.nano < 2000000000) : a.reread.nano < 2000000000 := by
  unfold reread
  split
  · dsimp only
    omega
  · exact h

end Instant

/-- The count of parts does not overflow, as the calendar is too short for that. -/
theorem partitionCount?_isSome {p : PartLength} {a b : Instant} (ha : a.Valid) (hb : b.Valid) :
    ∃ n, partitionCount? a b p.length = some n := by
  have hm : maxInt64 = 9223372036854775807 := rfl
  have hc : Instant.perSecond = 1000000000 := rfl
  have first : Instant.earliest = -8334601228800 := by decide
  have last : Instant.latest = 8210266876800 := by decide
  have hsm := p.stepMillis_eq
  have hday : p.step ≤ 86400000000000 := Int.ofNat_le.2 p.length_le_day
  have hle := Instant.since_le ha hb
  rw [first, last, hc] at hle
  unfold partitionCount?
  dsimp only
  split_ifs with hz hover
  · exact ⟨0, rfl⟩
  · exfalso
    have hpos : 0 ≤ b.since a := by
      by_contra hneg
      have := Int.tdiv_nonneg (a := -b.since a) (b := 1000000) (by omega) (by decide)
      rw [Int.neg_tdiv] at this
      omega
    rw [Int.tdiv_eq_ediv_of_nonneg hpos] at hover
    omega
  · exact ⟨_, rfl⟩

/-- No part of a range is empty. -/
theorem start_lt_stop_of_partitions? {p : PartLength} {a b : Instant} {ps : List Partition}
    (ha : a.IsWhole) (hb : b.IsWhole) (h : partitions? a b p.length = some ps) :
    ∀ q ∈ ps, q.start < q.stop := by
  obtain ⟨n, count, cuts⟩ := Option.bind_eq_some_iff.1 h
  rw [p.step_eq] at cuts
  cases n with
  | zero =>
    cases cuts
    intro q hq
    cases hq
  | succ n =>
    have hlt : a < b := by
      refine Instant.lt_of_since_pos hb ?_
      by_contra hnot
      have hz : (b.since a).tdiv 1000000 ≤ 0 := by
        have := Int.tdiv_nonneg (a := -b.since a) (b := 1000000) (by omega) (by decide)
        rw [Int.neg_tdiv] at this
        omega
      simp only [partitionCount?, hz, true_or, if_true, Option.some.injEq] at count
      omega
    have hstep : 0 < p.step := by have := p.minute_le_step; omega
    exact start_lt_stop_of_cuts? hstep ha.nano_lt hb.nano_lt cuts
      (Instant.lt_lowest_of_count ha hb hlt count)

/-- All windows by which all of the parts are searched. -/
def windowsOver (ps : List Partition) (window : Duration) : Set (Instant × Instant) :=
  {v | ∃ p ∈ ps, ∃ ws, windows? p.start p.stop window = some ws ∧ v ∈ ws}

/-- When the windows of a stored session tile the range that it was stored for:
if there is a window, the bounds were stored as they are, and the parts reach
the start. -/
theorem tiles_iff {p : PartLength} {a b : Instant} {ps : List Partition} {window : Duration}
    (ha : a.IsWhole) (hb : b.IsWhole) (hlt : a < b)
    (count : partitionCount? a b p.length = some ps.length)
    (laidOut : partitions? a.reread b.reread p.length = some ps)
    (hws : ∀ q ∈ ps, ∃ ws, windows? q.start q.stop window = some ws) :
    Tiles (windowsOver ps window) a b ↔
      0 < window.step ∧ a.reread = a ∧ b.reread = b ∧ ¬ Instant.Skips a b p.step := by
  have hstep : 1000000000 ≤ p.step := by have := p.minute_le_step; omega
  obtain ⟨n, -, cuts⟩ := Option.bind_eq_some_iff.1 laidOut
  rw [p.step_eq] at cuts
  obtain rfl := length_of_cuts? cuts
  have hle : a.reread ≤ b.reread := (Instant.reread_le ha hb hlt).trans (Instant.le_reread hb)
  have stack (hw : 0 < window.step) :
      Tiles (windowsOver ps window) (lowest a.reread p.step ps.length b.reread) b.reread := by
    obtain ⟨all, hall, hmem⟩ := cuts?_stack hw (by omega) (Instant.nano_reread_lt ha.nano_lt)
      (Instant.nano_reread_lt hb.nano_lt) hle cuts hws
    have hset : windowsOver ps window = {v | v ∈ all} := Set.ext fun v => (hmem v).symm
    rw [hset]
    exact hall.tiles
  have reaches := Instant.reaches_iff ha hb hlt count
  constructor
  · intro tiles
    obtain ⟨v, ⟨⟨q, hq, ws, hvs, hv⟩, -⟩, -⟩ := tiles.once a le_rfl hlt
    have hw : 0 < window.step := by
      by_contra hnot
      simp only [windows?, hnot, dite_false, Option.some.injEq] at hvs
      rw [← hvs] at hv
      cases hv
    obtain ⟨hlow, htop⟩ := tiles.unique (stack hw) hlt
    cases hn : ps.length with
    | zero =>
      -- Without parts there is nothing above the lowest bound.
      rw [hn] at hlow
      exact absurd (hlow.symm.trans htop) hlt.ne
    | succ n =>
      rw [hn, Instant.lowest_eq hstep (Instant.nano_reread_lt ha.nano_lt), htop] at hlow
      have hkept : a.reread = a :=
        le_antisymm ((Instant.right_le_later _ _).trans_eq hlow) (Instant.le_reread ha)
      refine ⟨hw, hkept, htop, reaches.1 ?_⟩
      rw [hkept] at hlow
      rw [hn]
      exact Instant.later_eq_right.1 hlow
  · rintro ⟨hw, hka, hkb, noSkip⟩
    have tiles := stack hw
    have reach := reaches.2 noSkip
    rw [hka, hkb] at tiles
    cases hn : ps.length with
    | zero =>
      rw [hn, Nat.cast_zero, Int.mul_zero, Int.sub_zero] at reach
      exact absurd ((Instant.le_ofNanos_toNanos b).trans reach) (not_le.2 hlt)
    | succ n =>
      rw [hn] at tiles reach
      have hlow : lowest a p.step (n + 1) b = a := by
        rw [Instant.lowest_eq hstep ha.nano_lt]
        exact Instant.later_eq_right.2 reach
      exact hlow ▸ tiles

end LogExport
