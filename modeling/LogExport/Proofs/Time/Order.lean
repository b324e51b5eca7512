import Mathlib.Order.Defs.LinearOrder
import LogExport.Partition.Cuts
import LogExport.Proofs.Time.StampText

/-! The order of moments, and which way a shift goes in it. Inside a leap second
the order is finer than the count of nanoseconds, in which second 60 and the
second after it are the same. -/

namespace LogExport

namespace Instant

theorem lt_iff {a b : Instant} : a < b ↔ a.sec < b.sec ∨ a.sec = b.sec ∧ a.nano < b.nano := Iff.rfl

theorem le_iff {a b : Instant} :
    a ≤ b ↔ ¬ (b.sec < a.sec ∨ b.sec = a.sec ∧ b.nano < a.nano) := Iff.rfl

instance : LinearOrder Instant where
  le_refl a := by
    rw [le_iff]
    omega
  le_trans a b c hab hbc := by
    rw [le_iff] at *
    omega
  le_antisymm a b hab hba := by
    rw [le_iff] at *
    exact Instant.ext (by omega) (by omega)
  le_total a b := by
    simp only [le_iff]
    omega
  lt_iff_le_not_ge a b := by
    simp only [lt_iff, le_iff]
    omega
  toDecidableLE := inferInstance

theorem later_eq_right {a b : Instant} : later a b = b ↔ a ≤ b := by
  unfold later
  split
  · next h => exact ⟨fun _ => h.le, fun _ => rfl⟩
  · next h => exact ⟨fun he => he.le, fun hle => le_antisymm hle (not_lt.1 h)⟩

theorem later_eq_left {a b : Instant} (h : b ≤ a) : later a b = a := if_neg (not_lt.2 h)

theorem right_le_later (a b : Instant) : b ≤ later a b := by
  unfold later
  split
  · exact le_rfl
  · next h => exact not_lt.1 h

theorem later_le {a b c : Instant} (ha : a ≤ c) (hb : b ≤ c) : later a b ≤ c := by
  unfold later
  split
  · exact hb
  · exact ha

variable {t u : Instant} {span : Int}

theorem ofNanos_mono {m n : Int} (h : m ≤ n) : ofNanos m ≤ ofNanos n := by
  have hc : perSecond = 1000000000 := rfl
  simp only [le_iff, ofNanos, hc]
  omega

theorem ofNanos_lt (ht : t.nano < 2000000000) (h : span < 0)
    (hs : t.isLeap = true → span ≤ -1000000000) : ofNanos (t.toNanos + span) < t := by
  have hc : perSecond = 1000000000 := rfl
  rw [isLeap_iff] at hs
  simp only [lt_iff, ofNanos, toNanos, hc]
  omega

/-- A span back in seconds and what is left. -/
theorem seconds_of_nonpos (h : span ≤ 0) :
    span = 1000000000 * span.tdiv perSecond + span.tmod perSecond ∧ span.tdiv perSecond ≤ 0 ∧
      -1000000000 < span.tmod perSecond ∧ span.tmod perSecond ≤ 0 := by
  have hw := Int.tdiv_nonneg (a := -span) (b := perSecond) (by omega) (by decide)
  have hp := Int.tmod_nonneg (a := -span) perSecond (by omega)
  have hl := Int.tmod_lt_of_pos (-span) (b := perSecond) (by decide)
  rw [Int.neg_tdiv] at hw
  rw [Int.neg_tmod] at hp hl
  have hc : perSecond = 1000000000 := rfl
  refine ⟨?_, by omega, by omega, by omega⟩
  exact (Int.mul_tdiv_add_tmod span perSecond).symm

/-- A span forward in seconds and what is left. -/
theorem seconds_of_nonneg (h : 0 ≤ span) :
    span = 1000000000 * span.tdiv perSecond + span.tmod perSecond ∧ 0 ≤ span.tdiv perSecond ∧
      0 ≤ span.tmod perSecond :=
  ⟨(Int.mul_tdiv_add_tmod span perSecond).symm, Int.tdiv_nonneg h (by decide),
    Int.tmod_nonneg _ h⟩

/-- Going back leads to an earlier moment. -/
theorem shifted_lt (ht : t.nano < 2000000000) (h : span < 0) : t.shifted span < t := by
  obtain ⟨hs, hw, hl, hp⟩ := seconds_of_nonpos h.le
  unfold shifted
  dsimp only
  split_ifs with leap early back
  · omega
  · exact ofNanos_lt ht h fun _ => by omega
  · have hn := (isLeap_iff t).1 leap
    rw [lt_iff]
    dsimp only
    omega
  · exact ofNanos_lt ht h fun hl => absurd hl leap

/-- Going forward leads to a later moment. -/
theorem lt_shifted (ht : t.nano < 2000000000) (h : 0 < span) : t < t.shifted span := by
  have hc : perSecond = 1000000000 := rfl
  obtain ⟨hs, hw, hp⟩ := seconds_of_nonneg h.le
  unfold shifted
  dsimp only
  split_ifs with leap past back
  · have hn := (isLeap_iff t).1 leap
    simp only [lt_iff, ofNanos, toNanos, hc] at *
    omega
  · omega
  · rw [lt_iff]
    dsimp only
    omega
  · rw [isLeap_iff] at leap
    simp only [lt_iff, ofNanos, toNanos, hc]
    omega

theorem shifted_zero (t : Instant) : t.shifted 0 = t := by
  have hc : perSecond = 1000000000 := rfl
  have hz : (0 : Int).tmod perSecond = 0 := rfl
  have hw : (0 : Int).tdiv perSecond = 0 := rfl
  unfold shifted
  simp only [hz, hw, lt_irrefl, false_and, or_self, if_false]
  split_ifs with leap
  · exact Instant.ext rfl (by simp)
  · rw [isLeap_iff] at leap
    refine Instant.ext ?_ ?_ <;> simp only [ofNanos, toNanos, hc] <;> omega

/-- A second or more back, the leap second is left. -/
theorem shifted_of_second_le (h : 1000000000 ≤ span) :
    t.shifted (-span) = ofNanos (t.toNanos - span) := by
  have hneg : -span ≤ 0 := by omega
  obtain ⟨hs, hw, hl, hp⟩ := seconds_of_nonpos hneg
  unfold shifted
  dsimp only
  split_ifs with leap past back
  · omega
  · rfl
  · omega
  · rfl

theorem eq_of_add? (h : t.add? span = some u) : u = t.shifted span := by
  simp only [add?, checked] at h
  split at h
  · cases h
    rfl
  · cases h

theorem sub?_lt (ht : t.nano < 2000000000) (hs : 0 < span) (h : t.sub? span = some u) : u < t :=
  eq_of_add? h ▸ shifted_lt ht (by omega)

theorem sub?_le (ht : t.nano < 2000000000) (hs : 0 ≤ span) (h : t.sub? span = some u) :
    u ≤ t := by
  rcases hs.lt_or_eq with hs | rfl
  · exact (sub?_lt ht hs h).le
  · rw [eq_of_add? h, Int.neg_zero, shifted_zero]

theorem lt_add? (ht : t.nano < 2000000000) (hs : 0 < span) (h : t.add? span = some u) : t < u :=
  eq_of_add? h ▸ lt_shifted ht hs

theorem inRange_ofNanos_iff {n : Int} :
    (ofNanos n).InRange ↔ earliest * perSecond ≤ n ∧ n < latest * perSecond := by
  have hc : perSecond = 1000000000 := rfl
  simp only [InRange, ofNanos, hc]
  omega

/-- Outside of second 60 a moment is its count of nanoseconds. -/
theorem ofNanos_toNanos (leap : t.isLeap = false) : ofNanos t.toNanos = t := by
  rw [← Int.add_zero t.toNanos, ← shifted_eq_ofNanos leap, shifted_zero]

theorem le_iff_toNanos_le (ht : t.isLeap = false) (hu : u.isLeap = false) :
    t ≤ u ↔ t.toNanos ≤ u.toNanos := by
  have hc : perSecond = 1000000000 := rfl
  rw [← Bool.not_eq_true, isLeap_iff] at ht hu
  simp only [le_iff, toNanos, hc]
  omega

theorem add?_eq_some (leap : t.isLeap = false) (range : (ofNanos (t.toNanos + span)).InRange) :
    t.add? span = some (ofNanos (t.toNanos + span)) := by
  rw [add?, shifted_eq_ofNanos leap, checked, if_pos range]

end Instant

end LogExport
