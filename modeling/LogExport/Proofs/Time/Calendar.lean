import Mathlib.Tactic.IntervalCases
import LogExport.Time.Date

/-! The calendar counts every day once. Day `c` of a cycle of 400 years lies in
a century, in four years of it, in one of these years, and is day `d` of that
year, counted from March. From this come the year that `Date.ofDays` finds,
that the date exists, and that `Date.toDays` leads back to the day. -/

namespace LogExport

namespace Date

/-- Day `c` of a cycle is day `d` of year `s` of four years `q` of century `k`.
Only a leap year has a last day 365. -/
structure InCycle (c k q s d : Int) : Prop where
  century : 0 ≤ k ∧ k ≤ 3
  four : 0 ≤ q ∧ q ≤ 24
  year : 0 ≤ s ∧ s ≤ 3
  day : 0 ≤ d ∧ d ≤ 365
  sum : c = 36524 * k + 1461 * q + 365 * s + d
  leap : d = 365 → s = 3 ∧ (q = 24 → k = 3)

theorem exists_inCycle {c : Int} (h0 : 0 ≤ c) (h1 : c < 146097) : ∃ k q s d, InCycle c k q s d := by
  obtain ⟨k, e, hk⟩ : ∃ k e : Int, 0 ≤ k ∧ k ≤ 3 ∧ 0 ≤ e ∧ c = 36524 * k + e ∧
      (e ≤ 36523 ∨ k = 3 ∧ e = 36524) := by
    by_cases h : c = 146096
    · exact ⟨3, 36524, by omega⟩
    · exact ⟨c / 36524, c % 36524, by omega⟩
  obtain ⟨s, d, hs⟩ : ∃ s d : Int, 0 ≤ s ∧ s ≤ 3 ∧ 0 ≤ d ∧ e % 1461 = 365 * s + d ∧
      (d ≤ 364 ∨ s = 3 ∧ d = 365) := by
    by_cases h : e % 1461 = 1460
    · exact ⟨3, 365, by omega⟩
    · exact ⟨e % 1461 / 365, e % 1461 % 365, by omega⟩
  exact ⟨k, e / 1461, s, d, by omega, by omega, by omega, by omega, by omega, by omega⟩

/-- The year of a cycle in which a day lies. -/
def yearOfCycle (c : Int) : Int := (c - c / 1460 + c / 36524 - c / 146096) / 365

/-- The days of a cycle before a year of it. -/
def daysBefore (y : Int) : Int := 365 * y + y / 4 - y / 100

theorem yearOfCycle_eq {c k q s d : Int} (h : InCycle c k q s d) :
    yearOfCycle c = 100 * k + 4 * q + s := by
  obtain ⟨⟨hk0, hk1⟩, hq, hs, hd, hc, hl⟩ := h
  have h1 : c / 36524 = if c = 146096 then 4 else k := by split <;> omega
  have h2 : c / 146096 = if c = 146096 then 1 else 0 := by split <;> omega
  rw [yearOfCycle, h1, h2]
  split
  · omega
  · have h3 : c / 1460 = 25 * k + q + (24 * k + q + 365 * s + d) / 1460 := by omega
    rw [h3]
    interval_cases k <;> omega

theorem yearOfCycle_bounds {c : Int} (h0 : 0 ≤ c) (h1 : c < 146097) :
    0 ≤ yearOfCycle c ∧ yearOfCycle c < 400 := by
  obtain ⟨k, q, s, d, h⟩ := exists_inCycle h0 h1
  rw [yearOfCycle_eq h]
  have := h.century
  have := h.four
  have := h.year
  omega

/-- The day of its year lies in the year, and day 365 only in a leap year. -/
theorem dayOfYear_bounds {c : Int} (h0 : 0 ≤ c) (h1 : c < 146097) :
    0 ≤ c - daysBefore (yearOfCycle c) ∧ c - daysBefore (yearOfCycle c) ≤ 365 ∧
      (c - daysBefore (yearOfCycle c) = 365 → (yearOfCycle c + 1) % 4 = 0 ∧
        ((yearOfCycle c + 1) % 100 ≠ 0 ∨ (yearOfCycle c + 1) % 400 = 0)) := by
  obtain ⟨k, q, s, d, h⟩ := exists_inCycle h0 h1
  have hy := yearOfCycle_eq h
  obtain ⟨⟨hk0, hk1⟩, hq, hs, hd, hc, hl⟩ := h
  have hb : daysBefore (yearOfCycle c) = 36524 * k + 1461 * q + 365 * s := by
    have h4 : (100 * k + 4 * q + s) / 4 = 25 * k + q := by omega
    have h100 : (100 * k + 4 * q + s) / 100 = k := by omega
    rw [hy, daysBefore, h4, h100]
    omega
  rw [hb, hy]
  refine ⟨by omega, by omega, fun he => ?_⟩
  obtain ⟨hs3, hqk⟩ := hl (by omega)
  omega

/-- What `ofDays` computes, with its cycle, year and day of the year named. -/
theorem ofDays_eq (n : Int) : ∃ (era y : Int) (doy m : Nat),
    0 ≤ y ∧ y < 400 ∧ doy ≤ 365 ∧ m = (5 * doy + 2) / 153 ∧
    n + 719468 = era * 146097 + daysBefore y + doy ∧
    (doy = 365 → (y + 1) % 4 = 0 ∧ ((y + 1) % 100 ≠ 0 ∨ (y + 1) % 400 = 0)) ∧
    ofDays n = ⟨y + era * 400 + (if (if m < 10 then m + 3 else m - 9) ≤ 2 then 1 else 0),
      if m < 10 then m + 3 else m - 9, doy - (153 * m + 2) / 5 + 1⟩ := by
  set era := (n + 719468).fdiv 146097 with hera
  set c := n + 719468 - era * 146097 with hc
  have hdiv : era = (n + 719468) / 146097 := by
    rw [hera, Int.fdiv_eq_ediv_of_nonneg _ (by decide)]
  have h0 : 0 ≤ c := by omega
  have h1 : c < 146097 := by omega
  have hy := yearOfCycle_bounds h0 h1
  obtain ⟨hd0, hd1, hl⟩ := dayOfYear_bounds h0 h1
  refine ⟨era, yearOfCycle c, (c - daysBefore (yearOfCycle c)).toNat, _, hy.1, hy.2, by omega, rfl,
    by omega, fun h => hl (by omega), ?_⟩
  rfl

theorem isLeapYear_add (y era : Int) : isLeapYear (y + era * 400) = isLeapYear y := by
  simp only [isLeapYear]
  congr 2 <;> grind

theorem isValid_ofDays (n : Int) : (ofDays n).isValid = true := by
  obtain ⟨era, y, doy, m, hy0, hy1, hd, hm, -, hl, h⟩ := ofDays_eq n
  rw [h]
  have hm11 : m ≤ 11 := by omega
  have hday : ∀ Y : Int, daysInMonth Y 2 = if isLeapYear Y then 29 else 28 := fun Y => by
    simp [daysInMonth]
  interval_cases m
  all_goals simp only [isValid, decide_eq_true_eq]
  case «11» =>
    -- February, whose last day is day 365 of the year that began in March
    refine ⟨by decide, by decide, by omega, ?_⟩
    rw [show (if (11 : Nat) < 10 then 11 + 3 else 11 - 9) = 2 from rfl, hday]
    rw [show y + era * 400 + (if (2 : Nat) ≤ 2 then 1 else 0) = y + 1 + era * 400 by simp; omega,
      isLeapYear_add]
    split
    · omega
    · next hn =>
      have : doy ≠ 365 := fun he => hn (by
        obtain ⟨h4, h100⟩ := hl he
        simp only [isLeapYear, Bool.and_eq_true, Bool.or_eq_true, beq_iff_eq, bne_iff_ne]
        exact ⟨h4, h100⟩)
      omega
  all_goals
    simp only [daysInMonth]
    refine ⟨by decide, by decide, by omega, ?_⟩
    norm_num
    omega

theorem toDays_ofDays (n : Int) : (ofDays n).toDays = n := by
  obtain ⟨era, y, doy, m, hy0, hy1, hd, hm, hn, -, h⟩ := ofDays_eq n
  rw [h]
  have hm11 : m ≤ 11 := by omega
  have hcycle : (y + era * 400).fdiv 400 = era := by
    rw [Int.fdiv_eq_ediv_of_nonneg _ (by decide)]
    omega
  have hmonth : (if (if m < 10 then m + 3 else m - 9) ≤ 2 then
      (if m < 10 then m + 3 else m - 9) + 9 else (if m < 10 then m + 3 else m - 9) - 3) = m := by
    split <;> split <;> omega
  have hyear : ∀ p : Prop, ∀ _ : Decidable p,
      (if p then y + era * 400 + (if p then 1 else 0) - 1
        else y + era * 400 + (if p then 1 else 0)) = y + era * 400 := by
    intro p _
    split <;> omega
  have hday : ((((153 * m + 2) / 5 + (doy - (153 * m + 2) / 5 + 1) : Nat) : Int)) - 1 = doy := by
    omega
  simp only [toDays]
  rw [hyear, hcycle, hmonth, hday]
  simp only [daysBefore] at hn
  omega

end Date

end LogExport
