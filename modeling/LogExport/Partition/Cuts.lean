import LogExport.Partition.PartLength

/-! A range of time cut into pieces from its end: the partitions of an export,
and the windows that one partition is searched by. `none` stands for a moment
or a count that leaves its range. -/

namespace LogExport

/-- One piece of an export, the newest having index 0. -/
structure Partition where
  index : Nat
  start : Instant
  stop : Instant
deriving DecidableEq, Repr

/-- The largest 64-bit number, and the longest step in nanoseconds. -/
def maxInt64 : Int := 9223372036854775807

/-- The step of a cut, at most the longest one. -/
def Duration.step (d : Duration) : Int := min d.nanos maxInt64

/-- The low 64 bits as a signed number. -/
def Duration.stepMillis (d : Duration) : Int := Int.bmod d.millis 18446744073709551616

/-- How many steps cover the range, both in whole milliseconds. -/
def partitionCount? (start stop : Instant) (length : Duration) : Option Nat :=
  let span := (stop.since start).tdiv 1000000
  let step := length.stepMillis
  if span ≤ 0 ∨ step ≤ 0 then some 0
  else if maxInt64 < span + step then none
  else some ((span + step - 1) / step).toNat

/-- The next `n` pieces below `upper`, none reaching below `start`. -/
def cuts? (start : Instant) (step : Int) : Nat → Nat → Instant → Option (List Partition)
  | 0, _, _ => some []
  | n + 1, index, upper => do
    let cut ← upper.sub? step
    let lower := cut.later start
    let rest ← cuts? start step n (index + 1) lower
    return ⟨index, lower, upper⟩ :: rest

/-- The pieces of a range, newest first. -/
def partitions? (start stop : Instant) (length : Duration) : Option (List Partition) := do
  let n ← partitionCount? start stop length
  cuts? start length.step n 0 stop

namespace Instant

theorem toNanos_shifted_of_neg (t : Instant) {span : Int} (h : span < 0) :
    (t.shifted span).toNanos = t.toNanos + span := by
  have hw : span.tdiv perSecond ≤ 0 := by
    rw [← Int.neg_neg span, Int.neg_tdiv]
    have := Int.tdiv_nonneg (a := -span) (b := perSecond) (by omega) (by decide)
    omega
  have hp : span.tmod perSecond ≤ 0 := by
    rw [← Int.neg_neg span, Int.neg_tmod]
    have := Int.tmod_nonneg (a := -span) perSecond (by omega)
    omega
  have hs := Int.mul_tdiv_add_tmod span perSecond
  have hc : perSecond = 1000000000 := rfl
  by_cases leap : t.isLeap
  · have hn : 1000000000 ≤ t.nano := of_decide_eq_true leap
    simp only [shifted, leap, if_true]
    rw [if_neg (by omega)]
    by_cases h0 : span.tdiv perSecond < 0
    · rw [if_pos h0]
      exact toNanos_ofNanos _
    · rw [if_neg h0]
      have hz : span.tdiv perSecond = 0 := by omega
      have hl : -1000000000 < span.tmod perSecond := by
        rw [← Int.neg_neg span, Int.neg_tmod]
        have := Int.tmod_lt_of_pos (-span) (b := perSecond) (by decide)
        omega
      rw [hz] at hs
      simp only [toNanos]
      omega
  · rw [shifted_eq_ofNanos (by simpa using leap), toNanos_ofNanos]

theorem toNanos_sub? {t u : Instant} {step : Int} (hs : 0 < step) (h : t.sub? step = some u) :
    u.toNanos = t.toNanos - step := by
  simp only [sub?, add?, checked] at h
  split at h
  · cases h
    rw [toNanos_shifted_of_neg t (by omega)]
    omega
  · cases h

end Instant

/-- The pieces of a range, newest first, until its start is reached. -/
def windowsOf? (start : Instant) (step : Int) (hs : 0 < step) (upper : Instant) :
    Option (List (Instant × Instant)) :=
  match _hu : upper.sub? step with
  | none => none
  | some cut =>
    if _hc : start < cut then
      (windowsOf? start step hs cut).map ((cut, upper) :: ·)
    else some [(start, upper)]
termination_by (upper.toNanos - start.sec * Instant.perSecond).toNat
decreasing_by
  have h1 := Instant.toNanos_sub? hs _hu
  have h2 : start.sec ≤ cut.sec := by
    rcases _hc with h | ⟨h, _⟩ <;> omega
  have h3 : cut.toNanos = cut.sec * Instant.perSecond + cut.nano := rfl
  have h4 : start.sec * Instant.perSecond ≤ cut.sec * Instant.perSecond :=
    Int.mul_le_mul_of_nonneg_right h2 (by decide)
  omega

/-- The windows of a range, none if the range or the window is empty. -/
def windows? (start stop : Instant) (window : Duration) : Option (List (Instant × Instant)) :=
  if h : 0 < window.step then
    if start < stop then windowsOf? start window.step h stop else some []
  else some []

end LogExport
