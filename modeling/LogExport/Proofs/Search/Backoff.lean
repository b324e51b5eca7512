import Mathlib.Tactic.Ring
import LogExport.Proofs.Search.Pacing

/-! How long the pauses after refusals get. Their intervals double up to the longest
one, and a pause is drawn from around its interval, so it can be longer than the
longest interval by half. It is so for some draw exactly when the interval of the
last refusal is more than two thirds of the longest. -/

namespace LogExport

namespace Pacing

variable {p : Pacing} {interval wait : Duration}

/-- A pause is drawn from within half its interval around it, the longest included. -/
theorem near_longest (interval : Duration) : Near interval (longest interval) := by
  unfold Near longest
  dsimp only
  omega

theorem le_longest (h : Near interval wait) : wait.nanos ≤ (longest interval).nanos := by
  unfold Near at h
  unfold longest
  dsimp only
  omega

/-- The intervals double, up to the longest. -/
theorem interval_eq (ordered : p.initialBackoff.nanos ≤ p.maxBackoff.nanos) (i : Nat) :
    (p.interval i).nanos = min (2 ^ i * p.initialBackoff.nanos) p.maxBackoff.nanos := by
  induction i with
  | zero => rw [interval, Nat.pow_zero, Nat.one_mul, Nat.min_eq_left ordered]
  | succ i ih =>
    rw [interval, nextInterval, ih, Nat.pow_succ]
    dsimp only
    have : 2 ^ i * 2 * p.initialBackoff.nanos = 2 * (2 ^ i * p.initialBackoff.nanos) := by ring
    omega

theorem interval_mono (ordered : p.initialBackoff.nanos ≤ p.maxBackoff.nanos) {i j : Nat}
    (h : i ≤ j) : (p.interval i).nanos ≤ (p.interval j).nanos := by
  have := Nat.mul_le_mul_right p.initialBackoff.nanos (Nat.pow_le_pow_right Nat.two_pos h)
  rw [interval_eq ordered, interval_eq ordered]
  omega

/-- The longest interval is reached, unless the first one is empty. -/
theorem exists_interval_eq_max (ordered : p.initialBackoff.nanos ≤ p.maxBackoff.nanos)
    (positive : 0 < p.initialBackoff.nanos) :
    ∃ i, (p.interval i).nanos = p.maxBackoff.nanos := by
  refine ⟨p.maxBackoff.nanos, ?_⟩
  have far : p.maxBackoff.nanos ≤ 2 ^ p.maxBackoff.nanos * p.initialBackoff.nanos :=
    Nat.le_trans (Nat.le_of_lt Nat.lt_two_pow_self) (Nat.le_mul_of_pos_right _ positive)
  rw [interval_eq ordered, Nat.min_eq_right far]

end Pacing

namespace Limiter

variable {α ρ : Type} {p : Pacing} {blank : α} {request : ρ} {k : Nat}

/-- Every pause is drawn from around its interval. -/
def Fair (l : Limiter) : Prop := ∀ k interval, Pacing.Near interval (l.draw k interval)

/-- The limiter that draws the longest pauses. -/
def slowest (p : Pacing) : Limiter := ⟨p, fun _ interval => Pacing.longest interval, fun _ => false⟩

theorem fair_slowest (p : Pacing) : (slowest p).Fair := fun _ => Pacing.near_longest

/-- However the pauses are drawn, those of a call that is refused `k` times at most
are no longer than the longest interval. -/
def KeepsMax (p : Pacing) (blank : α) (request : ρ) (k : Nat) : Prop :=
  ∀ l : Limiter, l.pacing = p → l.Fair → ∀ begun cancelAt chances answers,
    let r := l.call ⟨request, begun, cancelAt⟩ blank chances answers
    r.limited ≤ k → ∀ w ∈ r.waits, w.nanos ≤ p.maxBackoff.nanos

/-- Each pause of a call is drawn from around one of the intervals, as many of them
as there are refusals. -/
theorem exists_interval_of_wait {l : Limiter} (fair : l.Fair) {c : PacedCall ρ} {chances : Nat}
    {answers : List (Answered α)} {w : Duration}
    (h : w ∈ (l.call c blank chances answers).waits) :
    ∃ i < (l.call c blank chances answers).limited, Pacing.Near (l.pacing.interval i) w := by
  rw [call, search_waits, List.mem_map] at h
  obtain ⟨i, hi, rfl⟩ := h
  refine ⟨i, List.mem_range.1 hi, ?_⟩
  rw [interval_eq_iterate]
  exact fair _ _

/-- Refused again and again, a call that is not cancelled makes all the pauses. -/
theorem waits_of_refusals (l : Limiter) (blank : α) (request : ρ) (begun : Duration)
    (chances : Nat) {refusals : List (Answered α)} {last : Answered α}
    (refused : ∀ a ∈ refusals, a.IsRefusal) (settled : ¬ last.IsRefusal) :
    let r := l.call ⟨request, begun, none⟩ blank chances (refusals ++ [last])
    r.limited = refusals.length ∧
      r.waits = (List.range refusals.length).map fun i =>
        l.draw (chances + i) (l.pacing.interval i) := by
  have done : l.Completes ⟨request, begun, none⟩ (l.fresh begun chances) (refusals ++ [last])
      refusals.length last
      (l.search ⟨request, begun, none⟩ blank (l.fresh begun chances) (refusals ++ [last])) :=
    completes_of_uncut refused settled fun _ _ _ _ => rfl
  refine ⟨done.limited, search_waits.trans ?_⟩
  rw [done.limited]
  simp only [interval_eq_iterate]
  rfl

/-- A service that refuses every time but the last. -/
theorem exists_refusals (page : α) (k : Nat) :
    ∃ (refusals : List (Answered α)) (last : Answered α), refusals.length = k ∧
      (∀ a ∈ refusals, a.IsRefusal) ∧ ¬ last.IsRefusal := by
  refine ⟨List.replicate k ⟨.error (.rateExceeded ""), ⟨0⟩⟩, ⟨.ok page, ⟨0⟩⟩,
    List.length_replicate, fun a ha => ?_, ?_⟩
  · rw [List.eq_of_mem_replicate ha]
    exact ⟨_, rfl⟩
  · rintro ⟨text, h⟩
    cases h

/-- The longest interval is kept for `k + 1` refusals exactly if the last of their
intervals, and half of it, does not exceed it. -/
theorem keepsMax_succ_iff (ordered : p.initialBackoff.nanos ≤ p.maxBackoff.nanos) :
    KeepsMax p blank request (k + 1) ↔
      (Pacing.longest (p.interval k)).nanos ≤ p.maxBackoff.nanos := by
  constructor
  · intro keeps
    obtain ⟨refusals, last, length, refused, settled⟩ := exists_refusals blank (k + 1)
    obtain ⟨limited, waits⟩ := waits_of_refusals (slowest p) blank request ⟨0⟩ 0 refused settled
    refine keeps (slowest p) rfl (fair_slowest p) _ _ _ _ (limited.trans length).le _ ?_
    rw [waits, length]
    exact List.mem_map.2 ⟨k, List.mem_range.2 k.lt_succ_self, rfl⟩
  · rintro fits l rfl fair begun cancelAt chances answers r most w hw
    obtain ⟨i, hi, near⟩ := exists_interval_of_wait fair hw
    have hle := Pacing.le_longest near
    have mono := Pacing.interval_mono ordered (Nat.le_of_lt_succ (hi.trans_le most))
    unfold Pacing.longest at hle fits
    dsimp only at hle fits
    omega

theorem keepsMax_zero : KeepsMax p blank request 0 := by
  rintro l rfl fair begun cancelAt chances answers r most w hw
  obtain ⟨i, hi, -⟩ := exists_interval_of_wait fair hw
  exact absurd (hi.trans_le most) i.not_lt_zero

/-- How far pauses respect the longest interval. Let the first interval be no longer.
(a) The intervals double up to the longest one.
(b) However pauses are drawn, and however often a call is refused, none of its
pauses is longer than the longest interval by more than half.
(c) In a call that is refused `k` times at most, all of them are no longer than the
longest interval exactly if `k` is zero or interval `k - 1` and half of it is not.
(d) In every call they are so exactly if the first interval is empty or the longest
one is no longer than a nanosecond. -/
theorem pauses_within_max_iff (p : Pacing) (blank : α) (request : ρ)
    (ordered : p.initialBackoff.nanos ≤ p.maxBackoff.nanos) :
    (∀ i, (p.interval i).nanos = min (2 ^ i * p.initialBackoff.nanos) p.maxBackoff.nanos) ∧
    (∀ l : Limiter, l.pacing = p → l.Fair → ∀ (c : PacedCall ρ) chances answers,
      ∀ w ∈ (l.call c blank chances answers).waits,
        2 * w.nanos ≤ 3 * p.maxBackoff.nanos) ∧
    (∀ k, KeepsMax p blank request k ↔ k = 0 ∨
      3 * min (2 ^ (k - 1) * p.initialBackoff.nanos) p.maxBackoff.nanos / 2 ≤
        p.maxBackoff.nanos) ∧
    ((∀ k, KeepsMax p blank request k) ↔
      p.initialBackoff.nanos = 0 ∨ p.maxBackoff.nanos ≤ 1) := by
  have intervals := Pacing.interval_eq ordered
  refine ⟨intervals, ?bound, ?exact, ?always⟩
  case bound =>
    rintro l rfl fair c chances answers w hw
    obtain ⟨i, -, near⟩ := exists_interval_of_wait fair hw
    have capped : (l.pacing.interval i).nanos ≤ l.pacing.maxBackoff.nanos :=
      intervals i ▸ Nat.min_le_right _ _
    unfold Pacing.Near at near
    omega
  case exact =>
    rintro (_ | k)
    · exact iff_of_true keepsMax_zero (.inl rfl)
    · rw [keepsMax_succ_iff ordered, Pacing.longest, intervals, Nat.add_sub_cancel]
      exact (or_iff_right k.succ_ne_zero).symm
  case always =>
    constructor
    · intro always
      by_contra! h
      obtain ⟨i, reached⟩ := Pacing.exists_interval_eq_max ordered (Nat.pos_of_ne_zero h.1)
      have fits := (keepsMax_succ_iff ordered).1 (always (i + 1))
      rw [Pacing.longest, reached] at fits
      dsimp only at fits
      omega
    · rintro h (_ | k)
      · exact keepsMax_zero
      · rw [keepsMax_succ_iff ordered, Pacing.longest, intervals]
        dsimp only
        rcases h with h | h
        · rw [h]
          omega
        · omega

/-- Unless told otherwise, pauses double from half a second to thirty seconds. Six
refusals keep them within that. The seventh can be followed by a pause of 45 seconds. -/
theorem pauses_within_max_iff_default :
    let p := ({} : SearchSettings).pacing
    KeepsMax p "" "logs" 6 ∧ ¬ KeepsMax p "" "logs" 7 ∧
      (Pacing.longest (p.interval 6)).secs = 45 := by
  obtain ⟨intervals, -, exact, -⟩ :=
    pauses_within_max_iff ({} : SearchSettings).pacing "" "logs" (by decide)
  refine ⟨(exact 6).2 (by decide), fun h => absurd ((exact 7).1 h) (by decide), ?_⟩
  rw [Pacing.longest, intervals]
  decide

end Limiter

end LogExport
