import Mathlib.Data.Rat.Floor
import Mathlib.Tactic.Ring
import LogExport.Proofs.Partition.Rounding

/-! Ranges outside of second 60, cut by a step of any length. The pieces hang from
the end of the range, one step below the other, and only the last is clipped at the
start. Both loops come to these pieces, the one that is driven by a count and the one
that goes on until the start is reached, so partitions and windows tile their range. -/

namespace LogExport

namespace Instant

variable {t u : Instant} {span : Int}

/-- A moment of the calendar that is not in second 60. -/
structure Plain (t : Instant) : Prop where
  inRange : t.InRange
  leap : t.isLeap = false

/-- The moment that far back. -/
def back (t : Instant) (span : Int) : Instant := t.shifted (-span)

namespace Plain

theorem nano_lt (h : t.Plain) : t.nano < 1000000000 := by
  have leap := h.leap
  rw [← Bool.not_eq_true, isLeap_iff] at leap
  omega

theorem valid (h : t.Plain) : t.Valid := ⟨h.inRange, h.nano_lt.trans (by decide)⟩

theorem le_iff (ht : t.Plain) (hu : u.Plain) : t ≤ u ↔ t.toNanos ≤ u.toNanos :=
  le_iff_toNanos_le ht.leap hu.leap

theorem lt_iff (ht : t.Plain) (hu : u.Plain) : t < u ↔ t.toNanos < u.toNanos := by
  rw [← not_le, hu.le_iff ht, not_le]

theorem since_eq (ht : t.Plain) (hu : u.Plain) : t.since u = t.toNanos - u.toNanos :=
  since_eq_sub ht.leap hu.leap

theorem back_eq (h : t.Plain) (span : Int) : t.back span = ofNanos (t.toNanos - span) :=
  shifted_eq_ofNanos h.leap _

theorem toNanos_back (h : t.Plain) (span : Int) : (t.back span).toNanos = t.toNanos - span := by
  rw [h.back_eq, toNanos_ofNanos]

theorem back_zero (h : t.Plain) : t.back 0 = t := by
  rw [h.back_eq, Int.sub_zero, ofNanos_toNanos h.leap]

theorem back_back (h : t.Plain) (a b : Int) : (t.back a).back b = t.back (a + b) := by
  rw [back, shifted_eq_ofNanos (by rw [h.back_eq, isLeap_ofNanos]), h.toNanos_back, h.back_eq,
    ← Int.sub_eq_add_neg, Int.sub_sub]

/-- Going back from a moment leads to another one, unless it leaves the calendar. -/
theorem back_plain (h : t.Plain) (hs : 0 ≤ span)
    (room : earliest * perSecond ≤ t.toNanos - span) : (t.back span).Plain := by
  refine ⟨?_, by rw [h.back_eq, isLeap_ofNanos]⟩
  have last := h.inRange.2
  have field := h.nano_lt
  have hc : perSecond = 1000000000 := rfl
  rw [h.back_eq, inRange_ofNanos_iff]
  simp only [toNanos, hc] at room ⊢
  omega

theorem sub?_eq (h : t.Plain) (hs : 0 ≤ span)
    (room : earliest * perSecond ≤ t.toNanos - span) : t.sub? span = some (t.back span) :=
  if_pos (h.back_plain hs room).inRange

theorem room_of_sub? (h : t.Plain) (hs : 0 ≤ span) (sub : t.sub? span = some u) :
    earliest * perSecond ≤ t.toNanos - span := by
  by_contra hlt
  rw [(sub?_eq_none_iff h.valid hs).2 (by omega)] at sub
  cases sub

theorem later (ht : t.Plain) (hu : u.Plain) : (t.later u).Plain := by
  unfold Instant.later
  split
  · exact hu
  · exact ht

end Plain

end Instant

open Instant

/-- A range outside of second 60, with room for a step below it. -/
structure Cuttable (start stop : Instant) (step : Int) : Prop where
  first : start.Plain
  last : stop.Plain
  step_pos : 0 < step
  ordered : start ≤ stop
  room : earliest * perSecond ≤ start.toNanos - step

/-- So many steps cover a range, and one less does not. -/
structure Covers (start stop : Instant) (step : Int) (n : Nat) : Prop where
  enough : stop.toNanos - start.toNanos ≤ step * n
  tight : step * n < stop.toNanos - start.toNanos + step

/-- The piece of a range with `i` whole steps above it, clipped at the start. -/
def slice (start stop : Instant) (step : Int) (i : Nat) : Instant × Instant :=
  ((stop.back (step * (i + 1))).later start, stop.back (step * i))

/-- The `n` topmost pieces of a range. -/
def slices (start stop : Instant) (step : Int) (n : Nat) : List (Instant × Instant) :=
  (List.range n).map (slice start stop step)

variable {start stop : Instant} {step : Int} {n : Nat}

namespace Cuttable

/-- A step back from the end, or further, as long as it is not a step beyond the start. -/
theorem back_plain (h : Cuttable start stop step) {span : Int} (hs : 0 ≤ span)
    (near : span ≤ stop.toNanos - start.toNanos + step) : (stop.back span).Plain :=
  h.last.back_plain hs (by have := h.room; omega)

theorem le_toNanos (h : Cuttable start stop step) : start.toNanos ≤ stop.toNanos :=
  (h.first.le_iff h.last).1 h.ordered

theorem cut_plain (h : Cuttable start stop step) : (stop.back step).Plain :=
  h.back_plain h.step_pos.le (by have := h.le_toNanos; omega)

theorem sub?_eq (h : Cuttable start stop step) : stop.sub? step = some (stop.back step) :=
  if_pos h.cut_plain.inRange

/-- What lies below the topmost piece. -/
theorem below (h : Cuttable start stop step) (above : start ≤ stop.back step) :
    Cuttable start (stop.back step) step :=
  { h with last := h.cut_plain, ordered := above }

end Cuttable

namespace Covers

theorem succ_iff (hb : stop.Plain) :
    Covers start stop step (n + 1) ↔ Covers start (stop.back step) step n := by
  have count : step * ((n + 1 : Nat) : Int) = step * n + step := by
    push_cast
    ring
  constructor
  · rintro ⟨enough, tight⟩
    constructor <;> rw [hb.toNanos_back] <;> omega
  · rintro ⟨enough, tight⟩
    rw [hb.toNanos_back] at enough tight
    constructor <;> omega

/-- The topmost piece is the last one, or others lie below it. -/
theorem last_or (covers : Covers start stop step (n + 1)) (h : Cuttable start stop step) :
    n = 0 ∧ stop.back step ≤ start ∨
      start < stop.back step ∧ Cuttable start (stop.back step) step ∧
        Covers start (stop.back step) step n := by
  have inner := (succ_iff h.last).1 covers
  rcases lt_or_ge start (stop.back step) with above | reached
  · exact .inr ⟨above, h.below above.le, inner⟩
  · refine .inl ⟨?_, reached⟩
    by_contra hn
    have one := Int.mul_le_mul_of_nonneg_left (show (1 : Int) ≤ n by omega) h.step_pos.le
    have tight := inner.tight
    rw [h.cut_plain.le_iff h.first] at reached
    omega

/-- The count is the quotient, rounded up. -/
theorem eq_ceil (covers : Covers start stop step n) (h : Cuttable start stop step) :
    (n : Int) = ⌈(stop.since start : ℚ) / step⌉ := by
  have hs : (0 : ℚ) < step := by exact_mod_cast h.step_pos
  obtain ⟨enough, tight⟩ := covers
  rw [eq_comm, Int.ceil_eq_iff, lt_div_iff₀ hs, div_le_iff₀ hs, h.last.since_eq h.first]
  constructor
  · have : ((n : Int) - 1) * step < stop.toNanos - start.toNanos := by
      rw [Int.sub_mul, Int.mul_comm]
      omega
    exact_mod_cast this
  · rw [Int.mul_comm] at enough
    exact_mod_cast enough

end Covers

/-! ### Pieces -/

theorem length_slices : (slices start stop step n).length = n := by
  rw [slices, List.length_map, List.length_range]

theorem getElem?_slices {i : Nat} {w : Instant × Instant} :
    (slices start stop step n)[i]? = some w ↔ i < n ∧ slice start stop step i = w := by
  simp [slices, List.getElem?_eq_some_iff]

/-- Below the topmost piece lie those of the range without it. -/
theorem slices_succ (hb : stop.Plain) :
    slices start stop step (n + 1) =
      ((stop.back step).later start, stop) :: slices start (stop.back step) step n := by
  have below (i : Nat) : slice start stop step (i + 1) = slice start (stop.back step) step i := by
    simp only [slice, hb.back_back]
    congr 3 <;> push_cast <;> ring
  have top : slice start stop step 0 = ((stop.back step).later start, stop) := by
    simp only [slice, Nat.cast_zero, Int.zero_add, Int.mul_one, Int.mul_zero, hb.back_zero]
  simp only [slices, List.range_succ_eq_map, List.map_cons, List.map_map, top]
  exact congrArg _ (List.map_congr_left fun i _ => below i)

/-- The pieces lie one below the other, and leave nothing out. -/
theorem slices_stack (h : Cuttable start stop step) (hlt : start < stop)
    (covers : Covers start stop step n) : Stack stop (slices start stop step n) start := by
  induction n generalizing stop with
  | zero =>
    have enough := covers.enough
    rw [h.first.lt_iff h.last] at hlt
    rw [Nat.cast_zero, Int.mul_zero] at enough
    omega
  | succ n ih =>
    rw [slices_succ h.last]
    rcases covers.last_or h with ⟨rfl, reached⟩ | ⟨above, inner, covers⟩
    · rw [later_eq_right.2 reached]
      exact .cons hlt (.nil start)
    · rw [later_eq_left above.le]
      exact .cons (shifted_lt h.last.valid.2 (by have := h.step_pos; omega))
        (ih inner above covers)

/-- No piece is longer than the step, and only the last can be shorter. -/
theorem since_slice (h : Cuttable start stop step) (covers : Covers start stop step n) {i : Nat}
    (hi : i < n) :
    (slice start stop step i).2.since (slice start stop step i).1 ≤ step ∧
      (i + 1 < n → (slice start stop step i).2.since (slice start stop step i).1 = step) := by
  have hs := h.step_pos
  have tight := covers.tight
  have hpos : 0 ≤ step * i := Int.mul_nonneg hs.le (by omega)
  have hsucc : step * ((i : Int) + 1) = step * i + step := by ring
  have hle := Int.mul_le_mul_of_nonneg_left (show (i : Int) + 1 ≤ n by omega) hs.le
  have upper := h.back_plain hpos (by omega)
  have lower : (stop.back (step * (i + 1))).Plain := h.back_plain (by omega) (by omega)
  simp only [slice]
  rw [upper.since_eq (lower.later h.first), h.last.toNanos_back]
  unfold Instant.later
  split
  · next clip =>
    rw [lower.lt_iff h.first, h.last.toNanos_back] at clip
    refine ⟨by omega, fun inner => ?_⟩
    have := Int.mul_le_mul_of_nonneg_left (show (i : Int) + 1 + 1 ≤ n by omega) hs.le
    rw [Int.mul_add, Int.mul_one] at this
    omega
  · rw [h.last.toNanos_back]
    exact ⟨by omega, fun _ => by omega⟩

/-! ### The two loops -/

/-- The loop that is driven by a count. -/
theorem cuts?_eq (h : Cuttable start stop step) (covers : Covers start stop step n) (index : Nat) :
    cuts? start step n index stop =
      some ((slices start stop step n).mapIdx fun i w => ⟨index + i, w.1, w.2⟩) := by
  induction n generalizing stop index with
  | zero => rfl
  | succ n ih =>
    simp only [slices_succ h.last, List.mapIdx_cons, cuts?, h.sub?_eq, bind, Option.bind_some]
    rcases covers.last_or h with ⟨rfl, -⟩ | ⟨above, inner, covers⟩
    · rfl
    · rw [later_eq_left above.le, ih inner covers]
      simp only [Option.bind_some, Nat.add_zero, Nat.add_assoc, Nat.add_comm 1, pure]

/-- Partitions that lie one below the other have every moment of the range once. -/
theorem covered_once {length : Duration} {ps : List Partition} {t : Instant}
    (ha : start.nano < 2000000000) (hb : stop.nano < 2000000000)
    (h : partitions? start stop length = some ps)
    (stack : Stack stop (ps.map fun p => (p.start, p.stop)) start) (above : start ≤ t)
    (below : t < stop) : ∃! p, p ∈ ps ∧ p.start ≤ t ∧ t < p.stop := by
  have bounds {p : Partition} (hp : p ∈ ps) :
      (p.start, p.stop) ∈ ps.map fun p => (p.start, p.stop) := List.mem_map_of_mem hp
  have filled : ∀ p ∈ ps, p.start < p.stop := fun p hp => (stack.inside _ (bounds hp)).2.1
  obtain ⟨w, ⟨hw, hin⟩, only⟩ := stack.tiles.once t above below
  obtain ⟨p, hp, rfl⟩ := List.mem_map.1 hw
  refine ⟨p, ⟨hp, hin⟩, fun q ⟨hq, hin'⟩ => ?_⟩
  have same := only _ ⟨bounds hq, hin'⟩
  exact Partition.eq_of_bounds (newest_first_of_partitions? ha hb h) filled hq hp
    (congrArg Prod.fst same) (congrArg Prod.snd same)

/-- The loop that goes on until the start is reached. -/
theorem windowsOf?_eq (hs : 0 < step) (h : Cuttable start stop step) (hlt : start < stop) :
    ∃ n, Covers start stop step n ∧
      windowsOf? start step hs stop = some (slices start stop step n) := by
  fun_induction windowsOf? start step hs stop with
  | case1 upper hsub =>
    rw [h.sub?_eq] at hsub
    cases hsub
  | case2 upper cut hsub above ih =>
    obtain rfl := Option.some.inj (h.sub?_eq.symm.trans hsub)
    -- Whole steps are taken as long as the cut lies above the start.
    obtain ⟨n, covers, laidOut⟩ := ih (h.below above.le) above
    refine ⟨n + 1, (Covers.succ_iff h.last).2 covers, ?_⟩
    rw [slices_succ h.last, later_eq_left above.le, laidOut]
    rfl
  | case3 upper cut hsub reached =>
    obtain rfl := Option.some.inj (h.sub?_eq.symm.trans hsub)
    have clip := not_lt.1 reached
    refine ⟨1, ?_, by rw [slices_succ h.last, later_eq_right.2 clip]; rfl⟩
    rw [h.first.lt_iff h.last] at hlt
    rw [h.cut_plain.le_iff h.first, h.last.toNanos_back] at clip
    constructor <;> omega

/-- The count of partitions, for a range and a length of whole milliseconds. -/
theorem partitionCount?_covers {length : Duration} (h : Cuttable start stop length.nanos)
    (hlt : start < stop) (span : 1000000 ∣ stop.since start) (millis : 1000000 ∣ length.nanos)
    (short : length.nanos ≤ maxInt64) :
    ∃ n, partitionCount? start stop length = some n ∧ Covers start stop length.nanos n := by
  have hm : maxInt64 = 9223372036854775807 := rfl
  have hc : perSecond = 1000000000 := rfl
  have first : earliest = -8334601228800 := by decide
  have last : latest = 8210266876800 := by decide
  have hstep := Duration.stepMillis_eq short millis
  have hle := since_le h.first.valid h.last.valid
  have hpos := h.step_pos
  rw [h.first.lt_iff h.last] at hlt
  rw [first, last, hc] at hle
  have hd := h.last.since_eq h.first
  -- Range and length are whole milliseconds, so nothing is lost by counting in them.
  obtain ⟨m, hspan⟩ := span
  have hwhole : (stop.since start).tdiv 1000000 = m := by
    rw [hspan, Int.mul_tdiv_cancel_left _ (by decide)]
  unfold partitionCount?
  simp only [hwhole]
  generalize length.stepMillis = k at hstep ⊢
  obtain ⟨enough, tight⟩ := le_mul_div_up (d := m) (m := k) (by omega)
  have hq : 0 ≤ (m + k - 1) / k := Int.ediv_nonneg (by omega) (by omega)
  rw [if_neg (by omega), if_neg (by omega)]
  refine ⟨_, rfl, ?_, ?_⟩ <;> rw [Int.toNat_of_nonneg hq, ← hstep, Int.mul_assoc] <;> omega

theorem windows?_of_le {window : Duration} (hle : stop ≤ start) :
    windows? start stop window = some [] := by
  unfold windows?
  split_ifs with hw hlt
  · exact absurd hlt (not_lt.2 hle)
  · rfl
  · rfl

/-- The windows of a range that is not empty. -/
theorem windows?_eq {window : Duration} (h : Cuttable start stop window.step)
    (hlt : start < stop) :
    ∃ n, Covers start stop window.step n ∧
      windows? start stop window = some (slices start stop window.step n) := by
  unfold windows?
  rw [dif_pos h.step_pos, if_pos hlt]
  exact windowsOf?_eq h.step_pos h hlt

/-! ### Both loops tile -/

/-- Partitions tile their range. There are as many as parts fit into the range, the
last one begun, and partition `i` has `i` whole parts above it. -/
theorem partitions_tile {length : Duration} (first : start.Plain) (last : stop.Plain)
    (hlt : start < stop) (span : 1000000 ∣ stop.since start) (positive : 0 < length.nanos)
    (millis : 1000000 ∣ length.nanos) (short : length.nanos ≤ maxInt64)
    (room : ∃ u, start.sub? length.nanos = some u) :
    ∃ ps, partitions? start stop length = some ps ∧
      partitionCount? start stop length = some ps.length ∧
      (ps.length : Int) = ⌈(stop.since start : ℚ) / length.nanos⌉ ∧
      (∀ (i : Nat) (p : Partition), ps[i]? = some p →
        p = ⟨i, (stop.back (length.nanos * (i + 1))).later start, stop.back (length.nanos * i)⟩ ∧
          (i + 1 < ps.length → p.stop.since p.start = length.nanos)) ∧
      Stack stop (ps.map fun p => (p.start, p.stop)) start ∧
      ∀ t, start ≤ t → t < stop → ∃! p, p ∈ ps ∧ p.start ≤ t ∧ t < p.stop := by
  obtain ⟨u, hu⟩ := room
  have hpos : (0 : Int) < length.nanos := by omega
  have h : Cuttable start stop length.nanos :=
    ⟨first, last, hpos, hlt.le, first.room_of_sub? hpos.le hu⟩
  obtain ⟨n, count, covers⟩ := partitionCount?_covers h hlt span millis short
  have laidOut := cuts?_eq h covers 0
  set ps := (slices start stop length.nanos n).mapIdx fun i w => Partition.mk (0 + i) w.1 w.2
    with hps
  have parts : partitions? start stop length = some ps := by
    simp only [partitions?, count, bind, Option.bind_some, Duration.step_eq short, laidOut]
  have hlen : ps.length = n := length_of_cuts? laidOut
  have bounds : ps.map (fun p => (p.start, p.stop)) = slices start stop length.nanos n := by
    refine List.ext_getElem? fun i => ?_
    rw [hps, List.getElem?_map, List.getElem?_mapIdx, Option.map_map]
    exact Option.map_id'
  have stack : Stack stop (ps.map fun p => (p.start, p.stop)) start :=
    bounds ▸ slices_stack h hlt covers
  refine ⟨ps, parts, by rw [hlen, count], by rw [hlen]; exact covers.eq_ceil h, fun i p hp => ?_,
    stack, fun t above below => ?_⟩
  · simp only [hps, List.getElem?_mapIdx, Option.map_eq_some_iff, getElem?_slices] at hp
    obtain ⟨_, ⟨hi, rfl⟩, rfl⟩ := hp
    refine ⟨by simp only [slice, Nat.zero_add], fun inner => ?_⟩
    exact (since_slice h covers hi).2 (hlen ▸ inner)
  · exact covered_once first.valid.2 last.valid.2 parts stack above below

/-- Two hours and a half with an hour as the length: the oldest partition is half as
long as the others. -/
theorem partitions_tile_half_hour :
    let start : Instant := ⟨1700000000, 123456789⟩
    let stop : Instant := ⟨1700009000, 123456789⟩
    start.Plain ∧ stop.Plain ∧
      partitions? start stop ⟨3600000000000⟩ = some
        [⟨0, ⟨1700005400, 123456789⟩, stop⟩,
          ⟨1, ⟨1700001800, 123456789⟩, ⟨1700005400, 123456789⟩⟩,
          ⟨2, start, ⟨1700001800, 123456789⟩⟩] ∧
      ∀ t, start ≤ t → t < stop → ∃ ps, partitions? start stop ⟨3600000000000⟩ = some ps ∧
        ∃! p, p ∈ ps ∧ p.start ≤ t ∧ t < p.stop := by
  have first : Instant.Plain ⟨1700000000, 123456789⟩ := ⟨by decide, by decide⟩
  have last : Instant.Plain ⟨1700009000, 123456789⟩ := ⟨by decide, by decide⟩
  obtain ⟨ps, parts, -, -, -, -, once⟩ := @partitions_tile _ _ ⟨3600000000000⟩ first last
    (by decide) (by decide) (by decide) (by decide) (by decide) ⟨_, rfl⟩
  exact ⟨first, last, by decide, fun t above below => ⟨ps, parts, once t above below⟩⟩

/-- Windows tile their range, and the loop that lays them out ends. No window is longer
than asked for, and only the oldest is shorter. A length beyond a signed count of
nanoseconds is cut down to it. -/
theorem windows_tile {window : Duration} (first : start.Plain) (last : stop.Plain)
    (positive : 0 < window.nanos) (room : ∃ u, start.sub? window.nanos = some u) :
    ∃ ws, windows? start stop window = some ws ∧ (ws = [] ↔ stop ≤ start) ∧
      (start < stop → Stack stop ws start ∧
        (∀ w ∈ ws, w.2.since w.1 ≤ window.nanos) ∧
        (window.nanos ≤ maxInt64 →
          (∀ (i : Nat) (w : Instant × Instant), ws[i]? = some w → i + 1 < ws.length →
            w.2.since w.1 = window.nanos) ∧
          (ws.length : Int) = ⌈(stop.since start : ℚ) / window.nanos⌉)) := by
  obtain ⟨u, hu⟩ := room
  have hm : maxInt64 = 9223372036854775807 := rfl
  have hle : window.step ≤ window.nanos := min_le_left _ _
  have hpos : 0 < window.step := lt_min (by omega) (by omega)
  have hroom := first.room_of_sub? (by omega) hu
  rcases lt_or_ge start stop with hlt | hge
  · have h : Cuttable start stop window.step := ⟨first, last, hpos, hlt.le, by omega⟩
    obtain ⟨n, covers, laidOut⟩ := windows?_eq h hlt
    have stack := slices_stack h hlt covers
    refine ⟨_, laidOut, ⟨fun none => ?_, fun hge => absurd hlt (not_lt.2 hge)⟩, fun _ =>
      ⟨stack, fun w hw => ?_, fun short => ⟨fun i w hi inner => ?_, ?_⟩⟩⟩
    · rw [none] at stack
      cases stack
      exact le_rfl
    · obtain ⟨i, hi⟩ := List.mem_iff_getElem?.1 hw
      obtain ⟨hin, rfl⟩ := getElem?_slices.1 hi
      exact (since_slice h covers hin).1.trans hle
    · obtain ⟨hin, rfl⟩ := getElem?_slices.1 hi
      rw [length_slices] at inner
      rw [← Duration.step_eq short]
      exact (since_slice h covers hin).2 inner
    · have count := covers.eq_ceil h
      rw [Duration.step_eq short] at count
      rw [length_slices]
      exact count
  · exact ⟨[], windows?_of_le hge, ⟨fun _ => hge, fun _ => rfl⟩, fun hlt =>
      absurd hlt (not_lt.2 hge)⟩

/-- An hour in windows of twenty-five minutes. -/
theorem windows_tile_hour :
    let start : Instant := ⟨1700000000, 123456789⟩
    let stop : Instant := ⟨1700003600, 123456789⟩
    start.Plain ∧ stop.Plain ∧
      ∃ ws, windows? start stop ⟨1500000000000⟩ = some ws ∧ ws.length = 3 ∧
        Stack stop ws start ∧ ∀ w ∈ ws, w.2.since w.1 ≤ 1500000000000 := by
  have first : Instant.Plain ⟨1700000000, 123456789⟩ := ⟨by decide, by decide⟩
  have last : Instant.Plain ⟨1700003600, 123456789⟩ := ⟨by decide, by decide⟩
  obtain ⟨ws, laidOut, -, tiled⟩ :=
    @windows_tile _ _ ⟨1500000000000⟩ first last (by decide) ⟨_, rfl⟩
  obtain ⟨stack, within, exact⟩ := tiled (by decide)
  have count := (exact (by decide)).2
  rw [show Instant.since ⟨1700003600, 123456789⟩ ⟨1700000000, 123456789⟩ = 3600000000000 by decide,
    show ⌈((3600000000000 : Int) : ℚ) / (1500000000000 : Nat)⌉ = 3 by norm_num] at count
  exact ⟨first, last, ws, laidOut, by omega, stack, within⟩

end LogExport
