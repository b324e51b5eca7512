import Mathlib.Data.Set.Defs
import LogExport.Proofs.Partition.Bounds

/-! The pieces that a range is cut into lie one below the other. They reach the
start of the range unless the count of partitions, which knows of leap seconds,
and the cuts, which skip second 60, disagree. -/

namespace LogExport

/-- Every moment of the range lies in exactly one of the windows, and no window
leaves the range. -/
structure Tiles (ws : Set (Instant × Instant)) (lo hi : Instant) : Prop where
  inside : ∀ w ∈ ws, lo ≤ w.1 ∧ w.1 < w.2 ∧ w.2 ≤ hi
  once : ∀ t, lo ≤ t → t < hi → ∃! w, w ∈ ws ∧ w.1 ≤ t ∧ t < w.2

/-- Windows that lie one below the other, from an end down to a start. -/
inductive Stack : Instant → List (Instant × Instant) → Instant → Prop
  | nil (t : Instant) : Stack t [] t
  | cons {hi mid lo : Instant} {ws : List (Instant × Instant)} (h : mid < hi)
      (below : Stack mid ws lo) : Stack hi ((mid, hi) :: ws) lo

namespace Stack

variable {hi mid lo : Instant} {ws vs : List (Instant × Instant)}

theorem le (h : Stack hi ws lo) : lo ≤ hi := by
  induction h with
  | nil => exact le_rfl
  | cons h _ ih => exact ih.trans h.le

theorem append (h : Stack hi ws mid) (g : Stack mid vs lo) : Stack hi (ws ++ vs) lo := by
  induction h with
  | nil => exact g
  | cons h _ ih => exact .cons h (ih g)

theorem inside (h : Stack hi ws lo) : ∀ w ∈ ws, lo ≤ w.1 ∧ w.1 < w.2 ∧ w.2 ≤ hi := by
  induction h with
  | nil => intro w hw; cases hw
  | cons h below ih =>
    intro w hw
    rcases List.mem_cons.1 hw with rfl | hw
    · exact ⟨below.le, h, le_rfl⟩
    · obtain ⟨h1, h2, h3⟩ := ih w hw
      exact ⟨h1, h2, h3.trans h.le⟩

theorem tiles (h : Stack hi ws lo) : Tiles {w | w ∈ ws} lo hi := by
  refine ⟨h.inside, ?_⟩
  induction h with
  | nil => exact fun t h0 h1 => absurd h0 (not_le.2 h1)
  | @cons hi mid lo ws hmid below ih =>
    intro t h0 h1
    -- The top window has all moments from its start on, the rest all before.
    by_cases ht : t < mid
    · obtain ⟨w, ⟨hw, hin⟩, huniq⟩ := ih t h0 ht
      refine ⟨w, ⟨List.mem_cons_of_mem _ hw, hin⟩, ?_⟩
      rintro v ⟨hv, hv1, hv2⟩
      rcases List.mem_cons.1 hv with rfl | hv
      · exact absurd hv1 (not_le.2 ht)
      · exact huniq v ⟨hv, hv1, hv2⟩
    · refine ⟨(mid, hi), ⟨List.mem_cons_self, not_lt.1 ht, h1⟩, ?_⟩
      rintro v ⟨hv, hv1, hv2⟩
      rcases List.mem_cons.1 hv with rfl | hv
      · rfl
      · exact absurd (hv2.trans_le (below.inside v hv).2.2) ht

end Stack

namespace Tiles

variable {ws : Set (Instant × Instant)} {lo hi lo' hi' : Instant}

theorem start_le (h : Tiles ws lo hi) (g : Tiles ws lo' hi') (hlt : lo < hi) : lo' ≤ lo := by
  obtain ⟨w, ⟨hw, h1, -⟩, -⟩ := h.once lo le_rfl hlt
  exact (g.inside w hw).1.trans h1

theorem stop_le (h : Tiles ws lo hi) (g : Tiles ws lo' hi') (hlo : lo' ≤ hi) : hi' ≤ hi := by
  by_contra hlt
  obtain ⟨w, ⟨hw, -, h2⟩, -⟩ := g.once hi hlo (not_le.1 hlt)
  exact absurd h2 (not_lt.2 (h.inside w hw).2.2)

/-- Windows tile one range only, unless there are none. -/
theorem unique (h : Tiles ws lo hi) (g : Tiles ws lo' hi') (hlt : lo < hi) :
    lo' = lo ∧ hi' = hi := by
  obtain ⟨w, ⟨hw, h1, h2⟩, -⟩ := h.once lo le_rfl hlt
  obtain ⟨h3, h4, h5⟩ := g.inside w hw
  have hlt' : lo' < hi' := h3.trans_lt (h4.trans_le h5)
  have hle := h.start_le g hlt
  refine ⟨le_antisymm hle (g.start_le h hlt'), le_antisymm ?_ ?_⟩
  · exact h.stop_le g (hle.trans hlt.le)
  · exact g.stop_le h ((g.start_le h hlt').trans hlt'.le)

end Tiles

namespace Instant

/-- A moment that lies that far from the begin of the calendar. -/
def HasRoom (t : Instant) (step : Int) : Prop := earliest * perSecond + step ≤ t.sec * perSecond

instance (t : Instant) (step : Int) : Decidable (t.HasRoom step) :=
  inferInstanceAs (Decidable (earliest * perSecond + step ≤ t.sec * perSecond))

theorem HasRoom.mono {t u : Instant} {step : Int} (h : t.HasRoom step) (hle : t ≤ u) :
    u.HasRoom step := by
  have hc : perSecond = 1000000000 := rfl
  rw [le_iff] at hle
  unfold HasRoom at h ⊢
  rw [hc] at h ⊢
  omega

theorem HasRoom.sub? {t : Instant} {step : Int} (h : t.HasRoom step) (ht : t.Valid)
    (hs : 0 < step) : ∃ u, t.sub? step = some u ∧ u.Valid := by
  have hc : perSecond = 1000000000 := rfl
  have hlt := shifted_lt ht.2 (by omega : -step < 0)
  have hn := toNanos_shifted_of_neg t (by omega : -step < 0)
  have hu := nano_shifted_lt ht.2 (-step)
  have hsec := sec_shifted_or t (-step)
  have hr : (t.shifted (-step)).InRange := by
    have hmin := ht.1.1
    have hmax := ht.1.2
    unfold HasRoom at h
    rw [lt_iff] at hlt
    simp only [toNanos] at hn
    rw [hc] at h hn
    constructor <;> omega
  refine ⟨t.shifted (-step), ?_, hr, hu⟩
  simp only [Instant.sub?, add?, checked, hr, if_true]

end Instant

/-! ### Windows of a range -/

section Windows

variable {start stop upper : Instant} {step : Int} {window : Duration}
  {ws : List (Instant × Instant)}

theorem windowsOf?_stack (hs : 0 < step) (hu : upper.nano < 2000000000) (hlt : start < upper)
    (h : windowsOf? start step hs upper = some ws) : Stack upper ws start := by
  fun_induction windowsOf? start step hs upper generalizing ws with
  | case1 => cases h
  | case2 upper cut hsub hcut ih =>
    obtain ⟨rest, hrest, rfl⟩ := Option.map_eq_some_iff.1 h
    exact .cons (Instant.sub?_lt hu hs hsub) (ih (Instant.valid_of_add? hu hsub).2 hcut hrest)
  | case3 =>
    cases h
    exact .cons hlt (.nil start)

/-- The windows of a range lie one below the other, and leave nothing out. -/
theorem windows?_stack (hw : 0 < window.step) (hu : stop.nano < 2000000000) (hle : start ≤ stop)
    (h : windows? start stop window = some ws) : Stack stop ws start := by
  unfold windows? at h
  rw [dif_pos hw] at h
  split_ifs at h with hlt
  · exact windowsOf?_stack hw hu hlt h
  · cases h
    obtain rfl : start = stop := le_antisymm hle (not_lt.1 hlt)
    exact .nil start

theorem windowsOf?_isSome (hs : 0 < step) (hu : upper.Valid) (hlt : start < upper)
    (room : start.HasRoom step) : ∃ ws, windowsOf? start step hs upper = some ws := by
  fun_induction windowsOf? start step hs upper with
  | case1 upper hsub =>
    obtain ⟨u, h, -⟩ := (room.mono hlt.le).sub? hu hs
    rw [hsub] at h
    cases h
  | case2 upper cut hsub hcut ih =>
    obtain ⟨ws, hws⟩ := ih (Instant.valid_of_add? hu.2 hsub) hcut
    exact ⟨_, by rw [hws]; rfl⟩
  | case3 => exact ⟨_, rfl⟩

theorem windows?_isSome (hu : stop.Valid) (room : start.HasRoom window.step) :
    ∃ ws, windows? start stop window = some ws := by
  unfold windows?
  split_ifs with hw hlt
  · exact windowsOf?_isSome hw hu hlt room
  · exact ⟨_, rfl⟩
  · exact ⟨_, rfl⟩

end Windows

/-! ### Partitions of a range -/

section Cuts

variable {start stop upper : Instant} {step : Int} {n index : Nat} {ps : List Partition}

/-- Where the last of `n` cuts ends. -/
def lowest (start : Instant) (step : Int) : Nat → Instant → Instant
  | 0, upper => upper
  | n + 1, upper => lowest start step n ((upper.shifted (-step)).later start)

theorem cuts?_succ (h : cuts? start step (n + 1) index upper = some ps) :
    ∃ rest, ps = ⟨index, (upper.shifted (-step)).later start, upper⟩ :: rest ∧
      upper.sub? step = some (upper.shifted (-step)) ∧
      cuts? start step n (index + 1) ((upper.shifted (-step)).later start) = some rest := by
  simp only [cuts?, bind, pure, Option.bind_eq_some_iff, Option.some.injEq] at h
  obtain ⟨cut, hcut, rest, hrest, rfl⟩ := h
  obtain rfl := Instant.eq_of_add? hcut
  exact ⟨rest, rfl, hcut, hrest⟩

/-- Pieces are numbered one after the other. -/
theorem index_of_cuts? (h : cuts? start step n index upper = some ps) {i : Nat} {p : Partition}
    (hp : ps[i]? = some p) : p.index = index + i := by
  induction n generalizing index upper ps i with
  | zero =>
    cases h
    cases hp
  | succ n ih =>
    obtain ⟨rest, rfl, -, hrest⟩ := cuts?_succ h
    cases i with
    | zero =>
      cases hp
      rfl
    | succ i =>
      rw [ih hrest hp]
      omega

theorem length_of_cuts? (h : cuts? start step n index upper = some ps) : ps.length = n := by
  induction n generalizing index upper ps with
  | zero =>
    cases h
    rfl
  | succ n ih =>
    obtain ⟨rest, rfl, -, hrest⟩ := cuts?_succ h
    rw [List.length_cons, ih hrest]

theorem nano_later {a b : Instant} (ha : a.nano < 2000000000) (hb : b.nano < 2000000000) :
    (a.later b).nano < 2000000000 := by
  unfold Instant.later
  split
  · exact hb
  · exact ha

theorem stop_le_of_cuts? (hs : 0 < step) (ha : start.nano < 2000000000)
    (hu : upper.nano < 2000000000) (hle : start ≤ upper)
    (h : cuts? start step n index upper = some ps) : ∀ p ∈ ps, p.stop ≤ upper := by
  induction n generalizing index upper ps with
  | zero =>
    cases h
    intro p hp
    cases hp
  | succ n ih =>
    obtain ⟨rest, rfl, hcut, hrest⟩ := cuts?_succ h
    intro p hp
    rcases List.mem_cons.1 hp with rfl | hp
    · exact le_rfl
    · have hn := nano_later (Instant.nano_shifted_lt hu (-step)) ha
      refine (ih hn (Instant.right_le_later _ _) hrest p hp).trans ?_
      exact Instant.later_le (Instant.sub?_lt hu hs hcut).le hle

/-- Newer pieces come first. -/
theorem newest_first_of_cuts? (hs : 0 < step) (ha : start.nano < 2000000000)
    (hu : upper.nano < 2000000000) (h : cuts? start step n index upper = some ps) :
    ps.Pairwise fun p q => q.stop ≤ p.start := by
  induction n generalizing index upper ps with
  | zero =>
    cases h
    exact .nil
  | succ n ih =>
    obtain ⟨rest, rfl, hcut, hrest⟩ := cuts?_succ h
    have hn := nano_later (Instant.nano_shifted_lt hu (-step)) ha
    exact .cons (stop_le_of_cuts? hs ha hn (Instant.right_le_later _ _) hrest) (ih hn hrest)

theorem lowest_le (hs : 0 < step) (ha : start.nano < 2000000000) (hu : upper.nano < 2000000000)
    (hle : start ≤ upper) (n : Nat) : lowest start step n upper ≤ upper := by
  induction n generalizing upper with
  | zero => exact le_rfl
  | succ n ih =>
    have hn := nano_later (Instant.nano_shifted_lt hu (-step)) ha
    refine (ih hn (Instant.right_le_later _ _)).trans ?_
    exact Instant.later_le (Instant.shifted_lt hu (by omega)).le hle

/-- No piece is empty if the last one begins above the start. -/
theorem start_lt_stop_of_cuts? (hs : 0 < step) (ha : start.nano < 2000000000)
    (hu : upper.nano < 2000000000) (h : cuts? start step (n + 1) index upper = some ps)
    (above : start < lowest start step n upper) : ∀ p ∈ ps, p.start < p.stop := by
  induction n generalizing index upper ps with
  | zero =>
    obtain ⟨rest, rfl, -, hrest⟩ := cuts?_succ h
    cases hrest
    intro p hp
    obtain rfl := List.mem_singleton.1 hp
    unfold Instant.later
    split
    · exact above
    · exact Instant.shifted_lt hu (by omega)
  | succ n ih =>
    obtain ⟨rest, rfl, -, hrest⟩ := cuts?_succ h
    have hn := nano_later (Instant.nano_shifted_lt hu (-step)) ha
    have cut : start < (upper.shifted (-step)).later start :=
      above.trans_le (lowest_le hs ha hn (Instant.right_le_later _ _) n)
    intro p hp
    rcases List.mem_cons.1 hp with rfl | hp
    · refine lt_of_le_of_lt ?_ (Instant.shifted_lt hu (by omega : -step < 0))
      refine Instant.later_le le_rfl (not_lt.1 fun below => ?_)
      rw [Instant.later_eq_right.2 below.le] at cut
      exact lt_irrefl _ cut
    · exact ih hn hrest above p hp

theorem cuts?_isSome (hs : 0 < step) (ha : start.Valid) (hu : upper.Valid) (hle : start ≤ upper)
    (room : start.HasRoom step) (n index : Nat) :
    ∃ ps, cuts? start step n index upper = some ps ∧
      ∀ p ∈ ps, start ≤ p.start ∧ p.stop.Valid := by
  induction n generalizing index upper with
  | zero => exact ⟨[], rfl, fun p hp => by cases hp⟩
  | succ n ih =>
    obtain ⟨cut, hcut, hvalid⟩ := (room.mono hle).sub? hu hs
    have hlower : (cut.later start).Valid := by
      unfold Instant.later
      split
      · exact ha
      · exact hvalid
    obtain ⟨ps, hps, hall⟩ := ih hlower (Instant.right_le_later _ _) (index + 1)
    refine ⟨⟨index, cut.later start, upper⟩ :: ps, ?_, fun p hp => ?_⟩
    · simp only [cuts?, hcut, hps, bind, pure, Option.bind_some]
    · rcases List.mem_cons.1 hp with rfl | hp
      · exact ⟨Instant.right_le_later _ _, hu⟩
      · exact hall p hp

/-- All windows of all pieces, from the end of the range to the last cut. -/
theorem cuts?_stack {window : Duration} (hw : 0 < window.step) (hs : 0 < step)
    (ha : start.nano < 2000000000) (hu : upper.nano < 2000000000) (hle : start ≤ upper)
    (h : cuts? start step n index upper = some ps)
    (hws : ∀ p ∈ ps, ∃ ws, windows? p.start p.stop window = some ws) :
    ∃ all, Stack upper all (lowest start step n upper) ∧
      ∀ v, v ∈ all ↔ ∃ p ∈ ps, ∃ ws, windows? p.start p.stop window = some ws ∧ v ∈ ws := by
  induction n generalizing index upper ps with
  | zero =>
    cases h
    exact ⟨[], .nil upper, by simp⟩
  | succ n ih =>
    obtain ⟨rest, rfl, hcut, hrest⟩ := cuts?_succ h
    have hn := nano_later (Instant.nano_shifted_lt hu (-step)) ha
    have hlow := Instant.later_le (Instant.sub?_lt hu hs hcut).le hle
    obtain ⟨all, below, hall⟩ := ih hn (Instant.right_le_later _ _) hrest
      fun p hp => hws p (List.mem_cons_of_mem _ hp)
    obtain ⟨ws, hws₀⟩ := hws _ List.mem_cons_self
    have top := windows?_stack hw hu hlow hws₀
    refine ⟨ws ++ all, top.append below, fun v => ?_⟩
    simp only [List.mem_append, hall, List.mem_cons, exists_eq_or_imp]
    refine or_congr_left ⟨fun hv => ⟨ws, hws₀, hv⟩, ?_⟩
    rintro ⟨ws', hws', hv⟩
    rw [hws₀] at hws'
    cases hws'
    exact hv

variable {length : Duration}

/-- Nothing is cut with a step of zero. -/
theorem step_pos_of_partitionCount? (h : partitionCount? start stop length = some (n + 1)) :
    0 < length.step := by
  have hm : maxInt64 = 9223372036854775807 := rfl
  by_contra hle
  have hz : length.nanos = 0 := by
    simp only [Duration.step, hm] at hle
    omega
  have hmillis : length.stepMillis = 0 := by
    unfold Duration.stepMillis Duration.millis
    rw [hz, Nat.zero_div]
    exact Int.zero_bmod
  simp only [partitionCount?, hmillis, le_refl, or_true, if_true, Option.some.injEq] at h
  cases h

/-- The partitions of a range are numbered by their places. -/
theorem index_of_partitions? (h : partitions? start stop length = some ps) {i : Nat}
    {p : Partition} (hp : ps[i]? = some p) : p.index = i := by
  obtain ⟨n, -, hc⟩ := Option.bind_eq_some_iff.1 h
  rw [index_of_cuts? hc hp, Nat.zero_add]

theorem indices_of_partitions? (h : partitions? start stop length = some ps) :
    ps.map Partition.index = List.range ps.length := by
  refine List.ext_getElem (by simp) fun i hi _ => ?_
  rw [List.getElem_map, List.getElem_range]
  exact index_of_partitions? h (List.getElem?_eq_getElem (by simpa using hi))

/-- The partitions of a range do not overlap, and the newest comes first. -/
theorem newest_first_of_partitions? (ha : start.nano < 2000000000) (hb : stop.nano < 2000000000)
    (h : partitions? start stop length = some ps) : ps.Pairwise fun p q => q.stop ≤ p.start := by
  obtain ⟨n, hn, hc⟩ := Option.bind_eq_some_iff.1 h
  cases n with
  | zero =>
    cases hc
    exact .nil
  | succ n => exact newest_first_of_cuts? (step_pos_of_partitionCount? hn) ha hb hc

/-- Among parts that do not overlap and are not empty, the bounds tell the part. -/
theorem Partition.eq_of_bounds {p q : Partition} (apart : ps.Pairwise fun p q => q.stop ≤ p.start)
    (filled : ∀ p ∈ ps, p.start < p.stop) (hp : p ∈ ps) (hq : q ∈ ps) (hstart : p.start = q.start)
    (hstop : p.stop = q.stop) : p = q := by
  have hne := hstart ▸ filled p hp
  obtain ⟨i, hi, rfl⟩ := List.getElem_of_mem hp
  obtain ⟨j, hj, rfl⟩ := List.getElem_of_mem hq
  rcases lt_trichotomy i j with h | rfl | h
  · have below := List.pairwise_iff_getElem.1 apart i j hi hj h
    rw [← hstop, hstart] at below
    exact absurd hne (not_lt.2 below)
  · rfl
  · have below := List.pairwise_iff_getElem.1 apart j i hj hi h
    exact absurd hne (not_lt.2 below)

theorem partitions?_isSome (ha : start.Valid) (hb : stop.Valid) (hle : start ≤ stop)
    (room : start.HasRoom length.step) (hn : partitionCount? start stop length = some n) :
    ∃ ps, partitions? start stop length = some ps ∧ ps.length = n ∧
      ∀ p ∈ ps, start ≤ p.start ∧ p.stop.Valid := by
  cases n with
  | zero => exact ⟨[], by simp only [partitions?, hn, bind, Option.bind_some, cuts?], rfl,
      fun p hp => by cases hp⟩
  | succ n =>
    obtain ⟨ps, hps, hall⟩ :=
      cuts?_isSome (step_pos_of_partitionCount? hn) ha hb hle room (n + 1) 0
    exact ⟨ps, by simp only [partitions?, hn, bind, Option.bind_some, hps], length_of_cuts? hps,
      hall⟩

end Cuts

end LogExport
