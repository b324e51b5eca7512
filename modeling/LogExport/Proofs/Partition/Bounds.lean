import LogExport.Proofs.Time.Order

/-! Bounds of partitions are whole seconds and can be stored, they enclose the
range that was asked for, and partitions are no longer than a day. -/

namespace LogExport

namespace Instant

theorem nano_ofNanos_lt (n : Int) : (ofNanos n).nano < 1000000000 := by
  have h : n % perSecond < 1000000000 := Int.emod_lt_of_pos _ (by decide)
  have h0 : 0 ≤ n % perSecond := Int.emod_nonneg _ (by decide)
  simp only [ofNanos]
  omega

/-- A moved moment has a nanosecond field of its own or of second 60. -/
theorem nano_shifted_lt {t : Instant} (h : t.nano < 2000000000) (span : Int) :
    (t.shifted span).nano < 2000000000 := by
  have fit : ∀ n, (ofNanos n).nano < 2000000000 := fun n => (nano_ofNanos_lt n).trans (by decide)
  unfold shifted
  dsimp only
  split_ifs with leap early late
  · exact fit _
  · exact fit _
  · simp only [not_or, not_and, not_le] at early
    dsimp only
    rcases Int.lt_or_le 0 (span.tmod perSecond) with hp | hp
    · have := early.2 hp
      omega
    · omega
  · exact fit _

/-- A moment stays in second 60 or leaves it. -/
theorem sec_shifted_or (t : Instant) (span : Int) :
    (t.shifted span).sec = t.sec ∨ (t.shifted span).nano < 1000000000 := by
  unfold shifted
  dsimp only
  split_ifs
  · exact .inr (nano_ofNanos_lt _)
  · exact .inr (nano_ofNanos_lt _)
  · exact .inl rfl
  · exact .inr (nano_ofNanos_lt _)

theorem valid_of_add? {t u : Instant} {span : Int} (h : t.nano < 2000000000)
    (hu : t.add? span = some u) : u.Valid := by
  simp only [add?, checked] at hu
  split at hu
  · next hr =>
    cases hu
    exact ⟨hr, nano_shifted_lt h span⟩
  · cases hu

/-- A moment at the begin of a second, which may be second 60. -/
def IsWhole (t : Instant) : Prop := t.nano = 0 ∨ t.nano = 1000000000

theorem IsWhole.nano_lt {t : Instant} (h : t.IsWhole) : t.nano < 2000000000 := by
  unfold IsWhole at h
  omega

/-- A moment that lies a whole number of seconds before second zero. -/
theorem isWhole_shifted {t : Instant} {span : Int} (ht : t.nano < 2000000000)
    (h : (t.nano + span) % 1000000000 = 0) : (t.shifted span).IsWhole := by
  have hc : perSecond = 1000000000 := rfl
  have whole : ∀ n : Int, n % 1000000000 = 0 → (ofNanos n).IsWhole := by
    intro n hn
    left
    simp only [ofNanos, hc, hn]
    rfl
  have hs := Int.mul_tdiv_add_tmod span perSecond
  have hn := nano_shifted_lt ht span
  unfold shifted at hn ⊢
  dsimp only at hn ⊢
  rw [hc] at hs hn ⊢
  split_ifs at hn ⊢ with leap past back
  · exact whole _ (by simp only [toNanos, hc]; omega)
  · exact whole _ (by simp only [toNanos, hc]; omega)
  · unfold IsWhole
    dsimp only at hn ⊢
    omega
  · exact whole _ (by simp only [toNanos, hc]; omega)

end Instant

namespace PartLength

/-- A length in seconds. -/
theorem step_mod_second (p : PartLength) : p.step % 1000000000 = 0 := by
  have h := p.minutes
  have hm : Duration.minute.nanos = 60000000000 := rfl
  rw [hm] at h
  unfold step
  omega

theorem minute_le_step (p : PartLength) : 60000000000 ≤ p.step := by
  have h := p.minutes
  have h0 := p.positive
  have hm : Duration.minute.nanos = 60000000000 := rfl
  rw [hm] at h
  unfold step
  omega

/-- What has passed since the last bound has the nanoseconds of the moment. -/
theorem sinceBound?_spec {p : PartLength} {t : Stamp} {rest : Int}
    (h : p.sinceBound? t = some rest) :
    0 ≤ rest ∧ rest < p.step ∧ (t.utc.nano - rest) % 1000000000 = 0 := by
  obtain ⟨c, hc, rfl⟩ := Option.map_eq_some_iff.1 h
  have hs := p.minute_le_step
  have hnano : c.nano = t.utc.nano := by
    simp only [Instant.checked] at hc
    split at hc
    · cases hc
      rfl
    · cases hc
  refine ⟨Int.emod_nonneg _ (by omega), Int.emod_lt_of_pos _ (by omega), ?_⟩
  have hsec : Instant.perSecond = 1000000000 := rfl
  have hd := Int.emod_emod_of_dvd (c.secondOfDay * Instant.perSecond + c.nano)
    (Int.dvd_of_emod_eq_zero p.step_mod_second)
  rw [hsec, hnano] at hd ⊢
  omega

theorem valid_of_floor? {p : PartLength} {t u : Stamp} (ht : t.utc.Valid)
    (h : p.floor? t = some u) : u.utc.Valid := by
  simp only [floor?, bind, pure, Option.bind_eq_some_iff, Option.some.injEq] at h
  obtain ⟨rest, -, utc, hutc, rfl⟩ := h
  exact Instant.valid_of_add? ht.2 hutc

theorem valid_of_ceil? {p : PartLength} {t u : Stamp} (ht : t.utc.Valid)
    (h : p.ceil? t = some u) : u.utc.Valid := by
  simp only [ceil?, bind, pure, Option.bind_eq_some_iff] at h
  obtain ⟨rest, -, h⟩ := h
  split at h
  · cases h
    exact ht
  · simp only [Option.bind_eq_some_iff, Option.some.injEq] at h
    obtain ⟨utc, hutc, rfl⟩ := h
    exact Instant.valid_of_add? ht.2 hutc

/-- The range is rounded down at its start and up at its end. -/
theorem normalize?_eq_some {p : PartLength} {s t : Stamp} {a b : Instant}
    (h : p.normalize? s t = some (a, b)) :
    ∃ u v, p.floor? s = some u ∧ p.ceil? t = some v ∧ u.utc = a ∧ v.utc = b := by
  simp only [normalize?, bind, pure, Option.bind_eq_some_iff, Option.some.injEq,
    Prod.mk.injEq] at h
  obtain ⟨u, hu, v, hv, ha, hb⟩ := h
  exact ⟨u, v, hu, hv, ha, hb⟩

theorem valid_of_normalize? {p : PartLength} {s t : Stamp} {a b : Instant} (hs : s.utc.Valid)
    (ht : t.utc.Valid) (h : p.normalize? s t = some (a, b)) : a.Valid ∧ b.Valid := by
  obtain ⟨u, v, hu, hv, rfl, rfl⟩ := normalize?_eq_some h
  exact ⟨valid_of_floor? hs hu, valid_of_ceil? ht hv⟩

/-- The bounds are whole seconds, and enclose the range. -/
theorem normalize?_spec {p : PartLength} {s t : Stamp} {a b : Instant} (hs : s.utc.Valid)
    (ht : t.utc.Valid) (h : p.normalize? s t = some (a, b)) :
    a.IsWhole ∧ b.IsWhole ∧ a ≤ s.utc ∧ t.utc ≤ b := by
  obtain ⟨u, v, hu, hv, rfl, rfl⟩ := normalize?_eq_some h
  simp only [floor?, bind, pure, Option.bind_eq_some_iff, Option.some.injEq] at hu
  obtain ⟨rest, hrest, utc, hutc, rfl⟩ := hu
  obtain ⟨h0, -, hw⟩ := sinceBound?_spec hrest
  have ha : utc.IsWhole := by
    rw [Instant.eq_of_add? hutc]
    exact Instant.isWhole_shifted hs.2 hw
  refine ⟨ha, ?_, Instant.sub?_le hs.2 h0 hutc, ?_⟩
  all_goals
    simp only [ceil?, bind, pure, Option.bind_eq_some_iff] at hv
    obtain ⟨rest, hrest, hv⟩ := hv
    obtain ⟨h0, hlt, hw⟩ := sinceBound?_spec hrest
    split at hv
  · next hz =>
    cases hv
    have := ht.2
    unfold Instant.IsWhole
    omega
  · simp only [Option.bind_eq_some_iff, Option.some.injEq] at hv
    obtain ⟨utc, hutc, rfl⟩ := hv
    rw [Instant.eq_of_add? hutc]
    have := p.step_mod_second
    exact Instant.isWhole_shifted ht.2 (by omega)
  · cases hv
    exact le_rfl
  · simp only [Option.bind_eq_some_iff, Option.some.injEq] at hv
    obtain ⟨utc, hutc, rfl⟩ := hv
    exact (Instant.lt_add? ht.2 (by omega) hutc).le

/-- A part is at most a day long. -/
theorem length_le_day (p : PartLength) : p.length.nanos ≤ 86400000000000 :=
  Nat.le_of_dvd (by decide) (Nat.dvd_of_mod_eq_zero p.ofDay)

end PartLength

end LogExport
