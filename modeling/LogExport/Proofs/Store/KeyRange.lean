import LogExport.Store.Memory

/-! The range of the keys that start with given bytes: it contains these keys and no
other. What it ends before is the least of the keys above them all. If every given byte
is the largest, no key is above, and the range has no end. -/

namespace LogExport

namespace KeyRange

variable {p e k : Bytes} {b c : UInt8}

/-! ### Keys above all that start with given bytes -/

/-- The key `e` is above every key that starts with `p`. -/
def Above (p e : Bytes) : Prop := ∀ k, p <+: k → k < e

theorem not_above_of_prefix (h : p <+: k) : ¬ Above p k := fun above => Std.lt_irrefl (above k h)

theorem not_above_nil : ¬ Above p [] := fun above => List.not_lt_nil p (above p List.prefix_rfl)

theorem above_cons_iff : Above (b :: p) (c :: e) ↔ b < c ∨ b = c ∧ Above p e := by
  constructor
  · intro above
    have first := List.cons_lt_cons_iff.1 (above (b :: p) List.prefix_rfl)
    refine first.imp_right fun ⟨hbc, _⟩ => ⟨hbc, fun k hk => ?_⟩
    have second := List.cons_lt_cons_iff.1 (above (b :: k) (List.cons_prefix_cons.2 ⟨rfl, hk⟩))
    exact (second.resolve_left fun h => Std.lt_irrefl (hbc ▸ h)).2
  · rintro h k ⟨s, rfl⟩
    refine List.cons_lt_cons_iff.2 (h.imp_right fun ⟨hbc, above⟩ => ⟨hbc, ?_⟩)
    exact above _ (List.prefix_append p s)

/-- From `p` on there are the keys that start with `p`, and then those above them all. -/
theorem prefix_iff : p <+: k ↔ p ≤ k ∧ ¬ Above p k := by
  constructor
  · exact fun h => ⟨h.le, not_above_of_prefix h⟩
  · rintro ⟨le, below⟩
    induction p generalizing k with
    | nil => exact List.nil_prefix
    | cons b p ih =>
      cases k with
      | nil => cases List.le_nil.1 le
      | cons c k =>
        rw [above_cons_iff, not_or, not_and] at below
        obtain ⟨rfl, rest⟩ := (List.cons_le_cons_iff.1 le).resolve_left below.1
        exact List.cons_prefix_cons.2 ⟨rfl, ih rest (below.2 rfl)⟩

/-! ### The least of them -/

theorem lt_max_iff : b < 255 ↔ b ≠ 255 := by grind

/-- A key begins with a larger byte than `b` exactly if it is not below the raised `b`. -/
theorem lt_iff_raised_le (h : b < 255) : b < c ↔ [b + 1] ≤ c :: e := by
  rw [List.cons_le_cons_iff]
  have raised : b < c ↔ b + 1 < c ∨ b + 1 = c := by grind
  simp only [raised, List.nil_le, and_true]

theorem successorRev_concat (q : Bytes) (b : UInt8) : successorRev (q ++ [b]) =
    match successorRev q with
    | some e => some (e ++ [b])
    | none => if b < 255 then some [b + 1] else none := by
  induction q with
  | nil => rfl
  | cons a q ih =>
    simp only [List.cons_append, successorRev, ih]
    split <;> rfl

/-- The successor seen from the first byte, which is raised only if no byte behind it is. -/
theorem successor_cons (b : UInt8) (p : Bytes) : successor (b :: p) =
    match successor p with
    | some e => some (b :: e)
    | none => if b < 255 then some [b + 1] else none := by
  simp only [successor, List.reverse_cons, successorRev_concat]
  cases successorRev p.reverse with
  | none => simp only [Option.map_none]; split <;> rfl
  | some e => simp

theorem successor_eq_none_iff : successor p = none ↔ ∀ b ∈ p, b = 255 := by
  induction p with
  | nil => simp [successor, successorRev]
  | cons b p ih =>
    rw [successor_cons, List.forall_mem_cons, ← ih]
    cases successor p <;> simp [lt_max_iff]

/-- The keys above all that start with `p` are those from the successor on. -/
theorem above_iff : Above p e ↔ ∃ s, successor p = some s ∧ s ≤ e := by
  induction p generalizing e with
  | nil => simp [successor, successorRev, not_above_of_prefix List.nil_prefix]
  | cons b p ih =>
    rw [successor_cons]
    cases e with
    | nil =>
      refine iff_of_false not_above_nil ?_
      cases successor p <;> simp
    | cons c e =>
      rw [above_cons_iff, ih]
      cases successor p with
      | some s => simp [List.cons_le_cons_iff]
      | none =>
        by_cases h : b < 255
        · simp [h, lt_iff_raised_le h (e := e)]
        · have : ¬ b < c := by grind
          simp [h, this]

theorem successor_eq_some_iff :
    successor p = some e ↔ Above p e ∧ ∀ e', Above p e' → e ≤ e' := by
  constructor
  · intro h
    refine ⟨above_iff.2 ⟨e, h, Std.le_refl e⟩, fun e' above => ?_⟩
    obtain ⟨s, hs, le⟩ := above_iff.1 above
    rw [h] at hs
    cases hs
    exact le
  · rintro ⟨above, least⟩
    obtain ⟨s, hs, le⟩ := above_iff.1 above
    have ge := least s (above_iff.2 ⟨s, hs, Std.le_refl s⟩)
    rw [hs, Std.le_antisymm le ge]

/-! ### The range -/

theorem stop_eq_excluded_iff : (startingWith p).stop = .excluded e ↔ successor p = some e := by
  unfold startingWith
  cases successor p <;> simp

theorem stop_eq_unbounded_iff : (startingWith p).stop = .unbounded ↔ successor p = none := by
  unfold startingWith
  cases successor p <;> simp

theorem contains_startingWith : (startingWith p).contains k = true ↔ p <+: k := by
  rw [prefix_iff, above_iff]
  simp only [startingWith, contains, KeyBound.admitsAbove, Bool.and_eq_true, decide_eq_true_eq]
  cases successor p <;> simp [KeyBound.admitsBelow]

theorem isOrdered_startingWith (p : Bytes) : (startingWith p).isOrdered = true := by
  cases h : successor p with
  | none => simp [startingWith, isOrdered, h, KeyBound.key?]
  | some e =>
    have lt : p < e := (successor_eq_some_iff.1 h).1 p List.prefix_rfl
    simp [startingWith, isOrdered, h, KeyBound.key?, Std.le_of_lt lt]

theorem within_startingWith (r : Records) (p : Bytes) :
    r.within (startingWith p) = r.entries.filter fun e => p.isPrefixOf e.1 := by
  refine List.filter_congr fun e _ => ?_
  rw [Bool.eq_iff_iff, contains_startingWith, List.isPrefixOf_iff_prefix]

/-- The range of the keys that start with `p`
(a) contains these keys and no other;
(b) ends before a key exactly if that is the least of the keys above them all;
(c) ends before none exactly if every byte of `p` is the largest: then it has no end, and
no key is above;
(d) has its ends in order, and any memory scans it for the entries whose keys start with
`p`. -/
theorem startingWith_exact (p : Bytes) :
    (∀ k, (startingWith p).contains k = true ↔ p <+: k) ∧
    (∀ e, (startingWith p).stop = .excluded e ↔ Above p e ∧ ∀ e', Above p e' → e ≤ e') ∧
    (((∀ e, (startingWith p).stop ≠ .excluded e) ↔ ∀ b ∈ p, b = 255) ∧
      ((startingWith p).stop = .unbounded ↔ ∀ b ∈ p, b = 255) ∧
      ((∀ e, ¬ Above p e) ↔ ∀ b ∈ p, b = 255)) ∧
    (startingWith p).isOrdered = true ∧
    ∀ m : Memory, m.serve (.scan (startingWith p)) =
      (.opened m.scans.length,
        { m with scans := m.scans ++ [m.records.entries.filter fun e => p.isPrefixOf e.1] }) := by
  refine ⟨fun k => contains_startingWith, fun e => ?_, ⟨?_, ?_, ?_⟩, isOrdered_startingWith p,
    fun m => ?_⟩
  · rw [stop_eq_excluded_iff, successor_eq_some_iff]
  · simp only [Ne, stop_eq_excluded_iff, ← successor_eq_none_iff, Option.eq_none_iff_forall_ne_some]
  · rw [stop_eq_unbounded_iff, successor_eq_none_iff]
  · rw [← successor_eq_none_iff]
    simp only [above_iff]
    cases successor p with
    | none => simp
    | some s => simpa using ⟨s, Std.le_refl s⟩
  · simp only [Memory.serve, KeyMap.scan?, isOrdered_startingWith, within_startingWith, if_true]

/-- The last two bytes cannot be raised. -/
theorem startingWith_exact_carry :
    (startingWith [1, 255, 255]).contains [1, 255, 255, 0] = true ∧
      (startingWith [1, 255, 255]).contains [1, 255, 254, 255] = false ∧
      Above [1, 255, 255] [2] ∧ Above [1, 255, 255] [7] ∧ ([2] : Bytes) ≤ [7] := by
  obtain ⟨contains, stop, -⟩ := startingWith_exact [1, 255, 255]
  obtain ⟨above, least⟩ := (stop [2]).1 rfl
  have higher : Above [1, 255, 255] [7] := above_cons_iff.2 (.inl (by decide))
  refine ⟨(contains _).2 (by decide), ?_, above, higher, least [7] higher⟩
  exact Bool.eq_false_iff.2 fun h => absurd ((contains _).1 h) (by decide)

end KeyRange

end LogExport
