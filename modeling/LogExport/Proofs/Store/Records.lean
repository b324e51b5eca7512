import LogExport.Session.Key
import LogExport.Proofs.Store.KeyRange

/-! What is found in records after a change, and which records a scan of all
sessions meets. -/

namespace LogExport

namespace Entries

variable {α : Type}

theorem get?_cons (k : Bytes) (e : Bytes × α) (es : List (Bytes × α)) :
    get? k (e :: es) = if e.1 = k then some e.2 else get? k es := by
  simp only [get?, List.find?_cons]
  by_cases h : e.1 = k
  · simp [h]
  · rw [beq_false_of_ne h, if_neg h]

theorem get?_insert (k k' : Bytes) (v : α) (es : List (Bytes × α)) :
    get? k' (insert k v es) = if k = k' then some v else get? k' es := by
  induction es with
  | nil => exact get?_cons k' (k, v) []
  | cons e es ih =>
    simp only [insert]
    split
    · exact get?_cons k' (k, v) (e :: es)
    · split
      · next hk =>
        rw [get?_cons, get?_cons, ← hk]
        split <;> rfl
      · next hne =>
        rw [get?_cons, get?_cons, ih]
        split
        · next he =>
          rw [if_neg (fun h => hne (h.trans he.symm))]
        · rfl

theorem get?_erase (k k' : Bytes) (es : List (Bytes × α)) :
    get? k' (erase k es) = if k = k' then none else get? k' es := by
  induction es with
  | nil => simp [erase, get?]
  | cons e es ih =>
    simp only [erase, List.filter_cons] at ih ⊢
    by_cases he : e.1 = k
    · rw [if_neg (by simp [he]), ih, get?_cons, he]
      split <;> rfl
    · rw [if_pos (by simp [he]), get?_cons, ih, get?_cons]
      by_cases hk : e.1 = k'
      · rw [if_pos hk, if_pos hk, if_neg fun h => he (hk.trans h.symm)]
      · rw [if_neg hk, if_neg hk]

/-- In order, a key has at most one value. -/
theorem get?_eq_some_iff {es : List (Bytes × α)} (hs : Sorted es) {k : Bytes} {v : α} :
    get? k es = some v ↔ (k, v) ∈ es := by
  induction es with
  | nil => simp [get?]
  | cons e es ih =>
    obtain ⟨he, hes⟩ := List.pairwise_cons.1 hs
    rw [get?_cons, List.mem_cons]
    split
    · next hk =>
      constructor
      · intro h
        exact .inl (Prod.ext hk.symm (Option.some.inj h).symm)
      · rintro (h | h)
        · rw [← h]
        · exact absurd (he _ h) (hk ▸ Std.lt_irrefl)
    · next hk =>
      rw [ih hes]
      exact ⟨.inr, fun h => h.resolve_left fun h => hk (congrArg Prod.fst h).symm⟩

end Entries

namespace KeyMap

variable {α : Type}

theorem get?_insert (m : KeyMap α) (k k' : Bytes) (v : α) :
    (m.insert k v).get? k' = if k = k' then some v else m.get? k' :=
  Entries.get?_insert k k' v m.entries

theorem get?_erase (m : KeyMap α) (k k' : Bytes) :
    (m.erase k).get? k' = if k = k' then none else m.get? k' :=
  Entries.get?_erase k k' m.entries

theorem mem_within {m : KeyMap α} {range : KeyRange} {k : Bytes} {v : α} :
    (k, v) ∈ m.within range ↔ m.get? k = some v ∧ range.contains k = true := by
  rw [within, List.mem_filter, get?, Entries.get?_eq_some_iff m.sorted]

end KeyMap

namespace SessionKey

theorem encode_inj {a b : String} (h : encode a = encode b) : a = b :=
  Utf8.encode_inj (List.append_cancel_left h)

theorem encode_ne_lock (id : String) : encode id ≠ lock := by
  intro h
  simp [encode, head, lock, RecordType.id] at h

/-- A scan of the range of sessions meets every session's key. -/
theorem contains_encode (id : String) : range.contains (encode id) = true :=
  KeyRange.contains_startingWith.2 (List.prefix_append head _)

end SessionKey

end LogExport
