import LogExport.Files.Store
import LogExport.Proofs.Store.Records

/-! Objects under one path are told apart by their names. Segments of a path are
escaped one by one, so what stands before the last one does not matter. -/

namespace LogExport

/-- What the end of a path is cut into does not depend on what stands before. -/
theorem pieces_append {sep : Char} (before after : List Char) :
    pieces sep (before ++ sep :: after) = pieces sep before ++ pieces sep after := by
  induction before with
  | nil => simp [pieces]
  | cons c cs ih =>
    simp only [List.cons_append, pieces, ih]
    split
    · rfl
    · cases hp : pieces sep cs with
      | nil => exact absurd hp (pieces_ne_nil sep cs)
      | cons p ps => rfl

theorem pieces_of_notMem {sep : Char} {cs : List Char} (h : sep ∉ cs) : pieces sep cs = [cs] := by
  induction cs with
  | nil => rfl
  | cons c cs ih =>
    obtain ⟨hc, hcs⟩ := not_or.1 (mt List.mem_cons.2 h)
    simp only [pieces, ih hcs, if_neg (Ne.symm hc)]

/-- The last piece can be read off after the others. -/
theorem joinPieces_append_inj {sep : Char} {ps : List (List Char)} {x y : List Char}
    (h : joinPieces sep (ps ++ [x]) = joinPieces sep (ps ++ [y])) : x = y := by
  induction ps with
  | nil => exact h
  | cons p ps ih =>
    have cut (z : List Char) :
        joinPieces sep (p :: ps ++ [z]) = p ++ sep :: joinPieces sep (ps ++ [z]) := by
      cases ps <;> rfl
    rw [cut, cut] at h
    exact ih (List.cons.inj (List.append_cancel_left h)).2

namespace ObjectPath

theorem toNat_ofNat {n : Nat} (h : n < 256) : (Char.ofNat n).toNat = n := by
  have valid : n.isValidChar := .inl (by omega)
  rw [Char.ofNat, dif_pos valid]
  rfl

theorem ofNat_inj {b c : UInt8} (h : Char.ofNat b.toNat = Char.ofNat c.toNat) : b = c := by
  have hn := congrArg Char.toNat h
  rw [toNat_ofNat b.toNat_lt, toNat_ofNat c.toNat_lt] at hn
  exact UInt8.toNat_inj.1 hn

/-- A byte that is kept does not look like the begin of one that is escaped. -/
theorem ofNat_ne_percent {b : UInt8} (h : isReserved b = false) : Char.ofNat b.toNat ≠ '%' := by
  intro hb
  simp only [isReserved, Bool.or_eq_false_iff, hb] at h
  exact absurd h.2 (by decide)

theorem hexByte_inj {b c : UInt8} (h : Digits.hexByte true b = Digits.hexByte true c) : b = c := by
  have digit : ∀ m n : Fin 16, Digits.hexDigit true m = Digits.hexDigit true n → m = n := by decide
  have hl := congrArg String.toList h
  simp only [Digits.hexByte, String.toList_ofList, List.cons.injEq, and_true] at hl
  have hb := b.toNat_lt
  have hc := c.toNat_lt
  have high := digit ⟨b.toNat / 16, by omega⟩ ⟨c.toNat / 16, by omega⟩ hl.1
  have low := digit ⟨b.toNat % 16, by omega⟩ ⟨c.toNat % 16, by omega⟩ hl.2
  simp only [Fin.mk.injEq] at high low
  exact UInt8.toNat_inj.1 (by omega)

/-- The first byte can be read off before the others. -/
theorem escapeByte_append_inj {b c : UInt8} {x y : List Char}
    (h : escapeByte b ++ x = escapeByte c ++ y) : b = c ∧ x = y := by
  unfold escapeByte at h
  cases hb : isReserved b <;> cases hc : isReserved c <;>
    simp only [hb, hc, if_true, Bool.false_eq_true, if_false, List.cons_append, List.nil_append,
      List.cons.injEq] at h
  · exact ⟨ofNat_inj h.1, h.2⟩
  · exact absurd h.1 (ofNat_ne_percent hb)
  · exact absurd h.1.symm (ofNat_ne_percent hc)
  · obtain ⟨hbc, hxy⟩ := List.append_inj h.2 (by simp [Digits.hexByte])
    exact ⟨hexByte_inj (String.toList_injective hbc), hxy⟩

theorem flatMap_escapeByte_inj {bs cs : Bytes}
    (h : bs.flatMap escapeByte = cs.flatMap escapeByte) : bs = cs := by
  have ne_nil (b : UInt8) (x : List Char) : [] ≠ escapeByte b ++ x := by
    unfold escapeByte
    split <;> simp
  induction bs generalizing cs with
  | nil =>
    cases cs with
    | nil => rfl
    | cons c cs => exact absurd h (ne_nil c _)
  | cons b bs ih =>
    cases cs with
    | nil => exact absurd h.symm (ne_nil b _)
    | cons c cs =>
      obtain ⟨rfl, hrest⟩ := escapeByte_append_inj h
      rw [ih hrest]

/-- A name in a directory: one segment, and not that of the directory itself or
the one above. -/
structure IsName (s : List Char) : Prop where
  slash : '/' ∉ s
  length : 2 < s.length

theorem segment_inj {s t : List Char} (hs : IsName s) (ht : IsName t)
    (h : segment s = segment t) : s = t := by
  have plain {s : List Char} (hs : IsName s) :
      segment s = (Utf8.encode (String.ofList s)).flatMap escapeByte := by
    have hl := hs.length
    rw [segment, if_neg (by rintro rfl; simp at hl), if_neg (by rintro rfl; simp at hl)]
  rw [plain hs, plain ht] at h
  exact String.ofList_injective (Utf8.encode_inj (flatMap_escapeByte_inj h))

theorem segments_under {root : String} {s : List Char} (h : IsName s) :
    segments (root ++ "/" ++ String.ofList s) = segments root ++ [s] := by
  have hl := h.length
  simp only [segments, String.toList_append, String.toList_ofList, List.append_assoc,
    show "/".toList = ['/'] from rfl, List.singleton_append, pieces_append,
    pieces_of_notMem h.slash, List.filter_append]
  have nonempty : s.isEmpty = false := by
    cases s with
    | nil => simp at hl
    | cons => rfl
  simp [nonempty]

end ObjectPath

/-- Under one root, names that are stored as the same object are the same. -/
theorem Files.keyOf_under_inj {root : String} {s t : List Char} (hs : ObjectPath.IsName s)
    (ht : ObjectPath.IsName t)
    (h : keyOf (root ++ "/" ++ String.ofList s) = keyOf (root ++ "/" ++ String.ofList t)) :
    s = t := by
  have hkey := congrArg String.toList (Utf8.encode_inj h)
  simp only [ObjectPath.key, String.toList_ofList, ObjectPath.segments_under hs,
    ObjectPath.segments_under ht, List.map_append, List.map_cons, List.map_nil] at hkey
  exact ObjectPath.segment_inj hs ht (joinPieces_append_inj hkey)

theorem Files.object?_congr {path other : String} (key : keyOf path = keyOf other) (f : Files) :
    f.object? path = f.object? other := by
  simp only [object?, key]

/-- What is found at a path after an object was stored. -/
theorem Files.object?_put (f : Files) (path : String) (c : Content) (other : String) :
    (f.put path c).object? other =
      if keyOf path = keyOf other then some c else f.object? other := by
  simp only [object?, put, KeyMap.get?_insert]

end LogExport
