import LogExport.Proofs.Files.Keys
import LogExport.Proofs.Json.OneLine

/-! Links and object keys. A link holds a path as it was given, a key holds its
segments with all but plain characters escaped. Both are the same only if there
was nothing to drop and nothing to escape. -/

namespace LogExport

/-- Pieces without the separator can be read back from their join. -/
theorem pieces_joinPieces {sep : Char} {ps : List (List Char)} (hne : ps ≠ [])
    (h : ∀ p ∈ ps, sep ∉ p) : pieces sep (joinPieces sep ps) = ps := by
  induction ps with
  | nil => exact absurd rfl hne
  | cons p ps ih =>
    cases ps with
    | nil => exact pieces_of_notMem (h p List.mem_cons_self)
    | cons q qs =>
      simp only [joinPieces, pieces_append, pieces_of_notMem (h p List.mem_cons_self),
        List.singleton_append, List.cons.injEq, true_and]
      exact ih (List.cons_ne_nil q qs) fun r hr => h r (List.mem_cons_of_mem p hr)

theorem notMem_of_mem_pieces {sep : Char} {cs p : List Char} (h : p ∈ pieces sep cs) :
    sep ∉ p := by
  induction cs generalizing p with
  | nil =>
    obtain rfl := List.mem_singleton.1 h
    exact List.not_mem_nil
  | cons c cs ih =>
    simp only [pieces] at h
    split at h
    · rcases List.mem_cons.1 h with rfl | h
      · exact List.not_mem_nil
      · exact ih h
    · next hc =>
      cases hp : pieces sep cs with
      | nil => exact absurd hp (pieces_ne_nil sep cs)
      | cons q qs =>
        rw [hp] at h ih
        rcases List.mem_cons.1 h with rfl | h
        · intro hm
          rcases List.mem_cons.1 hm with hm | hm
          · exact hc hm.symm
          · exact ih List.mem_cons_self hm
        · exact ih (List.mem_cons_of_mem q h)

namespace ObjectPath

/-- A character that stands for itself in a key. -/
def isPlain (c : Char) : Bool := 0x20 ≤ c.toNat && c.toNat < 0x7f && !marks.contains c

/-- What a character becomes in a key. -/
def escapeChar (c : Char) : List Char := (String.utf8EncodeChar c).flatMap escapeByte

theorem toNat_byte {c : Char} (h : c.toNat < 0x80) : (UInt8.ofNat c.toNat).toNat = c.toNat := by
  rw [UInt8.toNat_ofNat']
  omega

/-- The byte of an ASCII character is reserved unless the character is plain. -/
theorem isReserved_byte {c : Char} (h : c.toNat < 0x80) :
    isReserved (UInt8.ofNat c.toNat) = !isPlain c := by
  have low : decide (UInt8.ofNat c.toNat < 0x20) = !decide (0x20 ≤ c.toNat) := by
    rw [← decide_not, decide_eq_decide, UInt8.lt_iff_toNat_lt, toNat_byte h, Nat.not_le]
    rfl
  have high : decide (0x7f ≤ UInt8.ofNat c.toNat) = !decide (c.toNat < 0x7f) := by
    rw [← decide_not, decide_eq_decide, UInt8.le_iff_toNat_le, toNat_byte h, Nat.not_lt]
    rfl
  rw [isReserved, isPlain, low, high, toNat_byte h, Char.ofNat_toNat, Bool.not_and, Bool.not_and,
    Bool.not_not]

theorem length_escapeByte {b : UInt8} (h : isReserved b = true) : (escapeByte b).length = 3 := by
  simp [escapeByte, h, Digits.hexByte]

theorem escapeChar_of_isPlain {c : Char} (h : isPlain c = true) : escapeChar c = [c] := by
  rcases Utf8.utf8EncodeChar_cases c with ⟨small, single⟩ | ⟨big, -⟩
  · rw [escapeChar, single, List.flatMap_singleton, escapeByte, isReserved_byte small, h,
      toNat_byte small, Char.ofNat_toNat]
    rfl
  · simp only [isPlain, Bool.and_eq_true, decide_eq_true_eq] at h
    omega

/-- A character that is not plain takes three characters at least. -/
theorem two_lt_length_escapeChar {c : Char} (h : isPlain c = false) :
    2 < (escapeChar c).length := by
  rcases Utf8.utf8EncodeChar_cases c with ⟨small, single⟩ | ⟨-, some_byte, all⟩
  · rw [escapeChar, single, List.flatMap_singleton,
      length_escapeByte (by rw [isReserved_byte small, h]; rfl)]
    decide
  · obtain ⟨b, bs, hbs⟩ := List.exists_cons_of_ne_nil some_byte
    have reserved : isReserved b = true := by
      have hb := all b (hbs ▸ List.mem_cons_self)
      have high : (0x7f : UInt8) ≤ b := by
        rw [UInt8.le_iff_toNat_le]
        exact Nat.le_trans (by decide) hb
      simp [isReserved, high]
    rw [escapeChar, hbs, List.flatMap_cons, List.length_append, length_escapeByte reserved]
    omega

theorem segment_eq {s : List Char} (here : s ≠ ['.']) (up : s ≠ ['.', '.']) :
    segment s = s.flatMap escapeChar := by
  rw [segment, if_neg here, if_neg up, Utf8.encode_eq, String.toList_ofList, List.flatMap_assoc]
  rfl

theorem flatMap_escapeChar_of_plain {s : List Char} (h : ∀ c ∈ s, isPlain c = true) :
    s.flatMap escapeChar = s := by
  induction s with
  | nil => rfl
  | cons c s ih =>
    rw [List.flatMap_cons, escapeChar_of_isPlain (h c List.mem_cons_self),
      ih fun d hd => h d (List.mem_cons_of_mem c hd), List.singleton_append]

/-- Nothing gets shorter by escapes. -/
theorem length_le_flatMap_escapeChar (s : List Char) :
    s.length ≤ (s.flatMap escapeChar).length := by
  induction s with
  | nil => exact Nat.le_refl 0
  | cons c s ih =>
    have hc : 0 < (escapeChar c).length := by
      cases h : isPlain c with
      | true => rw [escapeChar_of_isPlain h]; exact Nat.one_pos
      | false => exact Nat.lt_trans (by decide) (two_lt_length_escapeChar h)
    rw [List.flatMap_cons, List.length_append, List.length_cons]
    omega

/-- And only plain characters keep their length. -/
theorem plain_of_flatMap_escapeChar {s : List Char} (h : s.flatMap escapeChar = s) :
    ∀ c ∈ s, isPlain c = true := by
  induction s with
  | nil => intro c hc; cases hc
  | cons c s ih =>
    cases hc : isPlain c with
    | true =>
      rw [List.flatMap_cons, escapeChar_of_isPlain hc, List.singleton_append, List.cons.injEq] at h
      intro d hd
      rcases List.mem_cons.1 hd with rfl | hd
      · exact hc
      · exact ih h.2 d hd
    | false =>
      have hl := congrArg List.length h
      have := two_lt_length_escapeChar hc
      have := length_le_flatMap_escapeChar s
      rw [List.flatMap_cons, List.length_append, List.length_cons] at hl
      omega

/-- A segment that a key holds as it is. -/
structure IsKept (s : List Char) : Prop where
  nonempty : s ≠ []
  here : s ≠ ['.']
  up : s ≠ ['.', '.']
  plain : ∀ c ∈ s, isPlain c = true

instance (s : List Char) : Decidable (IsKept s) :=
  decidable_of_iff (s ≠ [] ∧ s ≠ ['.'] ∧ s ≠ ['.', '.'] ∧ s.all isPlain = true)
    ⟨fun ⟨nonempty, here, up, plain⟩ => ⟨nonempty, here, up, List.all_eq_true.1 plain⟩,
      fun h => ⟨h.nonempty, h.here, h.up, List.all_eq_true.2 h.plain⟩⟩

theorem segment_eq_iff {s : List Char} (hs : s ≠ []) : segment s = s ↔ IsKept s := by
  by_cases here : s = ['.']
  · refine iff_of_false (fun h => ?_) fun h => h.here here
    rw [segment, if_pos here, here] at h
    exact absurd h (by decide)
  by_cases up : s = ['.', '.']
  · refine iff_of_false (fun h => ?_) fun h => h.up up
    rw [segment, if_neg here, if_pos up, up] at h
    exact absurd h (by decide)
  rw [segment_eq here up]
  exact ⟨fun h => ⟨hs, here, up, plain_of_flatMap_escapeChar h⟩,
    fun h => flatMap_escapeChar_of_plain h.plain⟩

theorem slash_notMem_escapeByte {b : UInt8} (h : b.toNat ≠ 47) : '/' ∉ escapeByte b := by
  have digit : ∀ n : Fin 16, Digits.hexDigit true n ≠ '/' := by decide
  have hb := b.toNat_lt
  unfold escapeByte
  split
  · simp only [Digits.hexByte, String.toList_ofList, List.mem_cons, List.not_mem_nil, or_false,
      not_or]
    exact ⟨by decide, (digit ⟨b.toNat / 16, by omega⟩).symm, (digit ⟨b.toNat % 16, by omega⟩).symm⟩
  · rw [List.mem_singleton]
    intro hc
    have hn := congrArg Char.toNat hc
    rw [toNat_ofNat hb] at hn
    exact h hn.symm

theorem slash_notMem_escapeChar {c : Char} (h : c ≠ '/') : '/' ∉ escapeChar c := by
  intro hm
  obtain ⟨b, hb, hm⟩ := List.mem_flatMap.1 hm
  refine slash_notMem_escapeByte ?_ hm
  rcases Utf8.utf8EncodeChar_cases c with ⟨small, single⟩ | ⟨-, -, all⟩
  · rw [single, List.mem_singleton] at hb
    rw [hb, toNat_byte small]
    exact fun hc => h (Char.toNat_inj.1 hc)
  · have := all b hb
    omega

theorem slash_notMem_segment {s : List Char} (h : '/' ∉ s) : '/' ∉ segment s := by
  by_cases here : s = ['.']
  · rw [segment, if_pos here]
    decide
  by_cases up : s = ['.', '.']
  · rw [segment, if_neg here, if_pos up]
    decide
  rw [segment_eq here up]
  intro hm
  obtain ⟨c, hc, hm⟩ := List.mem_flatMap.1 hm
  exact slash_notMem_escapeChar (fun he => h (he ▸ hc)) hm

/-- The key of a path is cut at the slashes of the path. -/
theorem pieces_key {path : String} (some_segment : segments path ≠ []) :
    pieces '/' (key path).toList = (segments path).map segment := by
  rw [key, String.toList_ofList]
  refine pieces_joinPieces (by simpa using some_segment) fun p hp => ?_
  obtain ⟨s, hs, rfl⟩ := List.mem_map.1 hp
  exact slash_notMem_segment (notMem_of_mem_pieces (List.mem_filter.1 hs).1)

/-- When an object is stored under the path itself: exactly if every segment of
it is kept. -/
theorem key_eq_iff {path : String} (hne : path ≠ "") :
    key path = path ↔ ∀ s ∈ pieces '/' path.toList, IsKept s := by
  have text : (key path).toList = joinPieces '/' ((segments path).map segment) :=
    String.toList_ofList
  constructor
  · intro h
    have hl := congrArg String.toList h
    rw [text] at hl
    -- The key is cut at the same slashes as the path, so no segment was dropped.
    have cut : (segments path).map segment = pieces '/' path.toList := by
      have some_segment : (segments path).map segment ≠ [] := by
        intro none
        rw [none] at hl
        exact hne (String.toList_injective hl.symm)
      rw [← hl, ← text]
      exact (pieces_key fun none => some_segment (by rw [none]; rfl)).symm
    have all : segments path = pieces '/' path.toList := by
      refine List.filter_eq_self.2 (List.length_filter_eq_length_iff.1 ?_)
      have hlen := congrArg List.length cut
      rwa [List.length_map] at hlen
    rw [all] at cut
    intro s hs
    have hs' := hs
    rw [← all] at hs'
    have filled : s ≠ [] := by simpa using (List.mem_filter.1 hs').2
    exact (segment_eq_iff filled).1 (List.map_inj_left.1 (cut.trans (List.map_id _).symm) s hs)
  · intro h
    apply String.toList_injective
    have all : segments path = pieces '/' path.toList :=
      List.filter_eq_self.2 fun s hs => by simpa using (h s hs).nonempty
    have same : (pieces '/' path.toList).map segment = pieces '/' path.toList :=
      (List.map_inj_left.2 fun s hs => (segment_eq_iff (h s hs).nonempty).2 (h s hs)).trans
        (List.map_id _)
    rw [text, all, same, joinPieces_pieces]

end ObjectPath

namespace Files

/-- Files that are stored as the same object have the same directory. -/
theorem keyOf_root_eq {a b : String} {s t : List Char} (hs : ObjectPath.IsName s)
    (ht : ObjectPath.IsName t)
    (h : keyOf (a ++ "/" ++ String.ofList s) = keyOf (b ++ "/" ++ String.ofList t)) :
    keyOf a = keyOf b := by
  have same := congrArg (fun k : String => pieces '/' k.toList) (Utf8.encode_inj h)
  rw [ObjectPath.pieces_key (by simp [ObjectPath.segments_under hs]),
    ObjectPath.pieces_key (by simp [ObjectPath.segments_under ht]), ObjectPath.segments_under hs,
    ObjectPath.segments_under ht, List.map_append, List.map_append] at same
  rw [keyOf, keyOf, ObjectPath.key, ObjectPath.key, (List.append_inj' same rfl).1]

/-- All slashes at the end of a base are dropped, and nothing else. -/
theorem trimmedBase_spec (base : String) :
    (∃ n, base.toList = (trimmedBase base).toList ++ List.replicate n '/') ∧
      (trimmedBase base).toList.getLast? ≠ some '/' := by
  have text : (trimmedBase base).toList = (base.toList.reverse.dropWhile (· == '/')).reverse :=
    String.toList_ofList
  rw [text]
  constructor
  · have slashes : ∀ c ∈ base.toList.reverse.takeWhile (· == '/'), c = '/' := fun c hc => by
      simpa using List.all_eq_true.1 List.all_takeWhile c hc
    refine ⟨(base.toList.reverse.takeWhile (· == '/')).length, ?_⟩
    rw [← List.reverse_replicate, ← List.eq_replicate_of_mem slashes, ← List.reverse_append,
      List.takeWhile_append_dropWhile, List.reverse_reverse]
  · rw [List.getLast?_reverse]
    have first := List.head?_dropWhile_not (· == '/') base.toList.reverse
    intro slash
    rw [slash] at first
    exact absurd first (by decide)

/-- A link names the key of the stored object if that is the path. -/
theorem link_eq_iff (f : Files) (path : String) :
    f.link path = trimmedBase f.linkBase ++ "/" ++ ObjectPath.key path ↔
      ObjectPath.key path = path := by
  refine ⟨fun h => ?_, fun h => by rw [h]; rfl⟩
  have hl := congrArg String.toList h
  simp only [link, linkUnder, String.toList_append] at hl
  exact (String.toList_injective (List.append_cancel_left hl)).symm

end Files

end LogExport
