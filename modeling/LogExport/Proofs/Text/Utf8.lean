import Mathlib.Tactic.SplitIfs
import LogExport.Text.Utf8

/-! The bytes of strings: which ones they are, those of each character, and that they are
in the order of the strings. -/

namespace LogExport

namespace Utf8

variable {m n v w : Nat} {c d : Char} {x y : Bytes}

theorem isValid_iff {bs : Bytes} : ByteArray.IsValidUTF8 ⟨bs.toArray⟩ ↔ ∃ s, encode s = bs := by
  constructor
  · exact fun valid => ⟨⟨⟨bs.toArray⟩, valid⟩, rfl⟩
  · rintro ⟨s, rfl⟩
    exact s.isValidUTF8

theorem encode_eq (s : String) : encode s = s.toList.flatMap String.utf8EncodeChar := by
  rw [encode, String.toUTF8, ← String.utf8Encode_toList, List.utf8Encode,
    List.toList_data_toByteArray]

theorem encode_append (s t : String) : encode (s ++ t) = encode s ++ encode t := by
  rw [encode_eq, encode_eq, encode_eq, String.toList_append, List.flatMap_append]

/-! ### Characters -/

/-- The bytes of a character are all beyond ASCII, unless it is its only byte. -/
theorem utf8EncodeChar_cases (c : Char) :
    c.toNat < 0x80 ∧ String.utf8EncodeChar c = [UInt8.ofNat c.toNat] ∨
      0x80 ≤ c.toNat ∧ String.utf8EncodeChar c ≠ [] ∧
        ∀ b ∈ String.utf8EncodeChar c, 0x80 ≤ b.toNat := by
  have v : c.val.toNat = c.toNat := rfl
  unfold String.utf8EncodeChar
  dsimp only
  rw [v]
  split_ifs with one
  · exact .inl ⟨by omega, rfl⟩
  all_goals
    refine .inr ⟨by omega, List.cons_ne_nil _ _, fun b hb => ?_⟩
    simp only [List.mem_cons, List.not_mem_nil, or_false] at hb
    rcases hb with rfl | rfl | rfl | rfl <;> rw [UInt8.toNat_ofNat'] <;> omega

theorem ofNat_cons_lt_iff (hm : m < 256) (hn : n < 256) :
    UInt8.ofNat m :: x < UInt8.ofNat n :: y ↔ m < n ∨ m = n ∧ x < y := by
  rw [List.cons_lt_cons_iff, UInt8.lt_iff_toNat_lt, ← UInt8.toNat_inj,
    UInt8.toNat_ofNat_of_lt' hm, UInt8.toNat_ofNat_of_lt' hn]

/-- The smaller of two numbers has the smaller digit in base 64 where they first differ. -/
theorem digits_lt (h : v < w) (hw : w < 0x110000) :
    v / 262144 % 8 < w / 262144 % 8 ∨ v / 262144 % 8 = w / 262144 % 8 ∧
      (v / 4096 % 64 < w / 4096 % 64 ∨ v / 4096 % 64 = w / 4096 % 64 ∧
        (v / 64 % 64 < w / 64 % 64 ∨ v / 64 % 64 = w / 64 % 64 ∧ v % 64 < w % 64)) := by
  have hv₃ : v / 262144 < 8 := by omega
  have hw₃ : w / 262144 < 8 := by omega
  rw [Nat.mod_eq_of_lt hv₃, Nat.mod_eq_of_lt hw₃]
  by_cases h₁ : v / 64 = w / 64 <;> by_cases h₂ : v / 4096 = w / 4096 <;> omega

/-- A character with more bytes begins with a larger one, and of as many the digits decide. -/
theorem char_append_lt (h : c < d) :
    String.utf8EncodeChar c ++ x < String.utf8EncodeChar d ++ y := by
  have lt : c.val.toNat < d.val.toNat := h
  have valid : d.val.toNat < 0x110000 := by
    rcases d.valid with low | ⟨-, high⟩
    · exact Nat.lt_trans low (by decide)
    · exact high
  have digits := digits_lt lt valid
  simp only [String.utf8EncodeChar]
  split_ifs <;>
    simp (disch := omega) only [List.cons_append, List.nil_append, ofNat_cons_lt_iff] <;>
    omega

/-! ### Strings -/

theorem append_lt_append_iff (z : Bytes) : z ++ x < z ++ y ↔ x < y := by
  induction z with
  | nil => rfl
  | cons b z ih => simpa [List.cons_lt_cons_iff] using ih

theorem chars_lt_iff {l m : List Char} :
    l.flatMap String.utf8EncodeChar < m.flatMap String.utf8EncodeChar ↔ l < m := by
  induction l generalizing m with
  | nil =>
    cases m with
    | nil => simp
    | cons d m =>
      rw [List.flatMap_nil, List.flatMap_cons]
      cases h : String.utf8EncodeChar d with
      | nil => exact absurd h String.utf8EncodeChar_ne_nil
      | cons => simp
  | cons c l ih =>
    cases m with
    | nil => simp
    | cons d m =>
      rw [List.flatMap_cons, List.flatMap_cons, List.cons_lt_cons_iff, ← ih]
      rcases Std.lt_trichotomy c d with h | rfl | h
      · exact iff_of_true (char_append_lt h) (.inl h)
      · rw [append_lt_append_iff]
        exact ⟨fun h => .inr ⟨rfl, h⟩, fun h => (h.resolve_left Std.lt_irrefl).2⟩
      · refine iff_of_false (Std.not_gt_of_lt (char_append_lt h)) ?_
        rintro (h' | ⟨rfl, -⟩)
        · exact Std.not_gt_of_lt h h'
        · exact Std.lt_irrefl h

theorem encode_lt_iff {a b : String} : encode a < encode b ↔ a < b := by
  rw [encode_eq, encode_eq, chars_lt_iff]
  exact Iff.rfl

end Utf8

end LogExport
