import Mathlib.Algebra.Group.Nat.Defs
import Mathlib.Data.List.Induction
import LogExport.Text.Digits

/-! Decimal numbers read back. A number written with any padding is a run of
digits that spells it, and a reader that takes digits as long as they come
stops right behind such a run. -/

namespace LogExport

namespace Digits

/-- The text does not go on with a digit. -/
def Ended (rest : List Char) : Prop := ∀ c ∈ rest.head?, isDigit c = false

theorem ended_nil : Ended [] := by
  intro c hc
  simp at hc

theorem ended_cons {c : Char} {rest : List Char} (h : isDigit c = false) : Ended (c :: rest) := by
  intro d hd
  simp only [List.head?_cons, Option.mem_def, Option.some.injEq] at hd
  exact hd ▸ h

theorem isDigit_eq (c : Char) : isDigit c = c.isDigit := by
  have h : ('0' ≤ c ∧ c ≤ '9') ↔ c.isDigit = true := by
    simp only [Char.isDigit, Bool.and_eq_true, decide_eq_true_eq]
    exact Iff.rfl
  unfold isDigit value?
  split
  · next hc => rw [h.1 hc]; rfl
  · next hc => rw [Bool.eq_false_iff.2 (fun hd => hc (h.2 hd))]; rfl

theorem value?_of_isDigit {c : Char} (h : isDigit c = true) :
    value? c = some (c.toNat - '0'.toNat) := by
  unfold isDigit value? at h
  unfold value?
  split at h
  · next hc => rw [if_pos hc]
  · cases h

/-- A run of digits spells the number that the library reads from it. -/
theorem number_eq_ofDigitChars {ds : List Char} (h : ∀ c ∈ ds, isDigit c = true) :
    number ds = Nat.ofDigitChars 10 ds 0 := by
  unfold number
  rw [Nat.ofDigitChars_eq_foldl]
  have key : ∀ (es : List Char), (∀ c ∈ es, isDigit c = true) → ∀ n : Nat,
      es.foldl (fun n c => 10 * n + (value? c).getD 0) n =
        es.foldl (fun n c => 10 * n + (c.toNat - '0'.toNat)) n := by
    intro es
    induction es with
    | nil => intro _ _; rfl
    | cons c es ih =>
      intro hes n
      simp only [List.foldl_cons]
      rw [value?_of_isDigit (hes c (by simp)), ih (fun d hd => hes d (by simp [hd]))]
      rfl
  exact key ds h 0

theorem number_lt {ds : List Char} (h : ∀ c ∈ ds, isDigit c = true) :
    number ds < 10 ^ ds.length := by
  rw [number_eq_ofDigitChars h]
  induction ds using List.reverseRecOn with
  | nil => simp
  | append_singleton ds c ih =>
    have hc : c.toNat - '0'.toNat < 10 := by
      have := h c (by simp)
      rw [isDigit_eq] at this
      simp only [Char.isDigit, Bool.and_eq_true, decide_eq_true_eq] at this
      have h57 : c.toNat ≤ 57 := this.2
      have h48 : '0'.toNat = 48 := rfl
      omega
    have hds := ih fun d hd => h d (by simp [hd])
    rw [Nat.ofDigitChars_append, Nat.ofDigitChars_cons, Nat.ofDigitChars_nil, List.length_append,
      List.length_singleton, Nat.pow_succ]
    omega

theorem isDigit_of_mem_toDigits {n : Nat} : ∀ c ∈ Nat.toDigits 10 n, isDigit c = true := by
  intro c hc
  rw [isDigit_eq]
  exact Nat.isDigit_of_mem_toDigits (by decide) (by decide) hc

theorem number_toDigits (n : Nat) : number (Nat.toDigits 10 n) = n := by
  rw [number_eq_ofDigitChars isDigit_of_mem_toDigits, Nat.ofDigitChars_ten_toDigits]

/-- A number is written without a zero in front. -/
theorem head?_toDigits {n : Nat} (h : 0 < n) : (Nat.toDigits 10 n).head? ≠ some '0' := by
  induction n using Nat.strongRecOn with
  | ind n ih =>
    rw [Nat.toDigits_eq_if (by decide)]
    split
    · next hn =>
      have all : ∀ k : Fin 10, 0 < k.val → Nat.digitChar k ≠ '0' := by decide
      simpa using all ⟨n, hn⟩ h
    · next hn =>
      rw [List.head?_append, Option.or_of_isSome (by simp)]
      exact ih (n / 10) (by omega) (by omega)

theorem toList_padded (width n : Nat) :
    (padded width n).toList =
      List.replicate (width - (Nat.toDigits 10 n).length) '0' ++ Nat.toDigits 10 n := by
  simp [padded, Nat.repr_eq_ofList_toDigits]

theorem isDigit_of_mem_padded {width n : Nat} : ∀ c ∈ (padded width n).toList, isDigit c = true := by
  intro c hc
  rw [toList_padded, List.mem_append] at hc
  rcases hc with hc | hc
  · rw [List.eq_of_mem_replicate hc]; rfl
  · exact isDigit_of_mem_toDigits c hc

theorem number_padded (width n : Nat) : number (padded width n).toList = n := by
  rw [number_eq_ofDigitChars isDigit_of_mem_padded, toList_padded, Nat.ofDigitChars_append,
    Nat.ofDigitChars_replicate_zero, Nat.mul_zero, Nat.ofDigitChars_ten_toDigits]

theorem padded_ne_nil (width n : Nat) : (padded width n).toList ≠ [] := by
  rw [toList_padded]
  simp

theorem length_padded {width n : Nat} (hw : 0 < width) (h : n < 10 ^ width) :
    (padded width n).toList.length = width := by
  have := (Nat.length_toDigits_le_iff (b := 10) (by decide) hw).2 h
  rw [toList_padded, List.length_append, List.length_replicate]
  omega

/-- A reader of digits takes a run of them and stops behind it. -/
theorem takeWhile_append {ds rest : List Char} (hd : ∀ c ∈ ds, isDigit c = true)
    (hr : Ended rest) : (ds ++ rest).takeWhile isDigit = ds := by
  rw [List.takeWhile_append_of_pos hd]
  cases rest with
  | nil => simp
  | cons c rest => simp [hr c rfl]

end Digits

end LogExport
