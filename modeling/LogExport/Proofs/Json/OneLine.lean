import LogExport.Files.Gzip
import LogExport.Proofs.Session.Names
import LogExport.Proofs.Text.Utf8

/-! The compact text of a value has no control characters, whatever its strings
hold, so it stays on one line. -/

namespace LogExport

/-- No character of the text is a control character. -/
def Printable (cs : List Char) : Prop := ∀ c ∈ cs, 0x20 ≤ c.toNat

instance : DecidablePred Printable := fun cs =>
  List.decidableBAll (fun c : Char => 0x20 ≤ c.toNat) cs

section Printable

variable {c : Char} {cs ds : List Char}

theorem printable_nil : Printable [] := fun _ h => by cases h

theorem printable_cons : Printable (c :: cs) ↔ 0x20 ≤ c.toNat ∧ Printable cs :=
  List.forall_mem_cons

theorem printable_append : Printable (cs ++ ds) ↔ Printable cs ∧ Printable ds :=
  List.forall_mem_append

theorem Printable.subset (h : Printable ds) (sub : cs ⊆ ds) : Printable cs :=
  fun c hc => h c (sub hc)

theorem printable_replicate {n : Nat} (h : 0x20 ≤ c.toNat) : Printable (List.replicate n c) :=
  fun _ hd => List.eq_of_mem_replicate hd ▸ h

theorem printable_of_isDigit (h : Digits.isDigit c = true) : 0x20 ≤ c.toNat := by
  rw [Digits.isDigit_eq, Char.isDigit, Bool.and_eq_true, decide_eq_true_eq, decide_eq_true_eq] at h
  have low : (48 : UInt32) ≤ c.val := h.1
  rw [UInt32.le_iff_toNat_le] at low
  exact Nat.le_trans (by decide) low

theorem printable_toDigits (n : Nat) : Printable (Nat.toDigits 10 n) :=
  fun c hc => printable_of_isDigit (Digits.isDigit_of_mem_toDigits c hc)

theorem printable_nat (n : Nat) : Printable (toString n).toList := by
  rw [Nat.toString_eq_repr, Nat.toList_repr]
  exact printable_toDigits n

theorem printable_int (n : Int) : Printable (toString n).toList := by
  intro c hc
  rcases mem_toString hc with digit | rfl
  · exact printable_of_isDigit digit
  · decide

theorem printable_hexDigit : ∀ n < 16, 0x20 ≤ (Digits.hexDigit false n).toNat := by decide

end Printable

namespace Binary64

/-- The digits of a number are digits. -/
theorem printable_shortest (x : Binary64) : Printable x.shortest.1 := by
  intro c hc
  have digit := (List.dropWhile_sublist _).subset (List.mem_reverse.1 hc)
  exact printable_nat _ c (List.mem_reverse.1 digit)

theorem printable_text (x : Binary64) : Printable x.text.toList := by
  have sign : Printable (if x.neg then "-" else "").toList := by split <;> decide
  have zeros (n : Nat) : Printable (List.replicate n '0') := printable_replicate (by decide)
  have digits := x.printable_shortest
  have part {cs : List Char} (sub : cs ⊆ x.shortest.1) : Printable cs := digits.subset sub
  unfold text
  generalize (if x.neg then "-" else "") = mark at sign ⊢
  split_ifs
  · rw [String.toList_append, printable_append]
    exact ⟨sign, by decide⟩
  rw [String.toList_append, printable_append, String.toList_ofList]
  refine ⟨sign, ?_⟩
  dsimp only
  split
  · -- positional
    rw [printable_append, printable_append, printable_cons]
    refine ⟨⟨part (List.take_subset _ _), zeros _⟩, by decide, ?_⟩
    split
    · decide
    · exact part (List.drop_subset _ _)
  split
  · rw [List.cons_append, List.cons_append, printable_cons, printable_cons, printable_append]
    exact ⟨by decide, by decide, zeros _, digits⟩
  · -- with an exponent
    rw [printable_append, printable_cons, printable_cons]
    refine ⟨?_, by decide, by split <;> decide, printable_nat _⟩
    split
    · next h => exact h ▸ digits
    · next h =>
      rw [h, printable_cons] at digits
      exact printable_cons.2 ⟨digits.1, printable_cons.2 ⟨by decide, digits.2⟩⟩
    · exact printable_nil

end Binary64

namespace Json

theorem printable_escaped (c : Char) : Printable (escaped c) := by
  unfold escaped
  split_ifs with _ _ _ _ _ _ _ control
  · decide
  · decide
  · decide
  · decide
  · decide
  · decide
  · decide
  · simp only [printable_cons]
    exact ⟨by decide, by decide, by decide, by decide, printable_hexDigit _ (by omega),
      printable_hexDigit _ (by omega), printable_nil⟩
  · exact printable_cons.2 ⟨Nat.le_of_not_lt control, printable_nil⟩

theorem printable_quoted (s : String) : Printable (quoted s) := by
  rw [quoted, printable_cons, printable_append, printable_cons]
  refine ⟨by decide, fun c hc => ?_, by decide, printable_nil⟩
  obtain ⟨d, -, hd⟩ := List.mem_flatMap.1 hc
  exact printable_escaped d c hd

theorem printable_joined {texts : List (List Char)} (h : ∀ cs ∈ texts, Printable cs) :
    Printable (joined ',' texts) := by
  induction texts with
  | nil => exact printable_nil
  | cons cs texts ih =>
    have rest := ih fun ds hd => h ds (List.mem_cons_of_mem cs hd)
    cases texts with
    | nil => exact h cs List.mem_cons_self
    | cons ds texts =>
      rw [joined, printable_append, printable_cons]
      exact ⟨h cs List.mem_cons_self, by decide, rest⟩
      nofun

mutual

theorem printable_chars : (j : Json) → Printable j.chars
  | null => by decide
  | bool true => by decide
  | bool false => by decide
  | number (.whole n) => printable_int n
  | number (.double x) => x.printable_text
  | string s => printable_quoted s
  | array xs => by
    rw [chars, printable_append, printable_cons]
    exact ⟨⟨by decide, printable_joined (printable_itemChars xs)⟩, by decide⟩
  | object ms => by
    rw [chars, printable_append, printable_cons]
    exact ⟨⟨by decide, printable_joined (printable_memberChars ms)⟩, by decide⟩

theorem printable_itemChars : (xs : List Json) → ∀ cs ∈ itemChars xs, Printable cs
  | [] => fun _ h => by cases h
  | x :: xs => List.forall_mem_cons.2 ⟨printable_chars x, printable_itemChars xs⟩

theorem printable_memberChars :
    (ms : List (String × Json)) → ∀ cs ∈ memberChars ms, Printable cs
  | [] => fun _ h => by cases h
  | (k, x) :: ms => by
    refine List.forall_mem_cons.2 ⟨?_, printable_memberChars ms⟩
    rw [printable_append, printable_cons]
    exact ⟨printable_quoted k, by decide, printable_chars x⟩

end

end Json

/-! ### Bytes -/

namespace Utf8

/-- A byte below the printable ones comes from a character below them. -/
theorem le_of_mem_utf8EncodeChar {c : Char} {b : UInt8} (h : 0x20 ≤ c.toNat)
    (hb : b ∈ String.utf8EncodeChar c) : 0x20 ≤ b.toNat := by
  rcases utf8EncodeChar_cases c with ⟨small, single⟩ | ⟨-, -, beyond⟩
  · rw [single, List.mem_singleton] at hb
    rw [hb, UInt8.toNat_ofNat']
    omega
  · exact Nat.le_trans (by decide) (beyond b hb)

theorem printable_encode {s : String} (h : Printable s.toList) {b : UInt8} (hb : b ∈ encode s) :
    0x20 ≤ b.toNat := by
  rw [encode_eq] at hb
  obtain ⟨c, hc, hb⟩ := List.mem_flatMap.1 hb
  exact le_of_mem_utf8EncodeChar (h c hc) hb

end Utf8

/-- The compact text of a value has no line break in it. -/
theorem Json.newline_notMem_text (j : Json) : (0x0A : UInt8) ∉ Utf8.encode j.text := by
  intro h
  have printable : Printable j.text.toList := by
    rw [text, String.toList_ofList]
    exact j.printable_chars
  exact absurd (Utf8.printable_encode printable h) (by decide)

end LogExport
