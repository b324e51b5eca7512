import LogExport.Proofs.Json.RoundTrip
import LogExport.Session.Names

/-! What the names of an export tell. User, name and millisecond can be read
off an id whose name has no slash, and a path off the root of its session. -/

namespace LogExport

section Cuts

variable {α : Type}

/-- Two texts with a mark in them are cut at its first occurrence. -/
theorem append_cons_inj {c : α} {a b x y : List α} (hx : c ∉ x) (hy : c ∉ y)
    (h : x ++ c :: a = y ++ c :: b) : x = y ∧ a = b := by
  induction x generalizing y with
  | nil =>
    cases y with
    | nil => exact ⟨rfl, (List.cons.inj h).2⟩
    | cons d y => exact absurd ((List.cons.inj h).1 ▸ List.mem_cons_self) hy
  | cons d x ih =>
    cases y with
    | nil => exact absurd ((List.cons.inj h).1 ▸ List.mem_cons_self) hx
    | cons e y =>
      obtain ⟨rfl, hrest⟩ := List.cons.inj h
      obtain ⟨rfl, hab⟩ := ih (List.not_mem_of_not_mem_cons hx) (List.not_mem_of_not_mem_cons hy) hrest
      exact ⟨rfl, hab⟩

/-- And so they are at its last occurrence. -/
theorem append_cons_inj_right {c : α} {a b x y : List α} (hx : c ∉ x) (hy : c ∉ y)
    (h : a ++ c :: x = b ++ c :: y) : a = b ∧ x = y := by
  have hr := congrArg List.reverse h
  simp only [List.reverse_append, List.reverse_cons, List.append_assoc, List.singleton_append] at hr
  obtain ⟨hxy, hab⟩ := append_cons_inj (by simpa using hx) (by simpa using hy) hr
  exact ⟨List.reverse_inj.1 hab, List.reverse_inj.1 hxy⟩

end Cuts

theorem toString_natCast (k : Nat) : (toString (k : Int)).toList = Nat.toDigits 10 k :=
  Json.text_nat k

theorem toString_negSucc (k : Nat) :
    (toString (Int.negSucc k)).toList = '-' :: Nat.toDigits 10 (k + 1) :=
  Json.text_negSucc k

/-- A whole number is written with digits and a sign. -/
theorem mem_toString {n : Int} {c : Char} (h : c ∈ (toString n).toList) :
    Digits.isDigit c = true ∨ c = '-' := by
  cases n with
  | ofNat k =>
    rw [show Int.ofNat k = (k : Int) from rfl, toString_natCast] at h
    exact .inl (Digits.isDigit_of_mem_toDigits c h)
  | negSucc k =>
    rw [toString_negSucc, List.mem_cons] at h
    exact h.symm.imp_left (Digits.isDigit_of_mem_toDigits c)

theorem toString_inj {m n : Int} (h : (toString m).toList = (toString n).toList) : m = n := by
  have digits {a b : Nat} (h : Nat.toDigits 10 a = Nat.toDigits 10 b) : a = b := by
    rw [← Digits.number_toDigits a, h, Digits.number_toDigits]
  have sign {a b : Nat} (h : Nat.toDigits 10 a = '-' :: Nat.toDigits 10 b) : False := by
    have hd := Digits.isDigit_of_mem_toDigits (n := a) '-' (by rw [h]; exact List.mem_cons_self)
    cases hd
  cases m with
  | ofNat a =>
    cases n with
    | ofNat b =>
      rw [show Int.ofNat a = (a : Int) from rfl, show Int.ofNat b = (b : Int) from rfl,
        toString_natCast, toString_natCast] at h
      rw [digits h]
    | negSucc b =>
      rw [show Int.ofNat a = (a : Int) from rfl, toString_natCast, toString_negSucc] at h
      exact (sign h).elim
  | negSucc a =>
    cases n with
    | ofNat b =>
      rw [show Int.ofNat b = (b : Int) from rfl, toString_natCast, toString_negSucc] at h
      exact (sign h.symm).elim
    | negSucc b =>
      rw [toString_negSucc, toString_negSucc] at h
      have := digits (List.cons.inj h).2
      omega

namespace Session

/-- An id tells user, name and millisecond, since names have no slash. -/
theorem idOf_inj {user user' name name' : String} {t t' : Instant} (hn : '/' ∉ name.toList)
    (hn' : '/' ∉ name'.toList) (h : idOf user name t = idOf user' name' t') :
    user = user' ∧ name = name' ∧ t.millis = t'.millis := by
  have slash {name : String} (hn : '/' ∉ name.toList) (t : Instant) :
      '/' ∉ name.toList ++ '_' :: (toString t.millis).toList := by
    simp only [List.mem_append, List.mem_cons, not_or]
    refine ⟨hn, by decide, fun hm => ?_⟩
    rcases mem_toString hm with hd | hd <;> cases hd
  have under (t : Instant) : '_' ∉ (toString t.millis).toList := by
    intro hm
    rcases mem_toString hm with hd | hd <;> cases hd
  have hl := congrArg String.toList h
  simp only [idOf, String.toList_append, List.append_assoc] at hl
  obtain ⟨hu, hrest⟩ := append_cons_inj_right (slash hn t) (slash hn' t') hl
  obtain ⟨hname, ht⟩ := append_cons_inj_right (under t) (under t') hrest
  exact ⟨String.toList_injective hu, String.toList_injective hname, toString_inj ht⟩

theorem manifestPathUnder_inj {a b : String} (h : manifestPathUnder a = manifestPathUnder b) :
    a = b := by
  have hl := congrArg String.toList h
  simp only [manifestPathUnder, String.toList_append] at hl
  exact String.toList_injective (List.append_cancel_right hl)

/-- The file of a part is not mistaken for a manifest. -/
theorem pathUnder_ne_manifestPathUnder (a b : String) (p : Partition) :
    p.pathUnder a ≠ manifestPathUnder b := by
  intro h
  have hl := congrArg (fun s => s.toList.reverse.head?) h
  simp [manifestPathUnder, Partition.pathUnder, String.toList_append] at hl

end Session

end LogExport
