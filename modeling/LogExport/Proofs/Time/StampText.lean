import Mathlib.Data.List.TakeWhile
import LogExport.Proofs.Text.Decimal
import LogExport.Proofs.Time.Calendar
import LogExport.Time.Stamp

/-! Written moments read back. The text of a moment is the same moment again,
with one exception: a second 60 that does not follow a second 59 is written as
the second after it, and is that one when it is read. -/

namespace LogExport

/-! ### Reading one field -/

namespace Blank

theorem isBlank_of_isDigit {c : Char} (h : Digits.isDigit c = true) : isBlank c = false := by
  rw [Digits.isDigit_eq] at h
  simp only [Char.isDigit, Bool.and_eq_true, decide_eq_true_eq] at h
  have h0 : 48 ≤ c.toNat := h.1
  have h1 : c.toNat ≤ 57 := h.2
  simp only [isBlank, Bool.or_eq_false_iff, Bool.and_eq_false_iff, beq_eq_false_iff_ne,
    decide_eq_false_iff_not]
  omega

theorem trimLeft_cons {c : Char} (h : isBlank c = false) (cs : List Char) :
    trimLeft (c :: cs) = c :: cs := by
  simp [trimLeft, h]

theorem trimLeft_digits {ds : List Char} (hd : ∀ c ∈ ds, Digits.isDigit c = true) (hn : ds ≠ [])
    (rest : List Char) : trimLeft (ds ++ rest) = ds ++ rest := by
  cases ds with
  | nil => exact absurd rfl hn
  | cons c ds => exact trimLeft_cons (isBlank_of_isDigit (hd c (by simp))) _

end Blank

namespace Stamp

open Digits

theorem readChar_cons {c : Char} (h : Blank.isBlank c = false) (rest : List Char) :
    readChar c (c :: rest) = some rest := by
  simp [readChar, Blank.trimLeft_cons h]

/-- A number of exactly as many digits as are read at most. -/
theorem readNumber_append {most : Nat} {ds : List Char} (hd : ∀ c ∈ ds, isDigit c = true)
    (hl : ds.length = most) (hm : 0 < most) (rest : List Char) :
    readNumber most (ds ++ rest) = some (number ds, rest) := by
  have hn : ds ≠ [] := by
    rintro rfl
    simp at hl
    omega
  have ht : ((ds ++ rest).take most).takeWhile isDigit = ds := by
    rw [List.take_left' hl]
    simpa using takeWhile_append hd ended_nil
  unfold readNumber
  rw [Blank.trimLeft_digits hd hn]
  simp only [ht]
  rw [if_neg (by simpa using hn), List.drop_left]

theorem readNumber_two {n : Nat} (h : n < 100) (rest : List Char) :
    readNumber 2 ((WallClock.two n).toList ++ rest) = some (n, rest) := by
  unfold WallClock.two
  rw [readNumber_append isDigit_of_mem_padded (length_padded (by decide) (by simpa using h))
    (by decide), number_padded]

theorem readYear_yearText (y : Int) {rest : List Char} (hr : Ended rest) :
    readYear ((WallClock.yearText y).toList ++ rest) = some (y, rest) := by
  have signed : ∀ n : Nat, ((padded 4 n).toList ++ rest).takeWhile isDigit = (padded 4 n).toList :=
    fun n => takeWhile_append isDigit_of_mem_padded hr
  have hne : ∀ n : Nat, ((padded 4 n).toList).isEmpty = false := fun n => by
    simpa using padded_ne_nil 4 n
  unfold WallClock.yearText
  split
  · next hy =>
    have hd : ∀ c ∈ (padded 4 y.toNat).toList, isDigit c = true := isDigit_of_mem_padded
    have hl : (padded 4 y.toNat).toList.length = 4 := length_padded (by decide) (by omega)
    have hnum : readNumber 4 ((padded 4 y.toNat).toList ++ rest) = some (y.toNat, rest) := by
      rw [readNumber_append hd hl (by decide), number_padded]
    unfold readYear
    rw [Blank.trimLeft_digits hd (padded_ne_nil _ _)]
    split
    · next h =>
      obtain ⟨c, cs, hcs⟩ := List.exists_cons_of_ne_nil (padded_ne_nil 4 y.toNat)
      rw [hcs, List.cons_append, List.cons.injEq] at h
      exact absurd (hd c (by simp [hcs])) (by rw [h.1]; decide)
    · next h =>
      obtain ⟨c, cs, hcs⟩ := List.exists_cons_of_ne_nil (padded_ne_nil 4 y.toNat)
      rw [hcs, List.cons_append, List.cons.injEq] at h
      exact absurd (hd c (by simp [hcs])) (by rw [h.1]; decide)
    · rw [hnum]
      simp [hy.1]
  · next hy =>
    unfold readYear
    by_cases hneg : y < 0
    · rw [if_pos hneg, String.toList_append,
        show "-".toList = ['-'] from rfl, List.cons_append, List.nil_append, List.cons_append,
        Blank.trimLeft_cons (by decide)]
      simp only [signed, hne, number_padded, List.drop_left]
      simp only [Bool.false_eq_true, if_false, Option.some.injEq, Prod.mk.injEq, and_true]
      omega
    · rw [if_neg hneg, String.toList_append,
        show "+".toList = ['+'] from rfl, List.cons_append, List.nil_append, List.cons_append,
        Blank.trimLeft_cons (by decide)]
      simp only [signed, hne, number_padded, List.drop_left]
      simp only [Bool.false_eq_true, if_false, Option.some.injEq, Prod.mk.injEq, and_true]
      omega

/-- A point and digits that are not more than nine. -/
theorem readFraction_padded {width n : Nat} (hw : 0 < width) (h9 : width ≤ 9) (hn : n < 10 ^ width)
    {rest : List Char} (hr : Ended rest) :
    readFraction ('.' :: ((padded width n).toList ++ rest)) = some (n * 10 ^ (9 - width), rest) := by
  have hl := length_padded hw hn
  have hd : ∀ c ∈ (padded width n).toList, isDigit c = true := isDigit_of_mem_padded
  have ht := takeWhile_append hd hr
  have hne : ((padded width n).toList).isEmpty = false := by simpa using padded_ne_nil width n
  have h9' : (padded width n).toList.take 9 = (padded width n).toList :=
    List.take_of_length_le (by omega)
  simp [readFraction, ht, hne, h9', number_padded, hl, List.drop_left' hl]

theorem readFraction_fraction {nano : Nat} (h : nano < 1000000000) :
    readFraction ((WallClock.fraction nano).toList ++ ['Z']) = some (nano, ['Z']) := by
  have hz : Ended ['Z'] := ended_cons (by decide)
  unfold WallClock.fraction
  split
  · next h0 => subst h0; rfl
  · split
    · next h6 =>
      rw [String.toList_append, show ".".toList = ['.'] from rfl, List.cons_append, List.nil_append,
        List.cons_append, readFraction_padded (by decide) (by decide) (by omega) hz]
      simp only [Option.some.injEq, Prod.mk.injEq, and_true]
      omega
    · split
      · next h3 =>
        rw [String.toList_append, show ".".toList = ['.'] from rfl, List.cons_append,
          List.nil_append, List.cons_append, readFraction_padded (by decide) (by decide) (by omega) hz]
        simp only [Option.some.injEq, Prod.mk.injEq, and_true]
        omega
      · rw [String.toList_append, show ".".toList = ['.'] from rfl, List.cons_append,
          List.nil_append, List.cons_append, readFraction_padded (by decide) (by decide) (by omega) hz]
        simp

theorem readDate_append {d : Date} (hv : d.isValid = true) {rest : List Char} :
    readDate ((WallClock.yearText d.year).toList ++ '-' :: ((WallClock.two d.month).toList ++
      '-' :: ((WallClock.two d.day).toList ++ rest))) = some (d, rest) := by
  simp only [Date.isValid, decide_eq_true_eq] at hv
  have hday : Date.daysInMonth d.year d.month ≤ 31 := by
    unfold Date.daysInMonth
    split_ifs <;> omega
  unfold readDate
  rw [readYear_yearText _ (ended_cons (by decide))]
  simp only [bind, pure, Option.bind_some]
  rw [readChar_cons (by decide)]
  simp only [Option.bind_some]
  rw [readNumber_two (by omega)]
  simp only [Option.bind_some]
  rw [readChar_cons (by decide)]
  simp only [Option.bind_some]
  rw [readNumber_two (by omega)]
  rfl

theorem readTime_append {w : WallClock} (hh : w.hour < 24) (hm : w.minute < 60)
    (hs : w.second ≤ 60) (hn : w.nano < 1000000000) :
    readTime w.date ((WallClock.two w.hour).toList ++ ':' :: ((WallClock.two w.minute).toList ++
      ':' :: ((WallClock.two w.second).toList ++ ((WallClock.fraction w.nano).toList ++ ['Z'])))) =
      some (w, ['Z']) := by
  unfold readTime
  rw [readNumber_two (by omega)]
  simp only [bind, pure, Option.bind_some]
  rw [readChar_cons (by decide)]
  simp only [Option.bind_some]
  rw [readNumber_two (by omega)]
  simp only [Option.bind_some]
  rw [readChar_cons (by decide)]
  simp only [Option.bind_some]
  rw [readNumber_two (by omega)]
  simp only [Option.bind_some]
  rw [readFraction_fraction hn]
  rfl

/-- Date, time and `Z` are read as that time of that date. -/
theorem read?_text {w : WallClock} (hd : w.date.isValid = true) (hh : w.hour < 24)
    (hm : w.minute < 60) (hs : w.second ≤ 60) (hn : w.nano < 1000000000) :
    read? (w.text "T" ++ "Z") = (Instant.ofWallClock w).checked.map fun t => ⟨t, 0⟩ := by
  have key : (w.text "T" ++ "Z").toList = (WallClock.yearText w.date.year).toList ++ '-' ::
      ((WallClock.two w.date.month).toList ++ '-' :: ((WallClock.two w.date.day).toList ++ ('T' ::
      ((WallClock.two w.hour).toList ++ ':' :: ((WallClock.two w.minute).toList ++ ':' ::
      ((WallClock.two w.second).toList ++ ((WallClock.fraction w.nano).toList ++ ['Z']))))))) := by
    have hdash : "-".toList = ['-'] := rfl
    have hcolon : ":".toList = [':'] := rfl
    have ht : "T".toList = ['T'] := rfl
    have hz : "Z".toList = ['Z'] := rfl
    simp only [WallClock.text, String.toList_append, hdash, hcolon, ht, hz, List.append_assoc,
      List.cons_append, List.nil_append]
  have hz : readOffset (Blank.trimLeft ['Z']) = some (0, []) := rfl
  unfold read?
  rw [key, readDate_append hd]
  simp only [bind, Option.bind_some]
  rw [show ∀ cs, readSeparator ('T' :: cs) = some cs from fun _ => rfl]
  simp only [Option.bind_some]
  rw [readTime_append hh hm hs hn]
  simp only [Option.bind_some, hz]
  rw [if_pos (by rfl), ofWallClock?, if_pos ⟨hd, hh, hm, hs⟩]
  cases hc : (Instant.ofWallClock w).checked with
  | none => rfl
  | some t =>
    have ht : t.checked = some t := by
      unfold Instant.checked at hc ⊢
      split at hc
      · next h => cases hc; exact if_pos h
      · cases hc
    simp [bind, pure, Instant.atOffset, ht]

end Stamp

namespace Instant

theorem ext {a b : Instant} (hs : a.sec = b.sec) (hn : a.nano = b.nano) : a = b := by
  cases a
  cases b
  exact congrArg₂ mk hs hn

/-- What the calendar can show: a moment in range with at most one second 60. -/
def Valid (t : Instant) : Prop := t.InRange ∧ t.nano < 2000000000

instance (t : Instant) : Decidable t.Valid :=
  inferInstanceAs (Decidable (t.InRange ∧ t.nano < 2000000000))

/-- The moment that the text of a moment tells. -/
def reread (t : Instant) : Instant :=
  if t.isLeap ∧ t.sec % 60 ≠ 59 then ⟨t.sec + 1, t.nano - 1000000000⟩ else t

theorem isLeap_iff (t : Instant) : t.isLeap = true ↔ 1000000000 ≤ t.nano := by
  simp [isLeap]

theorem reread_eq_iff (t : Instant) : t.reread = t ↔ (t.isLeap → t.sec % 60 = 59) := by
  unfold reread
  split
  · next hl =>
    constructor
    · intro h
      have hs : t.sec + 1 = t.sec := congrArg Instant.sec h
      omega
    · intro h
      exact absurd (h hl.1) hl.2
  · next hl =>
    have : t.isLeap → t.sec % 60 = 59 := fun h => not_not.1 fun hs => hl ⟨h, hs⟩
    exact iff_of_true rfl this

theorem ofWallClock_wallClock {t : Instant} (h : t.nano < 2000000000) :
    ofWallClock t.wallClock = t.reread := by
  have hs : t.secondOfDay = t.sec % 86400 := rfl
  have hd : t.day = t.sec / 86400 := rfl
  have h60 : t.sec % 60 = t.secondOfDay.toNat % 60 := by omega
  have hw : t.wallClock.date.toDays = t.day := Date.toDays_ofDays _
  have hsec : t.wallClock.second = t.secondOfDay.toNat % 60 + t.nano / 1000000000 := rfl
  have hhour : t.wallClock.hour = t.secondOfDay.toNat / 3600 := rfl
  have hmin : t.wallClock.minute = t.secondOfDay.toNat / 60 % 60 := rfl
  have hnano : t.wallClock.nano = t.nano % 1000000000 := rfl
  have hday : secondsPerDay = 86400 := rfl
  simp only [ofWallClock, reread, isLeap_iff, hday]
  by_cases hl : 1000000000 ≤ t.nano
  · by_cases h59 : t.sec % 60 = 59
    · rw [if_pos (by omega), if_neg (by simp [h59])]
      exact Instant.ext (by simp only; omega) (by simp only; omega)
    · rw [if_neg (by omega), if_pos ⟨hl, h59⟩]
      exact Instant.ext (by simp only; omega) (by simp only; omega)
  · rw [if_neg (by omega), if_neg (by simp [hl])]
    exact Instant.ext (by simp only; omega) (by simp only; omega)

theorem reread_valid {t : Instant} (h : t.Valid) : t.reread.Valid := by
  obtain ⟨⟨h0, h1⟩, hn⟩ := h
  unfold reread
  split
  · next hl =>
    -- the range ends with a minute
    have he : latest % 60 = 0 := by decide
    exact ⟨⟨by show earliest ≤ t.sec + 1; omega, by show t.sec + 1 < latest; omega⟩,
      by show t.nano - 1000000000 < 2000000000; omega⟩
  · exact ⟨⟨h0, h1⟩, hn⟩

/-- Writing a moment and reading it again. -/
theorem read?_text {t : Instant} (h : t.Valid) : read? t.text = some t.reread := by
  have hs : t.secondOfDay.toNat < 86400 := by
    have : t.secondOfDay = t.sec % 86400 := rfl
    omega
  have hn := h.2
  have hr := (reread_valid h).1
  unfold read? text
  rw [Stamp.read?_text (w := t.wallClock) (Date.isValid_ofDays _)
      (by show t.secondOfDay.toNat / 3600 < 24; omega)
      (by show t.secondOfDay.toNat / 60 % 60 < 60; omega)
      (by show t.secondOfDay.toNat % 60 + t.nano / 1000000000 ≤ 60; omega)
      (by show t.nano % 1000000000 < 1000000000; omega),
    ofWallClock_wallClock hn, checked, if_pos hr]
  rfl

/-- A moment whose text tells the same moment. -/
def Settled (t : Instant) : Prop := t.Valid ∧ t.reread = t

theorem Settled.read?_text {t : Instant} (h : t.Settled) : read? t.text = some t := by
  rw [Instant.read?_text h.1, h.2]

end Instant

/-! ### What is read -/

namespace Stamp

open Digits

theorem nano_of_readFraction {cs rest : List Char} {n : Nat}
    (h : readFraction cs = some (n, rest)) : n < 1000000000 := by
  unfold readFraction at h
  split at h
  · next cs =>
    simp only at h
    split at h
    · cases h
    · simp only [Option.some.injEq, Prod.mk.injEq] at h
      obtain ⟨rfl, -⟩ := h
      set kept := (cs.takeWhile isDigit).take 9 with hk
      have hd : ∀ c ∈ kept, isDigit c = true := fun c hc =>
        List.mem_takeWhile_imp (List.mem_of_mem_take hc)
      have hl : kept.length ≤ 9 := by rw [hk, List.length_take]; omega
      calc number kept * Nat.pow 10 (9 - kept.length)
          < 10 ^ kept.length * 10 ^ (9 - kept.length) :=
            Nat.mul_lt_mul_of_pos_right (number_lt hd) (Nat.pow_pos (by decide))
        _ = 10 ^ 9 := by rw [← pow_add, Nat.add_sub_cancel' hl]
  · simp only [Option.some.injEq, Prod.mk.injEq] at h
    omega

theorem nano_of_readTime {date : Date} {cs rest : List Char} {w : WallClock}
    (h : readTime date cs = some (w, rest)) : w.nano < 1000000000 := by
  unfold readTime at h
  simp only [bind, pure, Option.bind_eq_some_iff] at h
  obtain ⟨_, _, _, _, _, _, _, _, _, _, ⟨nano, _⟩, hf, he⟩ := h
  simp only [Option.some.injEq, Prod.mk.injEq] at he
  rw [← he.1]
  exact nano_of_readFraction hf

/-- Offsets are read in whole minutes. -/
theorem offset_of_readOffset {cs rest : List Char} {o : Int}
    (h : readOffset cs = some (o, rest)) : o % 60 = 0 := by
  unfold readOffset at h
  split at h
  · cases h; rfl
  · cases h; rfl
  · simp only [bind] at h
    split at h
    · split at h
      · split at h
        · cases h; rfl
        · cases h
      · cases h
    · split_ifs at h
      all_goals simp only [Option.bind_some, Option.bind_none, Option.bind_eq_some_iff] at h
      · obtain ⟨⟨a, _⟩, _, ⟨b, _⟩, _, h⟩ := h
        split at h <;> cases h
        omega
      · obtain ⟨⟨a, _⟩, _, ⟨b, _⟩, _, h⟩ := h
        split at h <;> cases h
        omega
      · cases h
  · cases h

theorem settled_of_ofWallClock? {w : WallClock} {o : Int} {t : Stamp} (hn : w.nano < 1000000000)
    (ho : o % 60 = 0) (h : ofWallClock? w o = some t) : t.utc.Settled := by
  unfold ofWallClock? at h
  split at h
  · next hw =>
    obtain ⟨-, hh, hm, hs⟩ := hw
    simp only [bind, pure, Option.bind_eq_some_iff, Option.some.injEq] at h
    obtain ⟨seen, hseen, utc, hutc, rfl⟩ := h
    unfold Instant.checked at hseen hutc
    split at hseen
    · cases hseen
      split at hutc
      · next hr =>
        cases hutc
        have hday : Instant.secondsPerDay = 86400 := rfl
        simp only [Instant.atOffset, Instant.ofWallClock, hday] at hr ⊢
        have hnano : w.nano + (if w.second = 60 then 1 else 0) * 1000000000 < 2000000000 := by
          split <;> omega
        refine ⟨⟨hr, hnano⟩, ?_⟩
        rw [Instant.reread, if_neg]
        simp only [Instant.isLeap_iff, not_and, not_not]
        intro hleap
        have h60 : w.second = 60 := by
          by_contra hne
          rw [if_neg hne] at hleap
          omega
        rw [if_pos h60]
        omega
      · cases hutc
    · cases hseen
  · cases h

theorem settled_of_read? {s : String} {t : Stamp} (h : read? s = some t) : t.utc.Settled := by
  unfold read? at h
  simp only [bind, Option.bind_eq_some_iff] at h
  obtain ⟨_, _, _, _, ⟨w, _⟩, hw, ⟨o, _⟩, ho, h⟩ := h
  split at h
  · exact settled_of_ofWallClock? (nano_of_readTime hw) (offset_of_readOffset ho) h
  · cases h

end Stamp

end LogExport
