import LogExport.Json.Reader
import LogExport.Proofs.Text.Decimal

/-! JSON text read back. The compact text of a value is taken apart into the
parts it was put together from, whatever follows it. -/

namespace LogExport

namespace Syntax

/-- Nothing follows, or what can follow a value. -/
def Closed (rest : List Char) : Prop := ∀ c ∈ rest.head?, c = ',' ∨ c = ']' ∨ c = '}'

theorem closed_nil : Closed [] := by
  intro c hc
  cases hc

theorem closed_cons {c : Char} (h : c = ',' ∨ c = ']' ∨ c = '}') (rest : List Char) :
    Closed (c :: rest) := by
  intro d hd
  cases hd
  exact h

theorem Closed.ended {rest : List Char} (h : Closed rest) : Digits.Ended rest := by
  intro c hc
  rcases h c hc with rfl | rfl | rfl <;> rfl

theorem skip_cons {c : Char} (h : isSpace c = false) (rest : List Char) :
    skip (c :: rest) = c :: rest := by
  simp [skip, h]

theorem isSpace_of_isDigit {c : Char} (h : Digits.isDigit c = true) : isSpace c = false := by
  simp only [isSpace, Bool.or_eq_false_iff, beq_eq_false_iff_ne]
  refine ⟨⟨⟨?_, ?_⟩, ?_⟩, ?_⟩ <;>
  · rintro rfl
    cases h

/-! ### Strings -/

theorem hexValue?_hexDigit {n : Nat} (h : n < 16) :
    Digits.hexValue? (Digits.hexDigit false n) = some n := by
  have all : ∀ k : Fin 16, Digits.hexValue? (Digits.hexDigit false k) = some k.val := by decide
  exact all ⟨n, h⟩

theorem unit?_control {n : Nat} (h : n < 32) :
    unit? '0' '0' (Digits.hexDigit false (n / 16)) (Digits.hexDigit false (n % 16)) = some n := by
  have h0 : Digits.hexValue? '0' = some 0 := rfl
  simp only [unit?, h0, hexValue?_hexDigit (show n / 16 < 16 by omega),
    hexValue?_hexDigit (show n % 16 < 16 by omega), bind, pure, Option.bind_some]
  rw [show ((0 * 16 + 0) * 16 + n / 16) * 16 + n % 16 = n by omega]

/-- One character is read back from its escape. -/
theorem readString_escaped (c : Char) (acc rest : List Char) :
    readString acc none true (Json.escaped c ++ rest) = readString (c :: acc) none true rest := by
  unfold Json.escaped
  split
  · next h => subst h; simp [readString, plainEscape?]
  split
  · next h => subst h; simp [readString, plainEscape?]
  split
  · next h => subst h; simp [readString, plainEscape?]
  split
  · next h => subst h; simp [readString, plainEscape?]
  split
  · next h => subst h; simp [readString, plainEscape?]
  split
  · next h => subst h; simp [readString, plainEscape?]
  split
  · next h => subst h; simp [readString, plainEscape?]
  split
  · next h =>
    simp only [List.cons_append, List.nil_append, readString, unit?_control h]
    rw [if_neg (by omega), if_neg (by omega), Char.ofNat_toNat]
  · next hq hb _ _ _ _ _ hc =>
    simp only [List.cons_append, List.nil_append]
    rw [readString]
    · simp [hb]
      omega
    · exact fun h => hq h
    all_goals
      intros
      simp_all

theorem readString_flatMap (cs acc rest : List Char) :
    readString acc none true (cs.flatMap Json.escaped ++ '"' :: rest) =
      some (some (String.ofList (acc.reverse ++ cs)), rest) := by
  induction cs generalizing acc with
  | nil => simp [readString]
  | cons c cs ih =>
    rw [List.flatMap_cons, List.append_assoc, readString_escaped, ih]
    simp

/-- A string in quotes is read back. -/
theorem readString_quoted (s : String) (rest : List Char) :
    ∃ cs, Json.quoted s ++ rest = '"' :: cs ∧
      readString [] none true cs = some (some s, rest) := by
  refine ⟨s.toList.flatMap Json.escaped ++ '"' :: rest, by simp [Json.quoted], ?_⟩
  rw [readString_flatMap]
  simp

/-! ### Numbers -/

theorem readDigits_append {ds rest : List Char} (hd : ∀ c ∈ ds, Digits.isDigit c = true)
    (hn : ds ≠ []) (hr : Digits.Ended rest) : readDigits (ds ++ rest) = some (ds, rest) := by
  simp only [readDigits, Digits.takeWhile_append hd hr, List.drop_left, List.isEmpty_iff, hn,
    if_false]

end Syntax

/-- The parts of the text of a whole number. -/
def Numeral.ofInt (n : Int) : Numeral := ⟨decide (n < 0), Nat.toDigits 10 n.natAbs, [], none⟩

namespace Numeral

theorem ofInt_natCast (k : Nat) : ofInt k = ⟨false, Nat.toDigits 10 k, [], none⟩ := by
  simp [ofInt]

theorem ofInt_negSucc (k : Nat) :
    ofInt (.negSucc k) = ⟨true, Nat.toDigits 10 (k + 1), [], none⟩ := by
  simp [ofInt, Int.negSucc_lt_zero]

end Numeral

namespace Syntax

theorem readNumeral_toDigits (neg : Bool) (n : Nat) {rest : List Char} (hr : Closed rest) :
    readNumeral neg (Nat.toDigits 10 n ++ rest) = some (⟨neg, Nat.toDigits 10 n, [], none⟩, rest) := by
  have hlead : ¬ ((Nat.toDigits 10 n).length > 1 ∧ (Nat.toDigits 10 n).head? = some '0') := by
    rintro ⟨hlen, hhead⟩
    rcases Nat.eq_zero_or_pos n with rfl | hn
    · simp at hlen
    · exact Digits.head?_toDigits hn hhead
  unfold readNumeral
  rw [readDigits_append Digits.isDigit_of_mem_toDigits (by simp) hr.ended]
  simp only [bind, pure, Option.bind_some, hlead, if_false]
  cases rest with
  | nil => rfl
  | cons c rest =>
    rcases hr c rfl with rfl | rfl | rfl <;> rfl

end Syntax

/-! ### Values -/

namespace Json

mutual

/-- The parts of the text of a value. A double has no text that is sure to be
read back. -/
def parsed : Json → Syntax
  | null => .null
  | bool b => .bool b
  | number (.whole n) => .number (.ofInt n)
  | number (.double _) => .broken
  | string s => .string (some s)
  | array xs => .array (parsedItems xs)
  | object ms => .object (parsedMembers ms)

def parsedItems : List Json → List Syntax
  | [] => []
  | x :: xs => parsed x :: parsedItems xs

def parsedMembers : List (String × Json) → List (Option String × Syntax)
  | [] => []
  | (k, x) :: ms => (some k, parsed x) :: parsedMembers ms

end

theorem text_nat (k : Nat) : (JsonNumber.whole k).text.toList = Nat.toDigits 10 k := by
  show (toString (Int.ofNat k)).toList = _
  rw [show toString (Int.ofNat k) = Nat.repr k from rfl, Nat.toList_repr]

theorem text_negSucc (k : Nat) :
    (JsonNumber.whole (Int.negSucc k)).text.toList = '-' :: Nat.toDigits 10 (k + 1) := by
  show (toString (Int.negSucc k)).toList = _
  rw [show toString (Int.negSucc k) = "-" ++ Nat.repr (k + 1) from rfl]
  simp [Nat.toList_repr]

/-- The text of a value starts with a character that is neither a space nor
the end of an array. -/
theorem chars_eq_cons (j : Json) (hj : j.parsed.isBroken = false) :
    ∃ c cs, j.chars = c :: cs ∧ Syntax.isSpace c = false ∧ c ≠ ']' := by
  match j with
  | null => exact ⟨_, _, rfl, rfl, by decide⟩
  | bool true => exact ⟨_, _, rfl, rfl, by decide⟩
  | bool false => exact ⟨_, _, rfl, rfl, by decide⟩
  | number (.double _) => simp [parsed, Syntax.isBroken] at hj
  | number (.whole (.negSucc k)) => exact ⟨_, _, text_negSucc k, rfl, by decide⟩
  | number (.whole (.ofNat k)) =>
    obtain ⟨c, cs, hc⟩ := List.exists_cons_of_ne_nil (Nat.toDigits_ne_nil (n := k) (b := 10))
    have hd := Digits.isDigit_of_mem_toDigits (n := k) c (by simp [hc])
    refine ⟨c, cs, (text_nat k).trans hc, ?_, ?_⟩
    · exact Syntax.isSpace_of_isDigit hd
    · rintro rfl
      cases hd
  | string s => exact ⟨_, _, rfl, rfl, by decide⟩
  | array xs => exact ⟨_, _, rfl, rfl, by decide⟩
  | object ms => exact ⟨_, _, rfl, rfl, by decide⟩

theorem joined_itemChars (x : Json) (xs : List Json)
    (hj : Syntax.anyBroken (parsedItems (x :: xs)) = false) :
    ∃ c cs, joined ',' (itemChars (x :: xs)) = c :: cs ∧ Syntax.isSpace c = false ∧ c ≠ ']' := by
  rw [parsedItems, Syntax.anyBroken, Bool.or_eq_false_iff] at hj
  obtain ⟨c, cs, hc, h⟩ := chars_eq_cons x hj.1
  cases xs with
  | nil => exact ⟨c, cs, hc, h⟩
  | cons y ys => exact ⟨c, cs ++ ',' :: joined ',' (itemChars (y :: ys)), by
      simp [itemChars, joined, hc], h⟩

theorem joined_memberChars (k : String) (x : Json) (ms : List (String × Json)) :
    ∃ cs, joined ',' (memberChars ((k, x) :: ms)) = '"' :: cs := by
  cases ms with
  | nil => exact ⟨_, rfl⟩
  | cons m ms => exact ⟨_, rfl⟩

end Json

namespace Syntax

theorem readValue_nat {fuel : Nat} (hf : 0 < fuel) (k : Nat) {rest : List Char} (hr : Closed rest) :
    readValue fuel (Nat.toDigits 10 k ++ rest) = (number (.ofInt k), some rest) := by
  obtain ⟨fuel, rfl⟩ := Nat.exists_eq_succ_of_ne_zero (Nat.pos_iff_ne_zero.1 hf)
  obtain ⟨c, cs, hc⟩ := List.exists_cons_of_ne_nil (Nat.toDigits_ne_nil (n := k) (b := 10))
  have hd := Digits.isDigit_of_mem_toDigits (n := k) c (by simp [hc])
  have hs := isSpace_of_isDigit hd
  have hread := readNumeral_toDigits false k hr
  rw [hc] at hread ⊢
  rw [List.cons_append] at hread ⊢
  rw [readValue, skip_cons hs]
  split
  case h_8 => rw [hread, ← hc, Numeral.ofInt_natCast]
  all_goals
    next h =>
    obtain ⟨rfl, -⟩ := List.cons.inj h
    cases hd

mutual

/-- The text of a value is taken apart into its parts. -/
theorem readValue_chars (j : Json) (hj : j.parsed.isBroken = false) {fuel : Nat}
    (hf : 2 * j.chars.length ≤ fuel + 1) {rest : List Char} (hr : Closed rest) :
    readValue fuel (j.chars ++ rest) = (j.parsed, some rest) := by
  obtain ⟨c, cs, hc, hs, -⟩ := Json.chars_eq_cons j hj
  match fuel, hf with
  | 0, hf =>
    rw [hc, List.length_cons] at hf
    omega
  | fuel + 1, hf =>
  match j with
  | .null => rfl
  | .bool true => rfl
  | .bool false => rfl
  | .number (.double _) => simp [Json.parsed, isBroken] at hj
  | .number (.whole (.ofNat k)) =>
    rw [Json.chars, show (JsonNumber.whole (.ofNat k)).text.toList = _ from Json.text_nat k]
    exact readValue_nat (by omega) k hr
  | .number (.whole (.negSucc k)) =>
    rw [Json.chars, Json.text_negSucc, Json.parsed, Numeral.ofInt_negSucc, List.cons_append,
      readValue, skip_cons (by rfl)]
    simp only [readNumeral_toDigits true (k + 1) hr]
  | .string s =>
    obtain ⟨cs, hq, hread⟩ := readString_quoted s rest
    rw [Json.chars, Json.parsed, hq, readValue, skip_cons (by rfl)]
    simp only [hread]
  | .array [] => rfl
  | .object [] => rfl
  | .array (x :: xs) =>
    rw [Json.chars] at hf ⊢
    simp only [List.cons_append, List.length_cons, List.length_append, List.length_nil] at hf
    have hi : readItems fuel [] _ = _ := readItems_chars x xs [] rest hj (by omega)
    obtain ⟨d, ds, hd, hspace, hne⟩ := Json.joined_itemChars x xs hj
    rw [List.cons_append, List.cons_append, List.append_assoc, readValue, skip_cons (by rfl)]
    simp only [List.cons_append, List.nil_append]
    rw [hd, List.cons_append] at hi ⊢
    rw [skip_cons hspace]
    split
    · next h => exact absurd (List.cons.inj h).1 hne
    · rw [hi]
      rfl
  | .object ((k, x) :: ms) =>
    rw [Json.chars] at hf ⊢
    simp only [List.cons_append, List.length_cons, List.length_append, List.length_nil] at hf
    have hi : readMembers fuel [] _ = _ := readMembers_chars k x ms [] rest hj (by omega)
    obtain ⟨ds, hd⟩ := Json.joined_memberChars k x ms
    rw [List.cons_append, List.cons_append, List.append_assoc, readValue, skip_cons (by rfl)]
    simp only [List.cons_append, List.nil_append]
    rw [hd, List.cons_append] at hi ⊢
    rw [skip_cons (by rfl)]
    split
    · next h => exact absurd (List.cons.inj h).1 (by decide)
    · rw [hi]
      rfl
termination_by structural fuel

theorem readItems_chars (x : Json) (xs : List Json) (acc : List Syntax) {fuel : Nat}
    (rest : List Char) (hj : anyBroken (Json.parsedItems (x :: xs)) = false)
    (hf : 2 * (Json.joined ',' (Json.itemChars (x :: xs))).length ≤ fuel) :
    readItems fuel acc (Json.joined ',' (Json.itemChars (x :: xs)) ++ ']' :: rest) =
      (acc.reverse ++ Json.parsedItems (x :: xs), some rest) := by
  rw [Json.parsedItems, anyBroken, Bool.or_eq_false_iff] at hj
  obtain ⟨hx, hxs⟩ := hj
  have hall : anyBroken (Json.parsedItems (x :: xs)) = false := by
    simpa [Json.parsedItems, anyBroken] using ⟨hx, hxs⟩
  obtain ⟨c, cs, hc, -, -⟩ := Json.joined_itemChars x xs hall
  match fuel, hf with
  | 0, hf =>
    rw [hc, List.length_cons] at hf
    omega
  | fuel + 1, hf =>
  match xs with
  | [] =>
    have hv : readValue fuel (x.chars ++ ']' :: rest) = _ := readValue_chars x hx (by
      simp only [Json.itemChars, Json.joined] at hf
      omega) (closed_cons (by decide) rest)
    simp only [Json.itemChars, Json.joined, Json.parsedItems, readItems, hv, List.reverse_cons,
      skip_cons (show isSpace ']' = false from rfl)]
  | y :: ys =>
    rw [show Json.joined ',' (Json.itemChars (x :: y :: ys)) =
      x.chars ++ ',' :: Json.joined ',' (Json.itemChars (y :: ys)) from rfl] at hf ⊢
    rw [List.length_append, List.length_cons] at hf
    rw [List.append_assoc, List.cons_append, readItems,
      readValue_chars x hx (by omega) (closed_cons (by decide) _)]
    simp only [skip_cons (show isSpace ',' = false from rfl)]
    rw [readItems_chars y ys (x.parsed :: acc) rest hxs (by omega)]
    simp [Json.parsedItems]
termination_by structural fuel

theorem readMembers_chars (k : String) (x : Json) (ms : List (String × Json))
    (acc : List (Option String × Syntax)) {fuel : Nat} (rest : List Char)
    (hj : anyMemberBroken (Json.parsedMembers ((k, x) :: ms)) = false)
    (hf : 2 * (Json.joined ',' (Json.memberChars ((k, x) :: ms))).length ≤ fuel) :
    readMembers fuel acc (Json.joined ',' (Json.memberChars ((k, x) :: ms)) ++ '\x7d' :: rest) =
      (acc.reverse ++ Json.parsedMembers ((k, x) :: ms), some rest) := by
  rw [Json.parsedMembers, anyMemberBroken, Bool.or_eq_false_iff] at hj
  obtain ⟨hx, hms⟩ := hj
  obtain ⟨ds, hd⟩ := Json.joined_memberChars k x ms
  match fuel, hf with
  | 0, hf =>
    rw [hd, List.length_cons] at hf
    omega
  | fuel + 1, hf =>
  match ms with
  | [] =>
    rw [show Json.joined ',' (Json.memberChars [(k, x)]) = Json.quoted k ++ ':' :: x.chars from rfl]
      at hf ⊢
    rw [List.length_append, List.length_cons] at hf
    obtain ⟨cs, hq, hread⟩ := readString_quoted k (':' :: (x.chars ++ '\x7d' :: rest))
    rw [List.append_assoc, List.cons_append, hq, readMembers, skip_cons (by rfl)]
    simp only [hread, skip_cons (show isSpace ':' = false from rfl)]
    rw [readValue_chars x hx (by omega) (closed_cons (by decide) _)]
    simp only [skip_cons (show isSpace '\x7d' = false from rfl), List.reverse_cons,
      Json.parsedMembers]
  | (l, y) :: ms =>
    rw [show Json.joined ',' (Json.memberChars ((k, x) :: (l, y) :: ms)) =
      (Json.quoted k ++ ':' :: x.chars) ++ ',' :: Json.joined ',' (Json.memberChars ((l, y) :: ms))
      from rfl] at hf ⊢
    rw [List.length_append, List.length_append, List.length_cons, List.length_cons] at hf
    obtain ⟨cs, hq, hread⟩ := readString_quoted k (':' :: (x.chars ++
      ',' :: (Json.joined ',' (Json.memberChars ((l, y) :: ms)) ++ '\x7d' :: rest)))
    simp only [List.append_assoc, List.cons_append]
    rw [hq, readMembers, skip_cons (by rfl)]
    simp only [hread, skip_cons (show isSpace ':' = false from rfl)]
    rw [readValue_chars x hx (by omega) (closed_cons (by decide) _)]
    simp only [skip_cons (show isSpace ',' = false from rfl)]
    rw [readMembers_chars l y ms ((some k, x.parsed) :: acc) rest hms (by omega)]
    simp [Json.parsedMembers]
termination_by structural fuel

end

/-- The text of a value is read as its parts, with nothing left over. -/
theorem read_text {j : Json} (hj : j.parsed.isBroken = false) : read j.text = (j.parsed, true) := by
  have h : readValue (2 * j.chars.length + 2) _ = _ :=
    readValue_chars j hj (by omega) closed_nil
  rw [List.append_nil] at h
  simp only [read, Json.text, String.toList_ofList, h]
  rfl

theorem readAll_text {α : Type} (r : Reader α) {j : Json} (hj : j.parsed.isBroken = false) :
    readAll r j.text = r j.parsed := by
  simp only [readAll, read_text hj]
  cases r j.parsed <;> rfl

end Syntax

/-! ### Numbers of 64 bits -/

namespace Numeral

/-- The number that digits spell after those of `sig`. -/
def append (sig : Nat) (ds : List Char) : Nat :=
  ds.foldl (fun n c => 10 * n + (Digits.value? c).getD 0) sig

theorem le_append (sig : Nat) (ds : List Char) : sig ≤ append sig ds := by
  induction ds generalizing sig with
  | nil => exact Nat.le_refl sig
  | cons d ds ih =>
    have h := ih (10 * sig + (Digits.value? d).getD 0)
    rw [append, List.foldl_cons]
    rw [append] at h
    omega

/-- Digits are all taken if the number they spell fits. -/
theorem absorb_of_le {ds : List Char} {sig : Nat} (taken : Nat) (h : append sig ds ≤ maxUInt64) :
    absorb sig taken ds = (append sig ds, taken + ds.length, 0) := by
  induction ds generalizing sig taken with
  | nil => rfl
  | cons d ds ih =>
    have hd : append (10 * sig + (Digits.value? d).getD 0) ds ≤ maxUInt64 := h
    rw [absorb, if_pos (Nat.le_trans (le_append _ ds) hd), ih (taken + 1) hd, List.length_cons]
    rw [show taken + (ds.length + 1) = taken + 1 + ds.length by omega]
    rfl

/-- What is taken fits. -/
theorem absorb_le {sig : Nat} (taken : Nat) (ds : List Char) (h : sig ≤ maxUInt64) :
    (absorb sig taken ds).1 ≤ maxUInt64 := by
  induction ds generalizing sig taken with
  | nil => exact h
  | cons d ds ih =>
    rw [absorb]
    split
    · next hd => exact ih (taken + 1) hd
    · exact h

theorem value?_ofInt_natCast {n : Nat} (h : n ≤ maxUInt64) : (ofInt n).value? = some (.whole n) := by
  have hn : append 0 (Nat.toDigits 10 n) = n := Digits.number_toDigits n
  rw [ofInt_natCast, value?]
  simp only [absorb_of_le 0 (hn.symm ▸ h), hn]
  rfl

theorem le_of_value? {n : Numeral} {k : Nat} (h : n.value? = some (.whole k)) : k ≤ maxUInt64 := by
  have hle : (absorb 0 0 n.whole).1 ≤ maxUInt64 := absorb_le 0 n.whole (Nat.zero_le _)
  rw [value?] at h
  split at h
  next sig taken left hs =>
  rw [hs] at hle
  split_ifs at h with hp hneg hsig
  · simp only [Option.some.injEq, JsonNumber.whole.injEq] at h
    omega
  · simp only [Option.map_eq_some_iff, reduceCtorEq, and_false, exists_false] at h
  · simp only [Option.some.injEq, JsonNumber.whole.injEq] at h
    omega
  · simp only [Option.map_eq_some_iff, reduceCtorEq, and_false, exists_false] at h

end Numeral

namespace Syntax

theorem readNat_nat {n : Nat} (h : n ≤ Numeral.maxUInt64) : readNat (Json.nat n).parsed = .ok n := by
  simp only [Json.nat, Json.parsed, readNat, Numeral.value?_ofInt_natCast h]

theorem le_of_readNat {x : Syntax} {n : Nat} (h : readNat x = .ok n) : n ≤ Numeral.maxUInt64 := by
  unfold readNat at h
  split at h
  · split at h
    · next hv =>
      cases h
      exact Numeral.le_of_value? hv
    · cases h
    · cases h
  · cases h

end Syntax

end LogExport
