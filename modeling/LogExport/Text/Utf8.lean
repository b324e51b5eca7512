/-! Strings as bytes and back. -/

namespace LogExport

abbrev Bytes := List UInt8

namespace Utf8

def encode (s : String) : Bytes := s.toUTF8.data.toList

/-- The string that the bytes encode, if they are valid UTF-8. -/
def decode? (bs : Bytes) : Option String := String.fromUTF8? ⟨bs.toArray⟩

/-- Whether a second byte can follow the first one of a longer character. -/
def followsFirst (a b : UInt8) : Bool :=
  if a = 0xE0 then 0xA0 ≤ b && b ≤ 0xBF
  else if a = 0xED then 0x80 ≤ b && b ≤ 0x9F
  else if a = 0xF0 then 0x90 ≤ b && b ≤ 0xBF
  else if a = 0xF4 then 0x80 ≤ b && b ≤ 0x8F
  else 0x80 ≤ b && b ≤ 0xBF

/-- Bytes after the first one that a character has. -/
def tailLength (a : UInt8) : Option Nat :=
  if a < 0x80 then some 0
  else if 0xC2 ≤ a ∧ a ≤ 0xDF then some 1
  else if 0xE0 ≤ a ∧ a ≤ 0xEF then some 2
  else if 0xF0 ≤ a ∧ a ≤ 0xF4 then some 3
  else none

/-- The bytes after the first that belong to its character, at most `n`. -/
def tailOf (a : UInt8) (n : Nat) (bs : Bytes) : Bytes :=
  match n, bs with
  | n + 1, b :: rest =>
    if followsFirst a b then b :: (rest.take n).takeWhile (fun c => 0x80 ≤ c && c ≤ 0xBF) else []
  | _, _ => []

/-- The string with U+FFFD for every stretch of bytes that encodes no character;
a stretch is as long as it could still have become one. -/
def lossyFrom : Nat → List Char → Bytes → List Char
  | 0, acc, _ => acc.reverse
  | _, acc, [] => acc.reverse
  | fuel + 1, acc, a :: rest =>
    match tailLength a with
    | none => lossyFrom fuel ('\uFFFD' :: acc) rest
    | some n =>
      let tail := tailOf a n rest
      match if tail.length = n then decode? (a :: tail) else none with
      | some s => lossyFrom fuel (s.toList.reverse ++ acc) (rest.drop n)
      | none => lossyFrom fuel ('\uFFFD' :: acc) (rest.drop tail.length)

def lossy (bs : Bytes) : String := String.ofList (lossyFrom (bs.length + 1) [] bs)

theorem decode?_encode (s : String) : decode? (encode s) = some s := by
  simp only [decode?, encode, Array.toArray_toList]
  unfold String.fromUTF8?
  exact dif_pos s.isValidUTF8

theorem encode_of_decode? {bs : Bytes} {s : String} (h : decode? bs = some s) : encode s = bs := by
  simp only [decode?, String.fromUTF8?] at h
  split at h
  · cases h
    rfl
  · cases h

theorem encode_inj {s t : String} (h : encode s = encode t) : s = t := by
  have hs := decode?_encode s
  rw [h, decode?_encode t] at hs
  exact (Option.some.inj hs).symm

end Utf8

end LogExport
