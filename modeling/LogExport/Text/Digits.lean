/-! Decimal and hexadecimal digits: numbers padded with zeros on the left, and
the value of a run of digits. -/

namespace LogExport

namespace Digits

/-- `n` in decimal with zeros in front up to `width` digits. -/
def padded (width n : Nat) : String :=
  let s := toString n
  String.ofList (List.replicate (width - s.length) '0') ++ s

/-- The value of a decimal digit. -/
def value? (c : Char) : Option Nat :=
  if '0' ≤ c ∧ c ≤ '9' then some (c.toNat - '0'.toNat) else none

def isDigit (c : Char) : Bool := (value? c).isSome

/-- The number that a run of decimal digits spells, the first being the highest. -/
def number (ds : List Char) : Nat :=
  ds.foldl (fun n c => 10 * n + (value? c).getD 0) 0

/-- The value of a hexadecimal digit of either case. -/
def hexValue? (c : Char) : Option Nat :=
  if '0' ≤ c ∧ c ≤ '9' then some (c.toNat - '0'.toNat)
  else if 'a' ≤ c ∧ c ≤ 'f' then some (c.toNat - 'a'.toNat + 10)
  else if 'A' ≤ c ∧ c ≤ 'F' then some (c.toNat - 'A'.toNat + 10)
  else none

def hexDigit (upper : Bool) (n : Nat) : Char :=
  if n < 10 then Char.ofNat ('0'.toNat + n)
  else Char.ofNat ((if upper then 'A' else 'a').toNat + (n - 10))

/-- A byte as two hexadecimal digits. -/
def hexByte (upper : Bool) (b : UInt8) : String :=
  String.ofList [hexDigit upper (b.toNat / 16), hexDigit upper (b.toNat % 16)]

/-- The bytes that pairs of digits spell. -/
def bytes? : List Char → Option (List UInt8)
  | [] => some []
  | a :: b :: cs => do
    let h ← hexValue? a
    let l ← hexValue? b
    return UInt8.ofNat (16 * h + l) :: (← bytes? cs)
  | _ => none

end Digits

end LogExport
