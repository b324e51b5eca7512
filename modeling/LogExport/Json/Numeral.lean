import LogExport.Json.Syntax

/-! The value of a written number. Digits are taken as long as they fit 64
bits; the rest only counts. The number so read is rounded and then scaled by
a rounded power of ten, each to the nearest double. -/

namespace LogExport

namespace Numeral

def maxUInt64 : Nat := 18446744073709551615

/-- Appends digits to a significand while the result fits 64 bits: the
significand, how many digits were taken, and how many were left. -/
def absorb (sig taken : Nat) : List Char → Nat × Nat × Nat
  | [] => (sig, taken, 0)
  | d :: ds =>
    let next := 10 * sig + (Digits.value? d).getD 0
    if next ≤ maxUInt64 then absorb next (taken + 1) ds else (sig, taken, ds.length + 1)

/-- Divides by 1e308 until the exponent is in the table of powers. -/
def lowered : Nat → Binary64 → Nat → Option Binary64
  | 0, x, _ => some (Binary64.zero x.neg)
  | fuel + 1, x, down =>
    if down ≤ 308 then x.div (Binary64.pow10 down)
    else if x.isZero then some x
    else do
      let y ← x.div (Binary64.pow10 308)
      lowered fuel y (down - 308)

/-- The double near `sig · 10 ^ e`; `none` beyond the largest. -/
def scaled (neg : Bool) (sig : Nat) (e : Int) : Option Binary64 := do
  let x ← Binary64.round neg sig 1
  if x.isZero then return x
  else if 308 < e then none
  else if 0 ≤ e then x.mul (Binary64.pow10 e.toNat)
  else lowered 4 x (-e).toNat

def exponent (n : Numeral) : Int :=
  match n.exp with
  | some (true, ds) => -(Digits.number ds : Int)
  | some (false, ds) => Digits.number ds
  | none => 0

/-- The value, `none` if it is too large for a double. A whole number that
fits 64 bits stays whole, except for `-0`. -/
def value? (n : Numeral) : Option JsonNumber :=
  let (sig, _, left) := absorb 0 0 n.whole
  if n.frac.isEmpty ∧ n.exp.isNone ∧ left = 0 then
    if n.neg then
      if 0 < sig ∧ sig ≤ 9223372036854775808 then some (.whole (-sig))
      else (Binary64.round true sig 1).map .double
    else some (.whole sig)
  else
    let (sig, taken, _) := absorb sig 0 n.frac
    (scaled n.neg sig (n.exponent + left - taken)).map .double

end Numeral

end LogExport
