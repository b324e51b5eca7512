import LogExport.Text.Digits

/-! Finite double-precision numbers in exact arithmetic: rounding of quotients,
the fewest digits that read back, and the text of a number in JSON. -/

namespace LogExport

/-- The number ± `mant` · 2 ^ `exp`. -/
structure Binary64 where
  neg : Bool
  mant : Nat
  exp : Int
deriving DecidableEq, Repr, Inhabited

namespace Binary64

def zero (neg : Bool) : Binary64 := ⟨neg, 0, -1074⟩

def isZero (x : Binary64) : Bool := x.mant == 0

/-- The value without its sign as a quotient. -/
def quotient (x : Binary64) : Nat × Nat :=
  (x.mant <<< x.exp.toNat, 1 <<< (-x.exp).toNat)

/-- `num / den` to the nearest whole number, a half going to the even one. -/
def roundHalfEven (num den : Nat) : Nat :=
  let q := num / den
  let r := num % den
  if 2 * r < den then q
  else if den < 2 * r then q + 1
  else if q % 2 = 0 then q else q + 1

/-- `num / (den · 2 ^ e)` to the nearest whole number. -/
def scaledRound (num den : Nat) (e : Int) : Nat :=
  roundHalfEven (num <<< (-e).toNat) (den <<< e.toNat)

/-- The double nearest to ± `num / den`, the even one of two; `none` if that
is beyond the largest. -/
def round (neg : Bool) (num den : Nat) : Option Binary64 :=
  if num = 0 then some (zero neg)
  else
    let guess : Int := (Nat.log2 num : Int) - Nat.log2 den - 52
    let low := num <<< (-guess).toNat < den <<< guess.toNat <<< 52
    let e := max (if low then guess - 1 else guess) (-1074)
    let m := scaledRound num den e
    let (m, e) := if m = 1 <<< 53 then (1 <<< 52, e + 1) else (m, e)
    if 971 < e then none else some ⟨neg, m, e⟩

def mul (x y : Binary64) : Option Binary64 :=
  round (x.neg != y.neg) (x.quotient.1 * y.quotient.1) (x.quotient.2 * y.quotient.2)

/-- The quotient by a number other than zero. -/
def div (x y : Binary64) : Option Binary64 :=
  round (x.neg != y.neg) (x.quotient.1 * y.quotient.2) (x.quotient.2 * y.quotient.1)

/-- The double nearest to a power of ten. -/
def pow10 (k : Nat) : Binary64 := (round false (Nat.pow 10 k) 1).getD (zero false)

/-- Whether `num / den` rounds to `x`: it lies between the middles to the two
neighbours, which themselves belong to an even `x`. -/
def roundsTo (x : Binary64) (num den : Nat) : Bool :=
  let low := if x.mant = 1 <<< 52 ∧ -1074 < x.exp then 4 * x.mant - 1 else 4 * x.mant - 2
  let high := 4 * x.mant + 2
  let a := den <<< (x.exp - 2).toNat
  let b := num <<< (2 - x.exp).toNat
  if x.mant % 2 = 0 then low * a ≤ b ∧ b ≤ high * a else low * a < b ∧ b < high * a

/-- The decimal exponent of the first digit of `num / den`. -/
def leading (num den : Nat) : Int :=
  let guess : Int := ((toString num).length : Int) - (toString den).length
  if num * Nat.pow 10 (-guess).toNat < den * Nat.pow 10 guess.toNat then guess - 1 else guess

/-- The digits nearest to `x` among those with `n` digits that read back. -/
def digitsWith (x : Binary64) (first : Int) (n : Nat) : Option Nat :=
  let unit := first - n + 1
  let (num, den) := x.quotient
  let a := num * Nat.pow 10 (-unit).toNat
  let b := den * Nat.pow 10 unit.toNat
  let q := a / b
  let fits (d : Nat) : Bool :=
    x.roundsTo (d * Nat.pow 10 unit.toNat) (Nat.pow 10 (-unit).toNat)
  match fits q, fits (q + 1) with
  | true, true =>
    let r := a % b
    some (if 2 * r < b then q else if b < 2 * r then q + 1 else if q % 2 = 0 then q else q + 1)
  | true, false => some q
  | false, true => some (q + 1)
  | false, false => none

/-- The fewest digits that read back, and the exponent of the first of them. -/
def shortest (x : Binary64) : List Char × Int :=
  let (num, den) := x.quotient
  let first := leading num den
  let d := ((List.range 17).findSome? fun n => x.digitsWith first (n + 1)).getD 0
  let ds := (toString d).toList
  let n := ((List.range 17).find? fun n => (x.digitsWith first (n + 1)).isSome).getD 16 + 1
  let e := first + ((ds.length : Int) - n)
  (((ds.reverse.dropWhile (· == '0')).reverse), e)

/-- Positional from 1e-5 to below 1e16, always with a fraction; else with a
signed exponent. -/
def text (x : Binary64) : String :=
  let sign := if x.neg then "-" else ""
  if x.isZero then sign ++ "0.0"
  else
    let (ds, e) := x.shortest
    let zeros (n : Nat) := List.replicate n '0'
    let body : List Char :=
      if 0 ≤ e ∧ e < 16 then
        let n := e.toNat + 1
        let whole := ds.take n ++ zeros (n - ds.length)
        let frac := ds.drop n
        whole ++ '.' :: (if frac.isEmpty then ['0'] else frac)
      else if -5 ≤ e ∧ e < 0 then '0' :: '.' :: zeros ((-e).toNat - 1) ++ ds
      else
        let mantissa := match ds with
          | [d] => [d]
          | d :: rest => d :: '.' :: rest
          | [] => []
        mantissa ++ 'e' :: (if e < 0 then '-' else '+') :: (toString e.natAbs).toList
    sign ++ String.ofList body

end Binary64

end LogExport
