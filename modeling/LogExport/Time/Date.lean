/-! Dates of the proleptic Gregorian calendar, year 0 included, and their
distance in days from the first of January 1970. -/

namespace LogExport

/-- A calendar date. -/
structure Date where
  year : Int
  month : Nat
  day : Nat
deriving DecidableEq, Repr

namespace Date

def isLeapYear (y : Int) : Bool := y % 4 == 0 && (y % 100 != 0 || y % 400 == 0)

/-- Days in a month, zero for a number that names none. -/
def daysInMonth (y : Int) (m : Nat) : Nat :=
  if m = 2 then (if isLeapYear y then 29 else 28)
  else if m ∈ [4, 6, 9, 11] then 30
  else if 1 ≤ m ∧ m ≤ 12 then 31
  else 0

def isValid (d : Date) : Bool :=
  decide (1 ≤ d.month ∧ d.month ≤ 12 ∧ 1 ≤ d.day ∧ d.day ≤ daysInMonth d.year d.month)

/-- Days since the first of January 1970. A year runs from March here, so that
the leap day comes last, and a cycle of 400 years has 146097 days. -/
def toDays (d : Date) : Int :=
  let y := if d.month ≤ 2 then d.year - 1 else d.year
  let era := y.fdiv 400
  let ofEra := y - era * 400
  let month := if d.month ≤ 2 then d.month + 9 else d.month - 3
  let ofYear : Int := ((153 * month + 2) / 5 + d.day : Nat) - 1
  era * 146097 + (ofEra * 365 + ofEra / 4 - ofEra / 100 + ofYear) - 719468

/-- The date that many days after the first of January 1970. -/
def ofDays (n : Int) : Date :=
  let z := n + 719468
  let era := z.fdiv 146097
  let ofEra := z - era * 146097
  let y := (ofEra - ofEra / 1460 + ofEra / 36524 - ofEra / 146096) / 365
  let ofYear := (ofEra - (365 * y + y / 4 - y / 100)).toNat
  let m := (5 * ofYear + 2) / 153
  let month := if m < 10 then m + 3 else m - 9
  ⟨y + era * 400 + (if month ≤ 2 then 1 else 0), month, ofYear - (153 * m + 2) / 5 + 1⟩

example : (Date.mk 1970 1 1).toDays = 0 := by decide

example : (Date.mk 2000 2 29).toDays = 11016 := by decide

example : ofDays (-719529) = ⟨-1, 12, 31⟩ := by decide

example : ofDays 11016 = ⟨2000, 2, 29⟩ := by decide

end Date

end LogExport
