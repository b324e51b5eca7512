import LogExport.Text.Digits

/-! Lengths of time in whole nanoseconds, and the short text in which messages
show them. -/

namespace LogExport

/-- A length of time. -/
structure Duration where
  nanos : Nat
deriving DecidableEq, Repr, Inhabited

namespace Duration

def perSecond : Nat := 1000000000

def ofSecs (n : Nat) : Duration := ⟨perSecond * n⟩

def ofMillis (n : Nat) : Duration := ⟨1000000 * n⟩

/-- Whole seconds. -/
def secs (d : Duration) : Nat := d.nanos / perSecond

/-- Nanoseconds beyond the whole seconds. -/
def subsec (d : Duration) : Nat := d.nanos % perSecond

def millis (d : Duration) : Nat := d.nanos / 1000000

/-- Milliseconds, a half going up. -/
def roundedMillis (d : Duration) : Nat := (d.nanos + 500000) / 1000000

def isZero (d : Duration) : Bool := d.nanos == 0

instance : LE Duration := ⟨fun a b => a.nanos ≤ b.nanos⟩

instance : LT Duration := ⟨fun a b => a.nanos < b.nanos⟩

instance (a b : Duration) : Decidable (a ≤ b) := inferInstanceAs (Decidable (a.nanos ≤ b.nanos))

instance (a b : Duration) : Decidable (a < b) := inferInstanceAs (Decidable (a.nanos < b.nanos))

/-- A minute. -/
def minute : Duration := ofSecs 60

/-- Twenty-four hours. -/
def day : Duration := ofSecs 86400

/-- `whole` and the `places` digits of `frac`, without the zeros at its end. -/
def decimal (whole frac places : Nat) : String :=
  let digits := (Digits.padded places frac).toList.reverse.dropWhile (· == '0')
  match digits with
  | [] => toString whole
  | ds => toString whole ++ "." ++ String.ofList ds.reverse

/-- The largest unit that is not above the length, as in `1.5ms`. -/
def text (d : Duration) : String :=
  if d.nanos ≥ perSecond then decimal d.secs d.subsec 9 ++ "s"
  else if d.nanos ≥ 1000000 then decimal (d.nanos / 1000000) (d.nanos % 1000000) 6 ++ "ms"
  else if d.nanos ≥ 1000 then decimal (d.nanos / 1000) (d.nanos % 1000) 3 ++ "µs"
  else toString d.nanos ++ "ns"

end Duration

end LogExport
