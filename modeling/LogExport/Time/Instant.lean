import LogExport.Time.Date
import LogExport.Time.Duration

/-! Moments of universal time to the nanosecond. A nanosecond field of a full
second or more stands for second 60 of the minute: the moment is inside a
leap second that follows its second 59. -/

namespace LogExport

/-- A moment: whole seconds since the first of January 1970, and nanoseconds. -/
structure Instant where
  sec : Int
  nano : Nat
deriving DecidableEq, Repr, Inhabited

namespace Instant

def perSecond : Int := 1000000000

def secondsPerDay : Int := 86400

/-- The first second of year -262143. -/
def earliest : Int := (Date.mk (-262143) 1 1).toDays * secondsPerDay

/-- The first second after year 262142. -/
def latest : Int := (Date.mk 262143 1 1).toDays * secondsPerDay

/-- The years that a moment can lie in. -/
def InRange (t : Instant) : Prop := earliest ≤ t.sec ∧ t.sec < latest

instance (t : Instant) : Decidable t.InRange :=
  inferInstanceAs (Decidable (earliest ≤ t.sec ∧ t.sec < latest))

def checked (t : Instant) : Option Instant := if t.InRange then some t else none

def isLeap (t : Instant) : Bool := decide (1000000000 ≤ t.nano)

/-- Earlier second first, then fewer nanoseconds. -/
def before (a b : Instant) : Prop := a.sec < b.sec ∨ a.sec = b.sec ∧ a.nano < b.nano

instance : LT Instant := ⟨before⟩

instance : LE Instant := ⟨fun a b => ¬ before b a⟩

instance (a b : Instant) : Decidable (a < b) :=
  inferInstanceAs (Decidable (a.sec < b.sec ∨ a.sec = b.sec ∧ a.nano < b.nano))

instance (a b : Instant) : Decidable (a ≤ b) :=
  inferInstanceAs (Decidable (¬ (b.sec < a.sec ∨ b.sec = a.sec ∧ b.nano < a.nano)))

/-- The later of two moments, the first if they are the same. -/
def later (a b : Instant) : Instant := if a < b then b else a

/-- Nanoseconds since the first of January 1970, second 60 counted twice. -/
def toNanos (t : Instant) : Int := t.sec * perSecond + t.nano

def ofNanos (n : Int) : Instant := ⟨n / perSecond, (n % perSecond).toNat⟩

def ofMillis (n : Int) : Instant := ofNanos (n * 1000000)

/-- Milliseconds since the first of January 1970, toward minus infinity. -/
def millis (t : Instant) : Int := t.toNanos / 1000000

/-- The moment that much later on a clock without leap seconds. -/
def advanced (t : Instant) (d : Duration) : Instant := ofNanos (t.toNanos + d.nanos)

def day (t : Instant) : Int := t.sec / secondsPerDay

def secondOfDay (t : Instant) : Int := t.sec % secondsPerDay

/-- A moment moved by a span of nanoseconds. A span that leaves second 60
counts that second; one that stays inside it moves the field only. -/
def shifted (t : Instant) (span : Int) : Instant :=
  let whole := span.tdiv perSecond
  let part := span.tmod perSecond
  if t.isLeap then
    if 0 < whole ∨ 0 < part ∧ 2000000000 ≤ t.nano + part then
      ofNanos (t.toNanos - perSecond + span)
    else if whole < 0 then ofNanos (t.toNanos + span)
    else ⟨t.sec, (t.nano + part).toNat⟩
  else ofNanos (t.toNanos + span)

/-- The moved moment, if it is still in range. -/
def add? (t : Instant) (span : Int) : Option Instant := (t.shifted span).checked

def sub? (t : Instant) (span : Int) : Option Instant := t.add? (-span)

/-- Nanoseconds from `b` to `a`. The second 60 of `b` has passed if the time
of day of `a` is later, and that of `a` has not begun if it is earlier. -/
def since (a b : Instant) : Int :=
  let leap : Int :=
    if b.secondOfDay < a.secondOfDay ∧ b.isLeap then 1
    else if a.secondOfDay < b.secondOfDay ∧ a.isLeap then -1
    else 0
  (a.sec - b.sec + leap) * perSecond + (a.nano - b.nano)

theorem shifted_eq_ofNanos {t : Instant} (h : t.isLeap = false) (span : Int) :
    t.shifted span = ofNanos (t.toNanos + span) := by
  simp [shifted, h]

theorem toNanos_ofNanos (n : Int) : (ofNanos n).toNanos = n := by
  simp only [toNanos, ofNanos]
  have h : (0 : Int) ≤ n % perSecond := Int.emod_nonneg _ (by decide)
  rw [Int.toNat_of_nonneg h]
  exact Int.ediv_mul_add_emod n perSecond

theorem isLeap_ofNanos (n : Int) : (ofNanos n).isLeap = false := by
  have h : n % perSecond < 1000000000 := Int.emod_lt_of_pos _ (by decide)
  simp only [isLeap, ofNanos]
  exact decide_eq_false (by omega)

theorem since_eq_sub {a b : Instant} (ha : a.isLeap = false) (hb : b.isLeap = false) :
    a.since b = a.toNanos - b.toNanos := by
  simp only [since, ha, hb, toNanos, Bool.false_eq_true, and_false, if_false]
  rw [Int.add_zero, Int.sub_mul]
  omega

end Instant

end LogExport
