import LogExport.Text.Utf8

/-! Ranges of byte keys in lexicographic order, and the range of the keys that
start with given bytes. -/

namespace LogExport

/-- One end of a range. -/
inductive KeyBound where
  | included (k : Bytes)
  | excluded (k : Bytes)
  | unbounded
deriving DecidableEq, Repr

structure KeyRange where
  start : KeyBound
  stop : KeyBound
deriving DecidableEq, Repr

namespace KeyBound

def key? : KeyBound → Option Bytes
  | included k => some k
  | excluded k => some k
  | unbounded => none

/-- The key is not below this lower end. -/
def admitsAbove : KeyBound → Bytes → Bool
  | included a, k => decide (a ≤ k)
  | excluded a, k => decide (a < k)
  | unbounded, _ => true

/-- The key is not above this upper end. -/
def admitsBelow : KeyBound → Bytes → Bool
  | included b, k => decide (k ≤ b)
  | excluded b, k => decide (k < b)
  | unbounded, _ => true

end KeyBound

namespace KeyRange

def contains (r : KeyRange) (k : Bytes) : Bool := r.start.admitsAbove k && r.stop.admitsBelow k

/-- The ends are in order, and a range that leaves out both its ends has two
different ones. -/
def isOrdered (r : KeyRange) : Bool :=
  match r.start, r.stop with
  | .excluded a, .excluded b => decide (a < b)
  | a, b =>
    match a.key?, b.key? with
    | some a, some b => decide (a ≤ b)
    | _, _ => true

/-- The least key above every key that starts with `p`, from the last byte
backwards; none if all bytes are the largest. -/
def successorRev : Bytes → Option Bytes
  | [] => none
  | b :: rest => if b < 255 then some ((b + 1) :: rest) else successorRev rest

def successor (p : Bytes) : Option Bytes := (successorRev p.reverse).map List.reverse

/-- The keys that start with `p`. -/
def startingWith (p : Bytes) : KeyRange :=
  ⟨.included p, match successor p with | some e => .excluded e | none => .unbounded⟩

end KeyRange

end LogExport
