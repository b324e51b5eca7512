import LogExport.Number.Binary64
import LogExport.Time.Stamp

/-! The persisted state of one export: what was asked for, which parts are
uploaded, and how the export stands. -/

namespace LogExport

/-- `start` is the only status that an export can leave. -/
inductive Status where
  | start
  | cancel
  | fail
  | finish
deriving DecidableEq, Repr, Inhabited

namespace Status

def isTerminal : Status → Bool
  | start => false
  | _ => true

def text : Status → String
  | start => "start"
  | cancel => "cancel"
  | fail => "fail"
  | finish => "finish"

def all : List Status := [start, cancel, fail, finish]

def ofText? (s : String) : Option Status := all.find? (·.text == s)

theorem ofText?_text (s : Status) : ofText? s.text = some s := by
  cases s <;> decide

end Status

/-- Bytes of the exported lines before and after compression. -/
structure Sizes where
  unpacked : Nat
  packed : Nat
deriving DecidableEq, Repr, Inhabited

namespace Sizes

def zero : Sizes := ⟨0, 0⟩

/-- Counts are words of 64 bits, which start again at zero. -/
def wordCount : Nat := 18446744073709551616

instance : Add Sizes :=
  ⟨fun a b => ⟨(a.unpacked + b.unpacked) % wordCount, (a.packed + b.packed) % wordCount⟩⟩

@[simp] theorem unpacked_add (a b : Sizes) :
    (a + b).unpacked = (a.unpacked + b.unpacked) % wordCount := rfl

@[simp] theorem packed_add (a b : Sizes) :
    (a + b).packed = (a.packed + b.packed) % wordCount := rfl

end Sizes

/-- One export. Status, parts, total, times and error change; the rest is
fixed at the start. -/
structure Session where
  id : String
  user : String
  name : String
  status : Status
  query : String
  start : Instant
  stop : Instant
  window : Duration
  partLength : Duration
  /-- The page size of its search requests. -/
  batchSize : Nat
  /-- One flag for each part, newest first. -/
  uploaded : List Bool
  total : Sizes
  /-- The path under which its files are stored. -/
  pathRoot : String
  createdAt : Instant
  startedAt : Option Instant
  finishedAt : Option Instant
  error : Option String
deriving DecidableEq, Repr

namespace Session

def partCount (s : Session) : Nat := s.uploaded.length

def uploadedCount (s : Session) : Nat := s.uploaded.count true

/-- The fraction of parts that are uploaded, zero if there are none. -/
def progress (s : Session) : Binary64 :=
  if s.partCount = 0 then Binary64.zero false
  else (Binary64.round false s.uploadedCount s.partCount).getD (Binary64.zero false)

/-- From start to finish, if both are known and in this order. -/
def duration (s : Session) : Option Duration := do
  let a ← s.startedAt
  let b ← s.finishedAt
  let span := b.since a
  if 0 ≤ span then some ⟨span.toNat⟩ else none

/-- Part `i` counts as uploaded with the given size. -/
def confirm (s : Session) (i : Nat) (size : Sizes) : Session :=
  { s with uploaded := s.uploaded.set i true, total := s.total + size }

/-- The export has come to an end. -/
def ended (s : Session) (status : Status) (error : Option String) (now : Instant) : Session :=
  { s with status, finishedAt := some now, error }

theorem partCount_confirm (s : Session) (i : Nat) (size : Sizes) :
    (s.confirm i size).partCount = s.partCount := by
  simp [confirm, partCount]

end Session

end LogExport
