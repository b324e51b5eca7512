import LogExport.Text.Blank
import LogExport.Time.Instant

/-! Moments with an offset from universal time: how they are read from text and
written. A reader takes the characters and returns the rest. -/

namespace LogExport

/-- A moment seen at an offset of so many seconds east. -/
structure Stamp where
  utc : Instant
  offset : Int
deriving DecidableEq, Repr, Inhabited

/-- A date and the time within it, second 60 shown as a field of its own. -/
structure WallClock where
  date : Date
  hour : Nat
  minute : Nat
  second : Nat
  nano : Nat
deriving DecidableEq, Repr

namespace Instant

/-- Seconds east added to the clock, the nanosecond field kept. -/
def atOffset (t : Instant) (offset : Int) : Instant := ⟨t.sec + offset, t.nano⟩

def wallClock (t : Instant) : WallClock :=
  let s := t.secondOfDay.toNat
  { date := Date.ofDays t.day
    hour := s / 3600
    minute := s / 60 % 60
    second := s % 60 + t.nano / 1000000000
    nano := t.nano % 1000000000 }

def ofWallClock (w : WallClock) : Instant :=
  let leap := if w.second = 60 then 1 else 0
  ⟨w.date.toDays * secondsPerDay + (w.hour * 3600 + w.minute * 60 + (w.second - leap) : Nat),
    w.nano + leap * 1000000000⟩

end Instant

namespace WallClock

/-- Four digits, or a sign and at least four outside the years 0 to 9999. -/
def yearText (y : Int) : String :=
  if 0 ≤ y ∧ y ≤ 9999 then Digits.padded 4 y.toNat
  else (if y < 0 then "-" else "+") ++ Digits.padded 4 y.natAbs

def two (n : Nat) : String := Digits.padded 2 n

/-- As few of 0, 3, 6 or 9 digits as show the nanoseconds exactly. -/
def fraction (nano : Nat) : String :=
  if nano = 0 then ""
  else if nano % 1000000 = 0 then "." ++ Digits.padded 3 (nano / 1000000)
  else if nano % 1000 = 0 then "." ++ Digits.padded 6 (nano / 1000)
  else "." ++ Digits.padded 9 nano

/-- Date and time with `sep` between them. -/
def text (sep : String) (w : WallClock) : String :=
  yearText w.date.year ++ "-" ++ two w.date.month ++ "-" ++ two w.date.day ++ sep ++
  two w.hour ++ ":" ++ two w.minute ++ ":" ++ two w.second ++ fraction w.nano

/-- Date and time to the second without separators, as object paths have them. -/
def compact (w : WallClock) : String :=
  yearText w.date.year ++ two w.date.month ++ two w.date.day ++ "T" ++
  two w.hour ++ two w.minute ++ two w.second ++ "Z"

end WallClock

namespace Instant

/-- As in `2024-01-01T00:00:00Z`. -/
def text (t : Instant) : String := t.wallClock.text "T" ++ "Z"

/-- As in `20240101T000000Z`. -/
def compact (t : Instant) : String := t.wallClock.compact

/-- As in `2024-01-01 00:00:00 UTC`. -/
def prose (t : Instant) : String := t.wallClock.text " " ++ " UTC"

end Instant

namespace Stamp

def shown (t : Stamp) : Instant := t.utc.atOffset t.offset

def offsetText (offset : Int) : String :=
  let minutes := offset.natAbs / 60
  (if offset < 0 then "-" else "+") ++ Digits.padded 2 (minutes / 60) ++ ":" ++
    Digits.padded 2 (minutes % 60)

/-- As in `2024-01-01T05:30:00+05:30`, with `Z` for offset zero. -/
def text (t : Stamp) : String :=
  t.shown.wallClock.text "T" ++ (if t.offset = 0 then "Z" else offsetText t.offset)

/-- As in `2024-01-01 05:30:00 +05:30`. -/
def prose (t : Stamp) : String :=
  t.shown.wallClock.text " " ++ " " ++ offsetText t.offset

/-! The written form is read field by field. White space may stand before
every number and every separator. -/

/-- A run of at least one and at most `most` decimal digits. -/
def readNumber (most : Nat) (text : List Char) : Option (Nat × List Char) :=
  let cs := Blank.trimLeft text
  let ds := (cs.take most).takeWhile Digits.isDigit
  if ds.isEmpty then none else some (Digits.number ds, cs.drop ds.length)

def readChar (c : Char) (cs : List Char) : Option (List Char) :=
  match Blank.trimLeft cs with
  | d :: rest => if c = d then some rest else none
  | [] => none

/-- Up to four digits, or any number of them right after a sign. -/
def readYear (text : List Char) : Option (Int × List Char) :=
  let signed (sign : Int) (cs : List Char) : Option (Int × List Char) :=
    let ds := cs.takeWhile Digits.isDigit
    if ds.isEmpty then none else some (sign * Digits.number ds, cs.drop ds.length)
  match Blank.trimLeft text with
  | '+' :: cs => signed 1 cs
  | '-' :: cs => signed (-1) cs
  | cs => (readNumber 4 cs).map fun (n, r) => ((n : Int), r)

def readFraction : List Char → Option (Nat × List Char)
  | '.' :: cs =>
    let ds := cs.takeWhile Digits.isDigit
    if ds.isEmpty then none
    else
      let kept := ds.take 9
      some (Digits.number kept * Nat.pow 10 (9 - kept.length), cs.drop ds.length)
  | cs => some (0, cs)

def readTwo : List Char → Option (Nat × List Char)
  | a :: b :: cs => do
    let x ← Digits.value? a
    let y ← Digits.value? b
    return (10 * x + y, cs)
  | _ => none

/-- `Z`, `UTC` or a signed number of hours and minutes, in seconds east. -/
def readOffset : List Char → Option (Int × List Char)
  | 'Z' :: cs => some (0, cs)
  | 'z' :: cs => some (0, cs)
  | c :: cs => do
    if c = 'U' ∨ c = 'u' then
      match cs with
      | t :: u :: rest =>
        if (t = 'T' ∨ t = 't') ∧ (u = 'C' ∨ u = 'c') then some (0, rest) else none
      | _ => none
    else
      let sign : Int ←
        if c = '+' then some 1 else if c = '-' ∨ c = '−' then some (-1) else none
      let (h, cs) ← readTwo cs
      let (m, cs) ← readTwo (cs.dropWhile fun c => c = ':' ∨ Blank.isBlank c)
      if m < 60 ∧ h < 24 then some (sign * (h * 3600 + m * 60 : Nat), cs) else none
  | [] => none

/-- Year, month and day, which need not exist. -/
def readDate (cs : List Char) : Option (Date × List Char) := do
  let (y, cs) ← readYear cs
  let cs ← readChar '-' cs
  let (m, cs) ← readNumber 2 cs
  let cs ← readChar '-' cs
  let (d, cs) ← readNumber 2 cs
  return (⟨y, m, d⟩, cs)

def readSeparator : List Char → Option (List Char)
  | c :: cs => if c = 'T' ∨ c = 't' ∨ Blank.isBlank c then some cs else none
  | [] => none

/-- The time of a date; second 60 can be written. -/
def readTime (date : Date) (cs : List Char) : Option (WallClock × List Char) := do
  let (hour, cs) ← readNumber 2 cs
  let cs ← readChar ':' cs
  let (minute, cs) ← readNumber 2 cs
  let cs ← readChar ':' cs
  let (second, cs) ← readNumber 2 cs
  let (nano, cs) ← readFraction cs
  return ({ date, hour, minute, second, nano }, cs)

/-- The moment at which a clock at the offset shows this, if there is one. -/
def ofWallClock? (w : WallClock) (offset : Int) : Option Stamp :=
  if w.date.isValid ∧ w.hour < 24 ∧ w.minute < 60 ∧ w.second ≤ 60 then do
    let seen ← (Instant.ofWallClock w).checked
    let utc ← (seen.atOffset (-offset)).checked
    return ⟨utc, offset⟩
  else none

/-- Reads a stamp; the date must exist and the moment be in range, both as
written and in universal time. -/
def read? (s : String) : Option Stamp := do
  let (date, cs) ← readDate s.toList
  let cs ← readSeparator cs
  let (clock, cs) ← readTime date cs
  let (offset, cs) ← readOffset (Blank.trimLeft cs)
  if cs.all Blank.isBlank then ofWallClock? clock offset else none

end Stamp

def Instant.read? (s : String) : Option Instant := (Stamp.read? s).map Stamp.utc

end LogExport
