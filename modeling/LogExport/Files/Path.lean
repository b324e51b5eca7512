import LogExport.Text.Digits
import LogExport.Text.Pieces
import LogExport.Text.Utf8

/-! Object keys: a path without empty segments, in which reserved bytes are
written as a percent sign and two digits. -/

namespace LogExport

namespace ObjectPath

/-- Marks that stores treat in special ways. -/
def marks : List Char :=
  ['\\', '\x7b', '^', '\x7d', '%', '\x60', ']', '"', '>', '[', '~', '<', '#', '|', '*', '?']

/-- Bytes that a key cannot hold: controls, those beyond ASCII, and marks. -/
def isReserved (b : UInt8) : Bool :=
  b < 0x20 || 0x7f ≤ b || marks.contains (Char.ofNat b.toNat)

def escapeByte (b : UInt8) : List Char :=
  if isReserved b then '%' :: (Digits.hexByte true b).toList else [Char.ofNat b.toNat]

/-- A segment of a key. The names of the same and the upper directory are
escaped whole. -/
def segment (s : List Char) : List Char :=
  if s = ['.'] then ['%', '2', 'E']
  else if s = ['.', '.'] then ['%', '2', 'E', '%', '2', 'E']
  else (Utf8.encode (String.ofList s)).flatMap escapeByte

/-- The pieces between slashes that are not empty. -/
def segments (path : String) : List (List Char) :=
  (pieces '/' path.toList).filter fun s => !s.isEmpty

/-- The key under which an object at this path is stored. -/
def key (path : String) : String := String.ofList (joinPieces '/' ((segments path).map segment))

end ObjectPath

end LogExport
