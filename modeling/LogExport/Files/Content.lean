import LogExport.Text.Utf8

/-! Contents of files as stretches of bytes, each written some number of times
in a row, so that long repetitive files stay small. -/

namespace LogExport

structure Chunk where
  bytes : Bytes
  times : Nat
deriving DecidableEq, Repr

abbrev Content := List Chunk

namespace Chunk

def expand (c : Chunk) : Bytes := (List.replicate c.times c.bytes).flatten

def size (c : Chunk) : Nat := c.times * c.bytes.length

/-- The first `n` bytes, without writing out the rest. -/
def head (n : Nat) (c : Chunk) : Bytes :=
  ((List.replicate (min c.times (n / c.bytes.length + 1)) c.bytes).flatten).take n

end Chunk

namespace Content

def ofBytes (bs : Bytes) : Content := [⟨bs, 1⟩]

/-- The bytes of the file. -/
def bytes (c : Content) : Bytes := c.flatMap Chunk.expand

def size : Content → Nat
  | [] => 0
  | c :: cs => c.size + size cs

/-- The first `n` bytes. -/
def head (n : Nat) : Content → Bytes
  | [] => []
  | c :: cs => if n ≤ c.size then c.head n else c.expand ++ head (n - c.size) cs

theorem bytes_ofBytes (bs : Bytes) : (ofBytes bs).bytes = bs := by
  simp [ofBytes, bytes, Chunk.expand]

end Content

end LogExport
