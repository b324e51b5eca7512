import LogExport.Text.Utf8

/-! Packing: what is unpacked is what was packed. How well files are packed is of no
concern here. Bytes in a gzip container whose blocks are stored without compression
are one way to do it. -/

namespace LogExport

namespace Gzip

/-- The lowest `width` bytes of a number, the lowest first. -/
def littleEndian : Nat → Nat → Bytes
  | 0, _ => []
  | width + 1, n => UInt8.ofNat n :: littleEndian width (n / 256)

def ofLittleEndian : Bytes → Nat
  | [] => 0
  | b :: bs => b.toNat + 256 * ofLittleEndian bs

/-! ### The checksum -/

def crcBit (c : UInt32) : UInt32 :=
  if c &&& 1 = 1 then (c >>> 1) ^^^ 0xEDB88320 else c >>> 1

def crcByte (c : UInt32) (b : UInt8) : UInt32 :=
  (List.range 8).foldl (fun c _ => crcBit c) (c ^^^ b.toUInt32)

/-- The cyclic redundancy check of 32 bits. -/
def crc (bs : Bytes) : UInt32 := bs.foldl crcByte 0xFFFFFFFF ^^^ 0xFFFFFFFF

/-! ### Stored blocks -/

def maxBlock : Nat := 65535

/-- A block: whether it is the last, its length, the complement of that, and
the bytes. -/
def block (last : Bool) (bs : Bytes) : Bytes :=
  (if last then 1 else 0) :: (littleEndian 2 bs.length ++ littleEndian 2 (maxBlock - bs.length) ++ bs)

def blocks (bs : Bytes) : Bytes :=
  if _h : bs.length ≤ maxBlock then block true bs
  else block false (bs.take maxBlock) ++ blocks (bs.drop maxBlock)
termination_by bs.length
decreasing_by
  simp only [List.length_drop, maxBlock] at *
  omega

/-- Reads blocks up to the last one: the bytes in them, and what follows. -/
def unblock? : Nat → Bytes → Option (Bytes × Bytes)
  | fuel + 1, last :: a :: b :: c :: d :: rest =>
    let n := ofLittleEndian [a, b]
    if ofLittleEndian [c, d] = maxBlock - n ∧ n ≤ rest.length then
      if last = 1 then some (rest.take n, rest.drop n)
      else if last = 0 then
        (unblock? fuel (rest.drop n)).map fun (bs, r) => (rest.take n ++ bs, r)
      else none
    else none
  | _, _ => none

/-! ### The container -/

/-- Magic number, method, no flags, no time, unknown system. -/
def header : Bytes := [0x1f, 0x8b, 8, 0, 0, 0, 0, 0, 0, 0xff]

/-- Checksum and length. -/
def trailer (bs : Bytes) : Bytes :=
  littleEndian 4 (crc bs).toNat ++ littleEndian 4 bs.length

def pack (bs : Bytes) : Bytes := header ++ blocks bs ++ trailer bs

/-- The packed bytes, if the container is sound. -/
def unpack? (packed : Bytes) : Option Bytes :=
  if packed.take header.length = header then
    match unblock? packed.length (packed.drop header.length) with
    | some (bs, rest) => if rest = trailer bs then some bs else none
    | none => none
  else none

theorem littleEndian_two (n : Nat) :
    littleEndian 2 n = [UInt8.ofNat n, UInt8.ofNat (n / 256)] := rfl

theorem ofLittleEndian_two {n : Nat} (h : n ≤ maxBlock) :
    ofLittleEndian [UInt8.ofNat n, UInt8.ofNat (n / 256)] = n := by
  have h2 : n / 256 < 256 := by
    simp only [maxBlock] at h
    omega
  simp only [ofLittleEndian, UInt8.toNat_ofNat', Nat.mul_zero, Nat.add_zero]
  omega

/-- One block is read back, and the reading goes on after it. -/
theorem unblock?_block (fuel : Nat) (last : Bool) (bs rest : Bytes) (h : bs.length ≤ maxBlock) :
    unblock? (fuel + 1) (block last bs ++ rest) =
      if last then some (bs, rest)
      else (unblock? fuel rest).map fun (cs, r) => (bs ++ cs, r) := by
  have h1 := ofLittleEndian_two h
  have h2 := ofLittleEndian_two (Nat.sub_le maxBlock bs.length)
  cases last <;>
    simp [block, littleEndian_two, unblock?, h1, h2]

theorem unblock?_blocks (fuel : Nat) (bs rest : Bytes) (h : bs.length < fuel) :
    unblock? fuel (blocks bs ++ rest) = some (bs, rest) := by
  induction fuel generalizing bs with
  | zero => omega
  | succ fuel ih =>
    rw [blocks]
    split
    · next hb => simp [unblock?_block fuel true bs rest hb]
    · next hb =>
      have ht : (bs.take maxBlock).length ≤ maxBlock := by simp only [List.length_take]; omega
      have hd : (bs.drop maxBlock).length < fuel := by
        simp only [List.length_drop, maxBlock] at *
        omega
      rw [List.append_assoc, unblock?_block fuel false _ _ ht]
      simp [ih _ hd]

theorem length_le_blocks (bs : Bytes) : bs.length < (blocks bs).length := by
  fun_induction blocks bs with
  | case1 bs h => simp [block]; omega
  | case2 bs h ih =>
    simp only [block, List.length_append, List.length_cons, List.length_take, List.length_drop] at *
    omega

/-- What is unpacked is what was packed. -/
theorem unpack?_pack (bs : Bytes) : unpack? (pack bs) = some bs := by
  have hl := length_le_blocks bs
  have hb := unblock?_blocks (pack bs).length bs (trailer bs)
    (by simp only [pack, List.length_append]; omega)
  have hp : pack bs = header ++ (blocks bs ++ trailer bs) := List.append_assoc ..
  have ht : (pack bs).take header.length = header := by rw [hp, List.take_left]
  have hd : (pack bs).drop header.length = blocks bs ++ trailer bs := by rw [hp, List.drop_left]
  simp [unpack?, ht, hd, hb]

/-- A way to pack files, and to unpack them again. -/
structure Coder where
  pack : Bytes → Bytes
  unpack? : Bytes → Option Bytes
  unpack?_pack : ∀ bs, unpack? (pack bs) = some bs

/-- Packing without compression. -/
def Coder.stored : Coder := ⟨Gzip.pack, Gzip.unpack?, Gzip.unpack?_pack⟩

instance : Inhabited Coder := ⟨.stored⟩

end Gzip

end LogExport
