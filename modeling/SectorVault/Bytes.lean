/-!
# Byte strings and big-endian numbers

Everything this library reads is a string of bytes, and every number in it is written with its most
significant byte first.  `Bytes` is the plain list of bytes, and two functions tie such strings to
numbers: `bigEndian` is the number a string denotes, and `toBigEndian` is the string of a given
width that denotes a number.  Fields of a fixed width are these two functions at that width.

A whole file is far longer than any record in it, and a record is found by its offset, so files are
kept as arrays and a record is the list `slice` cuts out of one.
-/

namespace SectorVault

/-- A byte string, first byte first. -/
abbrev Bytes := List UInt8

/-! ## Numbers -/

/-- The number a byte string denotes, most significant byte first. -/
def bigEndian (bytes : Bytes) : Nat :=
  bytes.foldl (fun n b => 256 * n + b.toNat) 0

/-- The lowest `width` bytes of a number, most significant byte first. -/
def toBigEndian : Nat → Nat → Bytes
  | 0, _ => []
  | width + 1, n => toBigEndian width (n / 256) ++ [UInt8.ofNat n]

/-- An unsigned word of four bytes. -/
def wordOf (bytes : Bytes) : UInt32 :=
  UInt32.ofNat (bigEndian bytes)

/-- A signed word of four bytes, in two's complement. -/
def signedOf (bytes : Bytes) : Int32 :=
  (wordOf bytes).toInt32

/-- The four bytes of an unsigned word. -/
def ofWord (w : UInt32) : Bytes :=
  toBigEndian 4 w.toNat

/-- The four bytes of a signed word, in two's complement. -/
def ofSigned (w : Int32) : Bytes :=
  ofWord w.toUInt32

/-! ## Slices of a file -/

/-- The bytes of a file from offset `start` up to offset `stop`, short if the file ends first. -/
def slice (file : Array UInt8) (start stop : Nat) : Bytes :=
  (file.extract start stop).toList

/-! ## The codec's laws -/

@[simp] theorem length_toBigEndian (width n : Nat) : (toBigEndian width n).length = width := by
  induction width generalizing n with
  | zero => rfl
  | succ width ih => simp [toBigEndian, ih]

theorem bigEndian_append_singleton (bytes : Bytes) (b : UInt8) :
    bigEndian (bytes ++ [b]) = 256 * bigEndian bytes + b.toNat := by
  simp [bigEndian, List.foldl_append]

end SectorVault
