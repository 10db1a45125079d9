import SectorVault.Bytes

/-!
# The cyclic redundancy check of stored bytes

Reference tables list a 32-bit checksum of every record, and gzip streams end with the same
checksum of their contents.  It is the remainder of the bytes, read as a polynomial over the field
of two elements, modulo a fixed polynomial of degree 32.  Bits are taken least significant first,
so the register shifts right and the polynomial is written in reversed bit order; it starts with
all bits set and is complemented at the end.

The register is a left fold, so the checksum of a string that arrives in pieces is the fold
continued from piece to piece.
-/

namespace SectorVault

namespace Crc32

/-- The generator polynomial, without its leading term and in reversed bit order. -/
def polynomial : UInt32 := 0xEDB88320

/-- One step of the division: the lowest bit leaves the register. -/
def shift (register : UInt32) : UInt32 :=
  if register &&& 1 = 1 then (register >>> 1) ^^^ polynomial else register >>> 1

/-- The register after one more byte. -/
def absorb (register : UInt32) (byte : UInt8) : UInt32 :=
  let r := register ^^^ byte.toUInt32
  shift (shift (shift (shift (shift (shift (shift (shift r)))))))

/-- The register before the first byte. -/
def start : UInt32 := 0xFFFFFFFF

/-- The checksum a register stands for once the last byte is in. -/
def finish (register : UInt32) : UInt32 := ~~~register

end Crc32

/-- The checksum of a byte string. -/
def crc32 (bytes : Bytes) : UInt32 :=
  Crc32.finish (bytes.foldl Crc32.absorb Crc32.start)

/-! ## How a checksum is written in a message -/

/-- The lower-case hexadecimal digit of a number below sixteen. -/
def hexDigit (n : Nat) : Char :=
  if n < 10 then Char.ofNat (48 + n) else Char.ofNat (87 + n)

/-- A word as `0x` and eight hexadecimal digits. -/
def hexWord (w : UInt32) : String :=
  let digits := (List.range 8).reverse.map fun i => hexDigit ((w.toNat >>> (4 * i)) % 16)
  "0x" ++ String.ofList digits

end SectorVault
