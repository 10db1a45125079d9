import SectorVault.Compression.Stream

/-!
# Runs of equal bytes

Before it is sorted, data has its runs shortened: four equal bytes in a row are always followed by
a count, and stand for four plus that many bytes.  Expanding is a machine that remembers the last
byte and how often in a row it has come.

A block that ends with four equal bytes lacks their count.  The byte that follows in the order of
the sorted block, which is its first byte again, is then taken for the count, and the block fails
once the bytes it gives are out.

Each block carries a checksum of its expanded bytes, with the same polynomial as the checksum of
records but with the highest bit of a byte first.
-/

namespace SectorVault

namespace Bzip2

/-! ## Expanding -/

/-- The state of the expansion. -/
structure Expander where
  /-- The bytes still to be expanded. -/
  bytes : Bytes
  /-- The last byte. -/
  last : UInt8
  /-- How often in a row the last byte has come, up to four. -/
  seen : Nat
  /-- Whether a count had to be taken from beyond the block. -/
  overrun : Bool

/-- One step of the expansion of a block that is followed by the byte `beyond`, where `lacking` is
the fault of a block that lacks a count. -/
def Expander.step (beyond : UInt8) (lacking : Fault) : Expander → ByteStream.Step Expander Unit
  | ⟨[], last, seen, overrun⟩ =>
    if overrun then .fault lacking
    else if seen = 4 then
      match List.replicate beyond.toNat last with
      | [] => .fault lacking
      | byte :: bytes => .emit byte bytes ⟨[], last, 0, true⟩
    else .halt ()
  | ⟨byte :: rest, last, seen, overrun⟩ =>
    if seen = 4 then
      match List.replicate byte.toNat last with
      | [] => .silent ⟨rest, last, 0, overrun⟩
      | first :: bytes => .emit first bytes ⟨rest, last, 0, overrun⟩
    else if seen ≠ 0 ∧ byte = last then .emit byte [] ⟨rest, last, seen + 1, overrun⟩
    else .emit byte [] ⟨rest, byte, 1, overrun⟩

/-- The expansion of a block that is followed by the byte `beyond`, where `lacking` is the fault of a
block that lacks a count. -/
def expand (block : Bytes) (beyond : UInt8) (lacking : Fault) : ByteStream Unit :=
  ByteStream.unfold (Expander.step beyond lacking) (block.length + 2) ⟨block, 0, 0, false⟩

/-! ## Checksums -/

/-- One step of the division: the highest bit leaves the register. -/
def shiftHigh (register : UInt32) : UInt32 :=
  if register &&& 0x80000000 = 0 then register <<< 1 else (register <<< 1) ^^^ 0x04C11DB7

/-- The register after one more byte. -/
def absorbHigh (register : UInt32) (byte : UInt8) : UInt32 :=
  let r := register ^^^ (byte.toUInt32 <<< 24)
  shiftHigh (shiftHigh (shiftHigh (shiftHigh (shiftHigh (shiftHigh (shiftHigh (shiftHigh r)))))))

/-- The checksum of a stream, from that of the blocks before and that of the next block. -/
def combineChecksums (before block : UInt32) : UInt32 :=
  ((before <<< 1) ||| (before >>> 31)) ^^^ block

/-- The expansion of a block, with its checksum as the result. -/
def expandChecked (block : Bytes) (beyond : UInt8) (lacking : Fault) : ByteStream UInt32 :=
  ((expand block beyond lacking).summarize absorbHigh 0xFFFFFFFF).andThen
    fun (_, register) => .finished (~~~register)

end Bzip2

end SectorVault
