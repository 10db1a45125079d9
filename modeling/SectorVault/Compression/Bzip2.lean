import SectorVault.Compression.Bzip2.Block
import SectorVault.Compression.Bzip2.Randomization
import SectorVault.Compression.Bzip2.Runs
import SectorVault.Compression.Bzip2.Sorting
import SectorVault.Compression.Bzip2.Supply

/-!
# Block-sorted streams

A bzip2 stream starts with a mark and a level, the size of its blocks in units of 100000 bytes.
Blocks follow, each with a mark of its own, and then a closing mark and a checksum of the blocks'
checksums.  Marks and blocks follow each other bit by bit, without regard to the bounds of bytes.
Whatever follows the closing checksum is not read.

## Looking ahead

A block is handed out as soon as it is decoded, and its checksum is compared once its last byte is
out.  A decoder that hands out the last byte of a request has, in the same breath, looked at what
comes next, so a stream that turns out to be corrupt right after a byte withholds that byte.  Two
things limit how far it looks:

* the input comes in pieces, and looking ahead does not get the next one (`Supply`), so what lies
  beyond the current piece counts as not there yet;
* in a randomised block, a lacking count is noticed only when another byte is asked for.

In both cases the fault is one of input that is used up, which withholds nothing.
-/

namespace SectorVault

namespace Bzip2

/-- The size in bytes of one unit of the level. -/
def levelUnit : Nat := 100000

/-- Reads the bytes of a mark one by one. -/
def readMark : List UInt8 → BitReader Unit
  | [] => pure ()
  | expected :: mark => do
    BitReader.require ((← BitReader.byte) == expected)
    readMark mark

/-- What follows the header or a block. -/
inductive Part where
  /-- Another block. -/
  | block (block : Block)
  /-- The end of the stream. -/
  | closing

/-- Reads the next part of a stream with blocks of at most `capacity` bytes, where `checksum` is that
of the blocks before. -/
def readPart (capacity : Nat) (checksum : UInt32) : BitReader Part := do
  let first ← BitReader.byte
  if first = 0x17 then
    readMark [0x72, 0x45, 0x38, 0x50, 0x90]
    BitReader.require (UInt32.ofNat (← BitReader.number 32) == checksum)
    return .closing
  else
    BitReader.require (first == 0x31)
    readMark [0x41, 0x59, 0x26, 0x53, 0x59]
    return .block (← readBlock capacity)

/-- The fault that looking ahead from a cursor finds in the next part, which is broken, when the input
is visible up to an offset. -/
def faultAhead (capacity : Nat) (checksum : UInt32) (cursor : BitCursor) (visible : Nat) : Fault :=
  match (readPart capacity checksum).run
      { cursor with bytes := cursor.bytes.extract 0 visible } with
  | .error fault => fault
  | .ok _ => .exhausted

/-- The bytes a block stands for, with their checksum as the result. -/
def Block.contents (block : Block) : ByteStream UInt32 :=
  let unsorted := unsort block.bytes block.origin
  let plain := if block.randomized then derandomize unsorted else unsorted
  let lacking := if block.randomized then Fault.exhausted else Fault.corrupt
  expandChecked (plain.take block.bytes.size) ((plain[block.bytes.size]?).getD 0) lacking

/-- The blocks from a cursor on, at most `fuel` of them, where `checksum` is that of the blocks
before. -/
def readBlocks (capacity : Nat) : Nat → BitCursor → UInt32 → Supply → ByteStream Unit
  | 0, _, _, _ => .failed .exhausted
  | fuel + 1, cursor, checksum, supply =>
    match (readPart capacity checksum).run cursor with
    | .error _ => .failed (faultAhead capacity checksum cursor supply.visible)
    | .ok (.closing, _) => .finished ()
    | .ok (.block block, cursor) =>
      let outputs := block.contents.summarize (fun supply _ => supply.handOut)
        (supply.readTo cursor.byteOffset)
      outputs.andThen fun (found, supply) =>
        if found = block.checksum then
          readBlocks capacity fuel cursor (combineChecksums checksum found) supply
        else .failed .corrupt

/-- Reads the header: a mark and the level, from which follows the size of a block. -/
def readHeader : BitReader Nat := do
  readMark [0x42, 0x5A, 0x68]
  let level := (← BitReader.byte).toNat - 48
  BitReader.require (1 ≤ level && level ≤ 9)
  return level * levelUnit

/-- The data of a bzip2 stream. -/
def decode (stream : Bytes) : ByteStream Unit :=
  let cursor := BitCursor.start .highFirst stream.toArray 0
  match readHeader.run cursor with
  | .error fault => .failed fault
  | .ok (capacity, cursor) =>
    (readBlocks capacity (cursor.remaining + 1) cursor 0 Supply.start).inPortions 1

end Bzip2

end SectorVault
