import SectorVault.Bytes

/-!
# Undoing the block sort

A block of bytes is compressed in sorted form.  All rotations of the block are sorted, and what is
kept is the last byte of each, in that order, with the rank of the block itself among them.  Nothing
is lost: the same bytes in ascending order are the first bytes of the rotations, bytes of one value
keep their relative order, and so each rank leads to the rank of the rotation that starts one byte
later.  Following these links from the block's own rank reads the block from its first byte on.

The links form a permutation of the ranks whatever the bytes are, so a block that is not in fact a
sorted one still reads as something.
-/

namespace SectorVault

namespace Bzip2

/-- The number of bytes of each value. -/
def valueCounts (bytes : Array UInt8) : Array Nat :=
  bytes.foldl (fun counts b => counts.modify b.toNat (· + 1)) (Array.replicate 256 0)

/-- The sums of all entries before each entry. -/
def offsets (counts : Array Nat) : Array Nat :=
  (counts.foldl (fun (sums, total) c => (sums.push total, total + c)) (#[], 0)).1

/-- Enters the links that end at the bytes from index `i` on; the next byte of each value is the one
of rank `free`. -/
def enterLinks : Bytes → Nat → Array Nat → Array Nat → Array Nat
  | [], _, _, links => links
  | byte :: bytes, i, free, links =>
    let rank := (free[byte.toNat]?).getD 0
    enterLinks bytes (i + 1) (free.setIfInBounds byte.toNat (rank + 1)) (links.setIfInBounds rank i)

/-- The link of every rank. -/
def links (bytes : Array UInt8) : Array Nat :=
  enterLinks bytes.toList 0 (offsets (valueCounts bytes)) (Array.replicate bytes.size 0)

/-- Reads `count` bytes along the links from a rank; `done` holds those already read, the last one
first. -/
def follow (bytes : Array UInt8) (links : Array Nat) : Nat → Nat → Bytes → Bytes
  | 0, _, done => done.reverse
  | count + 1, rank, done =>
    follow bytes links count ((links[rank]?).getD 0) ((bytes[rank]?).getD 0 :: done)

/-- The block whose sorted form is given, and whose own rank is `origin`, followed by its first byte
again. -/
def unsort (bytes : Array UInt8) (origin : Nat) : Bytes :=
  let links := links bytes
  follow bytes links (bytes.size + 1) ((links[origin]?).getD 0) []

end Bzip2

end SectorVault
