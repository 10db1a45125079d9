import SectorVault.Compression.Bzip2
import SectorVault.Compression.Gzip

/-!
# Kinds of compression

A container says in one byte how its data is compressed: not at all, as a gzip stream, or as a
block-sorted stream.  Streams of the latter kind are stored without their header, which is always the
same one; it is put back before they are decoded.  Its level is the lowest one, so a block of more
than 100000 bytes is corrupt.

How a stream is decoded is not a matter of containers.  Whatever is said of these holds for any
`Decoders`; a program takes the standard ones.
-/

namespace SectorVault

/-- What decodes streams. -/
structure Decoders where
  /-- Decodes a block-sorted stream with its header. -/
  bzip2 : Bytes → ByteStream Unit
  /-- Decodes a gzip stream. -/
  gzip : Bytes → ByteStream Unit

/-- The decoders that programs use. -/
def Decoders.standard : Decoders := ⟨Bzip2.decode, Gzip.decode⟩

/-- How the data of a container is compressed. -/
inductive Compression where
  /-- Not at all. -/
  | none
  /-- As a block-sorted stream without its header. -/
  | bzip2
  /-- As a gzip stream. -/
  | gzip
  deriving DecidableEq, Repr

namespace Compression

/-- Data is not compressed unless it says so. -/
instance : Inhabited Compression := ⟨.none⟩

/-- The byte that stands for a kind of compression. -/
def toByte : Compression → UInt8
  | .none => 0
  | .bzip2 => 1
  | .gzip => 2

/-- The kind of compression a byte stands for. -/
def ofByte? : UInt8 → Option Compression
  | 0 => some .none
  | 1 => some .bzip2
  | 2 => some .gzip
  | _ => Option.none

@[simp] theorem ofByte?_toByte (c : Compression) : ofByte? c.toByte = some c := by
  cases c <;> rfl

/-- The number of bytes before the payload that state the length of the data. -/
def statedSize : Compression → Nat
  | .none => 0
  | .bzip2 => 4
  | .gzip => 4

/-- The header that block-sorted streams are stored without: the mark and the lowest level. -/
def bzip2Header : Bytes := [0x42, 0x5A, 0x68, 0x31]

/-- The data that a payload holds. -/
def stream (compression : Compression) (payload : Bytes) (decoders : Decoders := .standard) :
    ByteStream Unit :=
  match compression with
  | .none => ByteStream.emit payload fun _ => .finished ()
  | .bzip2 => decoders.bzip2 (bzip2Header ++ payload)
  | .gzip => decoders.gzip payload

end Compression

end SectorVault
