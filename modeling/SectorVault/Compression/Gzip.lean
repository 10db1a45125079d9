import SectorVault.Checksum.Crc32
import SectorVault.Compression.Deflate

/-!
# Gzip streams

A gzip stream is a header, deflated data, and a footer of eight bytes: the checksum of the data and
its length, both with their lowest byte first.  The header starts with a mark, the method and a byte
of flags, which announce optional fields: extra data of a stated length, a file name and a comment,
each closed by a zero byte, and a checksum of the header itself.

The footer is looked at only once the last byte of data is out, so a reader that stops before it
never learns that it is wrong.  Whatever follows the footer is not read.
-/

namespace SectorVault

namespace Gzip

/-! ## The header -/

/-- The greatest length of a file name or a comment. -/
def maxTextLength : Nat := 65535

/-- Whether bit `i` of the flags is set. -/
def hasFlag (flags : UInt8) (i : Nat) : Bool := flags.toNat.testBit i

/-- The rest of a string after `count` bytes, if it has that many. -/
def skip (count : Nat) (bytes : Bytes) : Except Fault Bytes :=
  if count ≤ bytes.length then .ok (bytes.drop count) else .error .exhausted

/-- The rest of a string after its first zero byte; `room` more bytes may come before it. -/
def skipText : Nat → Bytes → Except Fault Bytes
  | _, [] => .error .exhausted
  | room, byte :: bytes =>
    if byte = 0 then .ok bytes
    else match room with
      | 0 => .error .corrupt
      | room + 1 => skipText room bytes

/-- The rest of a string after the header's fixed part, and the flags. -/
def fixedPart : Bytes → Except Fault (UInt8 × Bytes)
  | mark0 :: mark1 :: method :: flags :: _ :: _ :: _ :: _ :: _ :: _ :: rest =>
    if mark0 = 0x1F ∧ mark1 = 0x8B ∧ method = 8 ∧ flags &&& 0xE0 = 0 then .ok (flags, rest)
    else .error .corrupt
  | _ => .error .exhausted

/-- The rest of a string after a field of extra data. -/
def skipExtra : Bytes → Except Fault Bytes
  | low :: high :: rest => skip (low.toNat + 256 * high.toNat) rest
  | _ => .error .exhausted

/-- The rest of a string after the header's own checksum, which has to be the lower half of the
checksum of the `header` bytes before it. -/
def skipChecksum (header : Bytes) : Bytes → Except Fault Bytes
  | low :: high :: rest =>
    if low.toNat + 256 * high.toNat = (crc32 header).toNat % 65536 then .ok rest
    else .error .corrupt
  | _ => .error .exhausted

/-- The offset of the deflated data. -/
def dataOffset (payload : Bytes) : Except Fault Nat := do
  let (flags, rest) ← fixedPart payload
  let rest ← if hasFlag flags 2 then skipExtra rest else pure rest
  let rest ← if hasFlag flags 3 then skipText maxTextLength rest else pure rest
  let rest ← if hasFlag flags 4 then skipText maxTextLength rest else pure rest
  let rest ←
    if hasFlag flags 1 then skipChecksum (payload.take (payload.length - rest.length)) rest
    else pure rest
  return payload.length - rest.length

/-! ## Data and footer -/

/-- What the footer is checked against: a checksum register and a length. -/
structure Summary where
  /-- The checksum register after the data so far. -/
  register : UInt32
  /-- The length of the data so far, modulo the range of a word. -/
  length : UInt32

/-- The summary before the first byte. -/
def Summary.start : Summary := ⟨Crc32.start, 0⟩

/-- The summary after one more byte. -/
def Summary.absorb (summary : Summary) (byte : UInt8) : Summary :=
  ⟨Crc32.absorb summary.register byte, summary.length + 1⟩

/-- The footer that fits a summary. -/
def Summary.footer (summary : Summary) : Bytes :=
  (ofWord (Crc32.finish summary.register)).reverse ++ (ofWord summary.length).reverse

/-- The end of the stream: it has to start with the footer that fits the data. -/
def checkFooter (bytes : Array UInt8) (offset : Nat) (summary : Summary) : ByteStream Unit :=
  let footer := slice bytes offset (offset + 8)
  if footer.length < 8 then .failed .exhausted
  else if footer = summary.footer then .finished ()
  else .failed .corrupt

/-- The data of a gzip stream. -/
def decode (payload : Bytes) : ByteStream Unit :=
  match dataOffset payload with
  | .error fault => .failed fault
  | .ok offset =>
    let bytes := payload.toArray
    ((Deflate.inflate bytes offset).summarize Summary.absorb Summary.start).andThen
      fun (stop, summary) => checkFooter bytes stop summary

end Gzip

end SectorVault
