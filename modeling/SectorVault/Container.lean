import SectorVault.Checksum.Crc32
import SectorVault.Cipher.Xtea
import SectorVault.Compression.Kind
import SectorVault.ErrorClass

/-!
# Containers

A container is the form in which a record is stored.  It starts with an envelope of five bytes: the
way it is compressed and the length of its payload.  What follows is the packed part, enciphered as
a whole if there is a key:

* without compression, the payload is the data itself;
* with compression, four bytes state the length of the data and the payload is a compressed stream.

Behind the packed part a compressed container may carry two more bytes, a revision.  They belong to
neither the payload nor the checksum, which covers the envelope and the packed part as stored.

## Which failure is reported

The parts are checked from the outside in: the envelope first, and of the envelope its length before
the kind of compression; then whether the packed part is all there; then the stated length; and then
the stream.  The first three of these are remarkable, since they are what bytes that are no container
at all run into; `ContainerError.rejectsEnvelope` singles them out.

## How much is read of a stream

The stated length is not trusted: of a stream no more than one byte beyond it is read, which is enough
to tell that the stream is longer.  So whatever is wrong with a stream beyond that byte goes unseen.
-/

namespace SectorVault

/-! ## Failures -/

/-- Why bytes do not decode as a container. -/
inductive ContainerError where
  /-- The bytes are fewer than an envelope. -/
  | missingHeader
  /-- The length of the payload is negative or beyond the limit. -/
  | invalidLength (length : Int32)
  /-- No kind of compression has this byte. -/
  | unknownCompression (kind : UInt8)
  /-- The packed part is not all there. -/
  | truncated (expected found : Nat)
  /-- The stated length of the data is negative. -/
  | negativeLength (length : Int32)
  /-- The data is shorter than stated, or longer; in the latter case `found` is one more than
  stated. -/
  | sizeMismatch (expected found : Nat)
  /-- The compressed stream is broken. -/
  | stream (fault : Fault)
  deriving DecidableEq, Repr

namespace ContainerError

/-- What a failure is called. -/
def message : ContainerError → String
  | .missingHeader => "missing header"
  | .invalidLength length => s!"invalid length {length}"
  | .unknownCompression kind => s!"unknown compression type {kind}"
  | .truncated expected found => s!"data truncated (expected {expected} bytes, found {found})"
  | .negativeLength length => s!"uncompressed length is negative: {length}"
  | .sizeMismatch expected found => s!"size mismatch (expected {expected} bytes, found {found})"
  | .stream fault => s!"io error: {fault.message}"

/-- The class of a failure. -/
def errorClass : ContainerError → ErrorClass
  | .missingHeader | .invalidLength _ | .unknownCompression _ => .format
  | .truncated _ _ | .negativeLength _ | .sizeMismatch _ _ => .corruption
  | .stream _ => .unreadable

/-- Whether the envelope itself was refused, before any of the payload was looked at; most likely the
bytes are no container then. -/
def rejectsEnvelope : ContainerError → Bool
  | .missingHeader | .invalidLength _ | .unknownCompression _ => true
  | .truncated _ _ | .negativeLength _ | .sizeMismatch _ _ | .stream _ => false

end ContainerError

/-! ## Containers -/

/-- A decoded container. -/
structure Container where
  /-- The data. -/
  data : Bytes
  /-- How the data was compressed. -/
  compression : Compression
  /-- The revision behind the packed part, or -1. -/
  revision : Int32
  /-- The checksum of the envelope and the packed part. -/
  crc : UInt32
  /-- The length of the envelope and the packed part. -/
  packedLength : Nat
  deriving DecidableEq, Repr

/-- The part of a container that its first five bytes describe. -/
structure Envelope where
  /-- How the data is compressed. -/
  compression : Compression
  /-- The length of the packed part. -/
  packedSize : Nat
  deriving DecidableEq, Repr

namespace Envelope

/-- The number of bytes an envelope takes. -/
def size : Nat := 5

/-- The greatest length of a payload; anything longer is a corrupt envelope. -/
def maxLength : Int := 2000000

/-- Reads the envelope a byte string starts with. -/
def read : Bytes → Except ContainerError Envelope
  | kind :: b0 :: b1 :: b2 :: b3 :: _ =>
    let length := signedOf [b0, b1, b2, b3]
    if 0 ≤ length.toInt ∧ length.toInt ≤ maxLength then
      match Compression.ofByte? kind with
      | some compression => .ok ⟨compression, length.toInt.toNat + compression.statedSize⟩
      | none => .error (.unknownCompression kind)
    else .error (.invalidLength length)
  | _ => .error .missingHeader

end Envelope

namespace Container

/-- The revision that stands for the absence of one. -/
def noRevision : Int32 := -1

/-- The revision in the bytes behind the packed part; a lone byte is none. -/
def revisionOf : Bytes → Int32
  | high :: low :: _ => Int32.ofNat (bigEndian [high, low])
  | _ => noRevision

/-- The bytes of a stream that is stated to have `expected` of them.  One byte more is asked for. -/
def readExactly (stream : ByteStream Unit) (expected : Nat) : Except ContainerError Bytes :=
  match stream.take (expected + 1) with
  | .error fault => .error (.stream fault)
  | .ok bytes =>
    if bytes.length = expected then .ok bytes else .error (.sizeMismatch expected bytes.length)

/-- The data in a deciphered packed part.  One that is too short to state a length ends too early. -/
def unpack (compression : Compression) (plain : Bytes) (decoders : Decoders := .standard) :
    Except ContainerError Bytes :=
  match compression with
  | .none => .ok plain
  | _ =>
    match plain with
    | b0 :: b1 :: b2 :: b3 :: payload =>
      let stated := signedOf [b0, b1, b2, b3]
      if stated.toInt < 0 then .error (.negativeLength stated)
      else readExactly (compression.stream payload decoders) stated.toInt.toNat
    | _ => .error (.stream .exhausted)

/-- Decodes the container a byte string starts with, deciphering it if there is a key.  Which streams are
broken, and what the others hold, is for the decoders to say. -/
def decode (bytes : Bytes) (key : Option Key) (decoders : Decoders := .standard) :
    Except ContainerError Container := do
  let envelope ← Envelope.read bytes
  let body := bytes.drop Envelope.size
  let packedSize := envelope.packedSize
  if body.length < packedSize then throw (.truncated packedSize body.length)
  let revision := match envelope.compression with
    | .none => noRevision
    | _ => revisionOf (body.drop packedSize)
  let data ← unpack envelope.compression (decipherWith key (body.take packedSize)) decoders
  let packedLength := Envelope.size + packedSize
  return ⟨data, envelope.compression, revision, crc32 (bytes.take packedLength), packedLength⟩

end Container

end SectorVault
