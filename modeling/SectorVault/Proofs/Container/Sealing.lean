import Mathlib
import SectorVault.Container.Seal
import SectorVault.Proofs.Compression.Reading
import SectorVault.Proofs.Container.Decoding

/-!
# Decoding undoes sealing

A sealed container decodes, under the key it was sealed with, to the data it was made from.  It does
so whatever follows it: the envelope says how long the packed part is, and nothing behind that is
looked at but a revision, which a container without compression does not have.

The checksum is that of the container as it was sealed, since it covers the envelope and the whole
packed part before either is deciphered.

Of a compressor nothing is needed but that its decoder, whichever one is used, hands out the data and
then ends cleanly (`ByteStream.all`).  Decoding asks for one byte more than there are, and so it comes to
see that end.
-/

namespace SectorVault

/-! ## What a stream holds -/

namespace ByteStream

variable {α : Type}

/-- All bytes of a stream, if it ends cleanly. -/
def all : ByteStream α → Except Fault Bytes
  | .finished _ => .ok []
  | .failed fault => .error fault
  | .next byte rest => (all (rest ())).map (byte :: ·)

theorem all_eq (stream : ByteStream α) : stream.all = stream.ending.map fun _ => stream.bytes := by
  induction stream with
  | finished | failed => rfl
  | next byte rest ih =>
    rw [all, ih (), ending, bytes]
    cases (rest ()).ending <;> rfl

/-- A stream is read in full if there is room for one byte more. -/
theorem take_of_all {stream : ByteStream α} {bytes : Bytes} (whole : stream.all = .ok bytes)
    {limit : Nat} (room : bytes.length < limit) : stream.take limit = .ok bytes := by
  have ends := whole
  rw [all_eq, map_eq_ok] at ends
  obtain ⟨_, -, rfl⟩ := ends
  rw [take_eq, if_neg (Nat.not_le.2 room), ← all_eq, whole]

end ByteStream

theorem Container.readExactly_of_all {stream : ByteStream Unit} {data : Bytes}
    (whole : stream.all = .ok data) : readExactly stream data.length = .ok data := by
  have taken : stream.take (data.length + 1) = .ok data :=
    ByteStream.take_of_all whole (Nat.lt_succ_self _)
  simp only [readExactly, taken, if_true]

/-! ## Envelopes -/

namespace Envelope

variable {compression : Compression} {length : Nat} {packed : Bytes}

theorem kindOf_envelope (compression : Compression) (length : Nat) (rest : Bytes) :
    kindOf (Container.envelope compression length ++ rest) = compression.toByte := rfl

theorem lengthOf_envelope (compression : Compression) (acceptable : length ≤ 2000000) (rest : Bytes) :
    (lengthOf (Container.envelope compression length ++ rest)).toInt = length := by
  have field : ((Container.envelope compression length ++ rest).drop 1).take 4 =
      toBigEndian 4 length :=
    List.take_left' (length_toBigEndian 4 length)
  rw [lengthOf, field, toInt_signedOf_toBigEndian (by omega)]

@[simp] theorem length_envelope (compression : Compression) (length : Nat) :
    (Container.envelope compression length).length = size := by
  simp [Container.envelope, size]

theorem packedSizeOf_envelope (acceptable : length ≤ 2000000)
    (whole : packed.length = length + compression.statedSize) (rest : Bytes) :
    packedSizeOf (Container.envelope compression length ++ (packed ++ rest)) = packed.length := by
  rw [packedSizeOf_eq (kindOf_envelope _ _ _), lengthOf_envelope _ acceptable, whole,
    Int.toNat_natCast]

theorem framed_envelope (acceptable : length ≤ 2000000)
    (whole : packed.length = length + compression.statedSize) (rest : Bytes) :
    Framed (Container.envelope compression length ++ (packed ++ rest)) compression := by
  refine ⟨?_, ?_, kindOf_envelope _ _ _, ?_⟩
  · rw [List.length_append, length_envelope, size]
    omega
  · rw [InRange, lengthOf_envelope _ acceptable]
    omega
  · rw [packedSizeOf_envelope acceptable whole, List.length_append, length_envelope, size,
      List.length_append]
    omega

end Envelope

/-! ## Sealed containers -/

namespace Container

open Envelope

variable {compression : Compression} {length : Nat} {plain : Bytes} {decoders : Decoders}

theorem plainOf_envelope (acceptable : length ≤ 2000000)
    (whole : plain.length = length + compression.statedSize) (key : Option Key) (rest : Bytes) :
    plainOf (envelope compression length ++ (encipherWith key plain ++ rest)) key = plain := by
  have size_eq : (envelope compression length).length = 5 := length_envelope compression length
  have packed : (encipherWith key plain).length = length + compression.statedSize := by
    rw [length_encipherWith, whole]
  rw [plainOf, packedSizeOf_envelope acceptable packed, List.drop_left' size_eq, List.take_left,
    decipherWith_encipherWith]

theorem decode_envelope (acceptable : length ≤ 2000000)
    (whole : plain.length = length + compression.statedSize) (key : Option Key) (rest : Bytes) :
    decode (envelope compression length ++ (encipherWith key plain ++ rest)) key decoders =
      (unpack compression plain decoders).map fun data =>
        ⟨data, compression, trailerOf (envelope compression length ++ (encipherWith key plain ++ rest)),
          crc32 (envelope compression length ++ encipherWith key plain), 5 + plain.length⟩ := by
  have packed : (encipherWith key plain).length = length + compression.statedSize := by
    rw [length_encipherWith, whole]
  have covered : (envelope compression length ++ (encipherWith key plain ++ rest)).take
      (5 + plain.length) = envelope compression length ++ encipherWith key plain := by
    rw [← List.append_assoc, List.take_left' (by simp [Envelope.size])]
  rw [decode_of_framed (framed_envelope acceptable packed rest), plainOf_envelope acceptable whole,
    packedSizeOf_envelope acceptable packed, length_encipherWith, covered]

theorem length_sealPlain (data : Bytes) (key : Option Key) :
    (sealPlain data key).length = Envelope.size + data.length := by
  simp [sealPlain]

theorem sealPlain_ne_nil (data : Bytes) (key : Option Key) : sealPlain data key ≠ [] := by
  simp [sealPlain, envelope]

/-- A container without compression decodes to the data it was made from. -/
theorem decode_sealPlain {data : Bytes} (h : data.length ≤ 2000000) (key : Option Key)
    (rest : Bytes) (decoders : Decoders := .standard) :
    decode (sealPlain data key ++ rest) key decoders =
      .ok ⟨data, .none, noRevision, crc32 (sealPlain data key), (sealPlain data key).length⟩ := by
  have whole : data.length = data.length + Compression.none.statedSize := rfl
  rw [length_sealPlain, sealPlain, List.append_assoc, decode_envelope h whole key rest,
    trailerOf_of_plain (kindOf_envelope _ _ _)]
  rfl

/-- A packed part that states a length unpacks to what its payload holds. -/
theorem unpack_stated {data payload : Bytes} (compressed : compression ≠ .none)
    (short : data.length < 2 ^ 31) (whole : (compression.stream payload decoders).all = .ok data) :
    unpack compression (toBigEndian 4 data.length ++ payload) decoders = .ok data := by
  have width : (toBigEndian 4 data.length).length = 4 := length_toBigEndian 4 _
  have stated := toInt_signedOf_toBigEndian short
  rw [unpack_of_compressed compressed (by simp), List.take_left' width, List.drop_left' width, stated,
    if_neg (by omega), Int.toNat_natCast, readExactly_of_all whole]

theorem trailerOf_revisionBytes (acceptable : length ≤ 2000000) (compressed : compression ≠ .none)
    {packed : Bytes} (whole : packed.length = length + compression.statedSize)
    (revision : Option UInt16) :
    trailerOf (envelope compression length ++ (packed ++ revisionBytes revision)) =
      match revision with
      | some r => Int32.ofNat r.toNat
      | none => noRevision := by
  have size_eq : (envelope compression length).length = 5 := length_envelope compression length
  have kind : kindOf (envelope compression length ++ (packed ++ revisionBytes revision)) ≠ 0 := by
    rw [kindOf_envelope]
    exact Compression.toByte_ne_zero compressed
  rw [trailerOf_of_packed kind, packedSizeOf_envelope acceptable whole, ← List.append_assoc,
    List.drop_left' (by rw [List.length_append, size_eq])]
  cases revision with
  | none => rfl
  | some r =>
    have small : r.toNat < 256 ^ 2 := r.toNat_lt
    have value := bigEndian_toBigEndian_of_lt small
    obtain ⟨high, low, field⟩ := List.length_eq_two.1 (length_toBigEndian 2 r.toNat)
    rw [field] at value
    simp only [revisionBytes, field, revisionOf, value]

/-- The containers that hold some data under a key: those that are sealed without compression, whatever
follows them, and those of the payloads that the decoder of their compression reads as the data. -/
inductive Holds (data : Bytes) (key : Option Key) : Bytes → Prop
  | plain (acceptable : data.length ≤ 2000000) (rest : Bytes) : Holds data key (sealPlain data key ++ rest)
  | compressed {compression : Compression} {payload : Bytes} (compressed : compression ≠ .none)
      (short : data.length < 2 ^ 31) (acceptable : payload.length ≤ 2000000)
      (whole : (compression.stream payload).all = .ok data) (revision : Option UInt16) :
      Holds data key (sealCompressed compression data.length payload key revision)

theorem Holds.length_lt {data : Bytes} {key : Option Key} {stored : Bytes}
    (holds : Holds data key stored) : data.length < 2 ^ 31 := by
  cases holds with
  | plain acceptable => omega
  | compressed _ short => exact short

theorem Holds.exists_decode {data : Bytes} {key : Option Key} {stored : Bytes}
    (holds : Holds data key stored) :
    ∃ container, decode stored key = .ok container ∧ container.data = data := by
  cases holds with
  | plain acceptable rest => exact ⟨_, decode_sealPlain acceptable key rest, rfl⟩
  | @compressed compression payload compressed short acceptable whole revision =>
    have plain : (toBigEndian 4 data.length ++ payload).length =
        payload.length + compression.statedSize := by
      rw [List.length_append, length_toBigEndian, Nat.add_comm,
        Compression.statedSize_eq_four compressed]
    rw [sealCompressed, List.append_assoc, decode_envelope acceptable plain,
      unpack_stated compressed short whole]
    exact ⟨_, rfl, rfl⟩

/-- **Decoding undoes sealing.**  Whatever the decoders are, a container with compression decodes to the data
that its payload holds for the decoder of its compression, with the revision behind it if there is one, and a
container without compression to the data itself, whatever is behind it. -/
theorem decode_sealed (decoders : Decoders) (data : Bytes) (key : Option Key) :
    (∀ (compression : Compression) (payload : Bytes) (revision : Option UInt16),
      compression ≠ .none → data.length < 2 ^ 31 → payload.length ≤ 2000000 →
      (compression.stream payload decoders).all = .ok data →
        decode (sealCompressed compression data.length payload key revision) key decoders = .ok {
          data := data
          compression := compression
          revision := revision.elim (-1) fun r => Int32.ofNat r.toNat
          crc := crc32 (sealCompressed compression data.length payload key none)
          packedLength := 9 + payload.length }) ∧
    (data.length ≤ 2000000 → ∀ rest,
      decode (sealPlain data key ++ rest) key decoders = .ok {
        data := data
        compression := .none
        revision := -1
        crc := crc32 (sealPlain data key)
        packedLength := 5 + data.length }) := by
  constructor
  · intro compression payload revision compressed short acceptable whole
    have plain : (toBigEndian 4 data.length ++ payload).length =
        payload.length + compression.statedSize := by
      rw [List.length_append, length_toBigEndian, Nat.add_comm,
        Compression.statedSize_eq_four compressed]
    have packed := plain
    rw [← length_encipherWith key] at packed
    have size : 5 + (toBigEndian 4 data.length ++ payload).length = 9 + payload.length := by
      rw [List.length_append, length_toBigEndian, ← Nat.add_assoc]
    rw [sealCompressed, List.append_assoc, decode_envelope acceptable plain,
      unpack_stated compressed short whole, trailerOf_revisionBytes acceptable compressed packed, size,
      sealCompressed, revisionBytes, List.append_nil]
    cases revision <;> rfl
  · intro acceptable rest
    rw [decode_sealPlain acceptable key rest decoders, length_sealPlain]
    rfl

/-- Two letters as a gzip stream with one stored block. -/
def storedGzip : Bytes :=
  [31, 139, 8, 0, 0, 0, 0, 0, 0, 255, 1, 2, 0, 253, 255, 104, 105, 172, 42, 147, 216, 2, 0, 0, 0]

/-- One letter as a block-sorted stream without its header. -/
def letterBzip2 : Bytes :=
  [49, 65, 89, 38, 83, 89, 25, 147, 155, 107, 0, 0, 0, 1, 0, 32, 0, 32, 0, 33, 24, 70, 130, 238, 72,
    167, 10, 18, 3, 50, 115, 109, 96]

theorem decode_sealed_letters :
    (Compression.gzip.stream storedGzip).all = .ok [104, 105] ∧
      (Compression.bzip2.stream letterBzip2).all = .ok [97] ∧
      decode (sealCompressed .gzip 2 storedGzip (some ⟨1, 2, 3, 4⟩) (some 7)) (some ⟨1, 2, 3, 4⟩) =
        .ok ⟨[104, 105], .gzip, 7, crc32 (sealCompressed .gzip 2 storedGzip (some ⟨1, 2, 3, 4⟩) none),
          34⟩ ∧
      decode (sealCompressed .bzip2 1 letterBzip2 none none) none =
        .ok ⟨[97], .bzip2, -1, crc32 (sealCompressed .bzip2 1 letterBzip2 none none), 42⟩ ∧
      decode (sealPlain [97] (some ⟨1, 2, 3, 4⟩) ++ [0, 7]) (some ⟨1, 2, 3, 4⟩) =
        .ok ⟨[97], .none, -1, crc32 (sealPlain [97] (some ⟨1, 2, 3, 4⟩)), 6⟩ := by
  have gzip : (Compression.gzip.stream storedGzip).all = .ok [104, 105] := by decide +kernel
  have bzip2 : (Compression.bzip2.stream letterBzip2).all = .ok [97] := by decide +kernel
  have two := (decode_sealed .standard [104, 105] (some ⟨1, 2, 3, 4⟩)).1 .gzip storedGzip (some 7)
    (by decide) (by decide) (by decide) gzip
  have one := (decode_sealed .standard [97] none).1 .bzip2 letterBzip2 none
    (by decide) (by decide) (by decide) bzip2
  have plain := (decode_sealed .standard [97] (some ⟨1, 2, 3, 4⟩)).2 (by decide) [0, 7]
  exact ⟨gzip, bzip2, two, one, plain⟩

end Container

end SectorVault
