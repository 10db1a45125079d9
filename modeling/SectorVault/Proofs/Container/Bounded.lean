import Mathlib
import SectorVault.Proofs.Container.Sealing

/-!
# Streams that do not keep to their stated length

The length that a container states of its data is not trusted, and neither is the stream.  What reading one
under a stated length comes to is settled by the bytes it would hand out and the way it would end
(`ReadsAs`): one that ends cleanly at the stated length is the data, one that ends cleanly before it is too
short, one that goes on behind it is too long, and one that fails up to there is broken.  The four exclude
each other and leave nothing out, so each of the outcomes arises exactly in its own case
(`readExactly_eq_iff`).

A stream that is too long and a stream that is broken behind the stated length look the same, since one byte
beyond is the last thing that is asked for.
-/

namespace SectorVault
namespace Container

open ByteStream Envelope

variable {stream stream' : ByteStream Unit} {expected : Nat} {outcome : Except ContainerError Bytes}

/-! ## The four cases -/

/-- What reading a stream that is stated to have some number of bytes comes to. -/
inductive ReadsAs (stream : ByteStream Unit) (expected : Nat) : Except ContainerError Bytes → Prop
  /-- It ends cleanly after as many. -/
  | exact (ends : stream.ending = .ok ()) (length : stream.bytes.length = expected) :
    ReadsAs stream expected (.ok stream.bytes)
  /-- It ends cleanly after fewer. -/
  | short (ends : stream.ending = .ok ()) (fewer : stream.bytes.length < expected) :
    ReadsAs stream expected (.error (.sizeMismatch expected stream.bytes.length))
  /-- It has one more, whatever comes then. -/
  | long (more : expected + 1 ≤ stream.bytes.length) :
    ReadsAs stream expected (.error (.sizeMismatch expected (expected + 1)))
  /-- It fails before it has one more. -/
  | broken (fault : Fault) (fails : stream.ending = .error fault)
    (early : stream.bytes.length ≤ expected) : ReadsAs stream expected (.error (.stream fault))

theorem readsAs_readExactly (stream : ByteStream Unit) (expected : Nat) :
    ReadsAs stream expected (readExactly stream expected) := by
  unfold readExactly
  rw [take_eq]
  by_cases more : expected + 1 ≤ stream.bytes.length
  · have length : (stream.bytes.take (expected + 1)).length = expected + 1 :=
      List.length_take_of_le more
    rw [if_pos more]
    simp only [length, Nat.succ_ne_self, if_false]
    exact .long more
  rw [if_neg more]
  have early : stream.bytes.length ≤ expected := by omega
  cases ends : stream.ending with
  | error fault => exact .broken fault ends early
  | ok =>
    simp only [Except.map]
    by_cases length : stream.bytes.length = expected
    · rw [if_pos length]
      exact .exact ends length
    · rw [if_neg length]
      exact .short ends (Nat.lt_of_le_of_ne early length)

theorem readExactly_of_readsAs (reads : ReadsAs stream expected outcome) :
    readExactly stream expected = outcome := by
  unfold readExactly
  rw [take_eq]
  cases reads with
  | exact ends length =>
    rw [if_neg (by omega), ends]
    simp only [Except.map, length, if_true]
  | short ends fewer =>
    rw [if_neg (by omega), ends]
    simp only [Except.map, Nat.ne_of_lt fewer, if_false]
  | long more =>
    have length : (stream.bytes.take (expected + 1)).length = expected + 1 :=
      List.length_take_of_le more
    rw [if_pos more]
    simp only [length, Nat.succ_ne_self, if_false]
  | broken fault fails early =>
    rw [if_neg (by omega), fails]
    rfl

theorem readExactly_eq_iff :
    readExactly stream expected = outcome ↔ ReadsAs stream expected outcome := by
  constructor
  · rintro rfl
    exact readsAs_readExactly stream expected
  · exact readExactly_of_readsAs

/-! ## Containers -/

/-- The payload of a compressed container, deciphered. -/
def payloadOf (bytes : Bytes) (key : Option Key) : Bytes := (plainOf bytes key).drop 4

theorem decode_of_stated {decoders : Decoders} {bytes : Bytes} {key : Option Key}
    {compression : Compression} (framed : Framed bytes compression) (compressed : compression ≠ .none)
    (nonnegative : 0 ≤ (statedOf bytes key).toInt) :
    decode bytes key decoders =
      (readExactly (compression.stream (payloadOf bytes key) decoders)
        (statedOf bytes key).toInt.toNat).map
        fun data => ⟨data, compression, trailerOf bytes, crc32 (bytes.take (5 + packedSizeOf bytes)),
          5 + packedSizeOf bytes⟩ := by
  rw [decode_of_compressed framed compressed, if_neg (Int.not_lt.2 nonnegative), payloadOf]

/-- **Decompression is bounded.**  Whatever a stream may do, reading it under a stated length gives its bytes
exactly if there are as many and it ends cleanly then; there is a mismatch exactly if it ends cleanly before,
with the bytes there are, or has one byte more, and then it is one more that is found; and it fails
exactly if the stream does so before it has one byte more.  So what it does beyond that byte makes no
difference, and at no moment are there more bytes taken than one beyond the stated length.  The data of a
compressed container is what reading the stream of its payload comes to, whatever the decoders are. -/
theorem decode_bounded :
    (∀ (stream : ByteStream Unit) (expected : Nat),
      (∀ data, readExactly stream expected = .ok data ↔
        stream.bytes = data ∧ data.length = expected ∧ stream.ending = .ok ()) ∧
      (∀ stated found, readExactly stream expected = .error (.sizeMismatch stated found) ↔
        stated = expected ∧
          (stream.ending = .ok () ∧ stream.bytes.length = found ∧ found < expected ∨
            expected + 1 ≤ stream.bytes.length ∧ found = expected + 1)) ∧
      (∀ fault, readExactly stream expected = .error (.stream fault) ↔
        stream.ending = .error fault ∧ stream.bytes.length ≤ expected) ∧
      (∀ stream' : ByteStream Unit,
        stream'.events.take (expected + 1) = stream.events.take (expected + 1) →
          readExactly stream' expected = readExactly stream expected) ∧
      (∀ moment, Relation.ReflTransGen Moment.Takes (.start (expected + 1) stream) moment →
        moment.taken.length ≤ expected + 1 ∧
        moment.outcome = stream.take (expected + 1) ∧
        (moment.taken.length = expected + 1 → ∀ rest : ByteStream Unit,
          Moment.outcome { moment with rest := rest } = stream.take (expected + 1)))) ∧
    (∀ decoders bytes key compression, Framed bytes compression → compression ≠ .none →
      0 ≤ (statedOf bytes key).toInt →
        let stream := compression.stream (payloadOf bytes key) decoders
        let expected := (statedOf bytes key).toInt.toNat
        (∀ data, (∃ container, decode bytes key decoders = .ok container ∧ container.data = data) ↔
          readExactly stream expected = .ok data) ∧
        ∀ error, decode bytes key decoders = .error error ↔
          readExactly stream expected = .error error) := by
  refine ⟨fun stream expected => ⟨?_, ?_, ?_, ?_, ?_⟩, ?_⟩
  · intro data
    rw [readExactly_eq_iff]
    constructor
    · rintro ⟨ends, length⟩
      exact ⟨rfl, length, ends⟩
    · rintro ⟨rfl, length, ends⟩
      exact .exact ends length
  · intro stated found
    rw [readExactly_eq_iff]
    constructor
    · intro reads
      cases reads with
      | short ends fewer => exact ⟨rfl, .inl ⟨ends, rfl, fewer⟩⟩
      | long more => exact ⟨rfl, .inr ⟨more, rfl⟩⟩
    · rintro ⟨rfl, ⟨ends, rfl, fewer⟩ | ⟨more, rfl⟩⟩
      · exact .short ends fewer
      · exact .long more
  · intro fault
    rw [readExactly_eq_iff]
    constructor
    · intro reads
      cases reads with
      | broken _ fails early => exact ⟨fails, early⟩
    · rintro ⟨fails, early⟩
      exact .broken fault fails early
  · intro stream' same
    rw [readExactly, readExactly, take_congr same]
  · intro moment run
    have during := Moment.duringReading_of_run run
    refine ⟨?_, during.outcome_eq, fun full rest => during.outcome_of_full full rest⟩
    have := during.room_eq
    omega
  · intro decoders bytes key compression framed compressed nonnegative stream expected
    rw [decode_of_stated framed compressed nonnegative]
    refine ⟨fun data => ?_, fun error => map_eq_error⟩
    constructor
    · rintro ⟨container, ok, rfl⟩
      obtain ⟨data, reads, rfl⟩ := map_eq_ok.1 ok
      exact reads
    · intro reads
      exact ⟨_, map_eq_ok.2 ⟨data, reads, rfl⟩, rfl⟩

/-- Two letters as a gzip stream whose footer is cut off.  If one letter is stated, the second one is seen,
and nothing behind it; if two are stated, the end of the stream is asked for. -/
theorem decode_bounded_letters :
    let stored := fun stated => sealCompressed .gzip stated (storedGzip.take 17) none none
    (∀ stated ∈ [1, 2], Framed (stored stated) .gzip ∧ 0 ≤ (statedOf (stored stated) none).toInt) ∧
      decode (stored 1) none = .error (.sizeMismatch 1 2) ∧
      decode (stored 2) none = .error (.stream .exhausted) := by
  intro stored
  have framed : ∀ stated ∈ [1, 2],
      Framed (stored stated) .gzip ∧ 0 ≤ (statedOf (stored stated) none).toInt := by
    intro stated mem
    have two : stated = 1 ∨ stated = 2 := by simpa using mem
    rcases two with rfl | rfl
    · exact ⟨⟨by decide, by decide, by decide, by decide⟩, by decide⟩
    · exact ⟨⟨by decide, by decide, by decide, by decide⟩, by decide⟩
  have bytes : ∀ stated ∈ [1, 2],
      (Compression.gzip.stream (payloadOf (stored stated) none)).bytes = [104, 105] := by
    decide +kernel
  have ending : (Compression.gzip.stream (payloadOf (stored 2) none)).ending =
      .error .exhausted := by
    decide +kernel
  obtain ⟨reads, decodes⟩ := decode_bounded
  have one := decodes .standard (stored 1) none .gzip (framed 1 (by simp)).1 (by decide) (framed 1 (by simp)).2
  have two := decodes .standard (stored 2) none .gzip (framed 2 (by simp)).1 (by decide) (framed 2 (by simp)).2
  refine ⟨framed, one.2 _ |>.2 ?_, two.2 _ |>.2 ?_⟩
  · refine ((reads _ _).2.1 1 2).2 ⟨rfl, .inr ⟨?_, rfl⟩⟩
    exact Nat.le_of_eq (congrArg List.length (bytes 1 (by simp))).symm
  · refine ((reads _ _).2.2.1 .exhausted).2 ⟨ending, ?_⟩
    exact Nat.le_of_eq (congrArg List.length (bytes 2 (by simp)))

end Container
end SectorVault
