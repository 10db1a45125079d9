import Mathlib
import SectorVault.Proofs.Container.Sealing

/-!
# What a key and the bytes behind a container reach

Two things come along with a container and are none of its checksum's business: the key, and whatever is
stored behind the packed part.  Decoding keeps both in their place.

* The envelope says where the packed part ends, so nothing behind that end is deciphered, decompressed or
  summed.  Of two strings that agree up to there, one decodes as the other does, except that each has the
  revision that is behind its own packed part (`decode_eq_map_of_same_front`); a container without compression
  has none anyway.
* The key is used on the packed part only, after the frame is found to be in order and the checksum is
  taken.  So the failures of the frame are the same under every key (`decode_eq_error_iff`), and what is
  decoded under two keys differs in the data alone (`eq_of_decode_of_keys`).

That other failures do depend on the key, and that the data does, is what a key is for.
-/

namespace SectorVault

/-! ## Behind the packed part -/

namespace Envelope

variable {bytes bytes' : Bytes} {compression : Compression}

/-- The fields of an envelope are in its first five bytes. -/
theorem fields_of_same_front (same : bytes'.take 5 = bytes.take 5) :
    kindOf bytes' = kindOf bytes ∧ lengthOf bytes' = lengthOf bytes := by
  have kind : ∀ bytes : Bytes, kindOf bytes = kindOf (bytes.take 5) := by
    intro bytes
    cases bytes <;> rfl
  have length : ∀ bytes : Bytes, lengthOf bytes = signedOf ((bytes.take 5).drop 1) := by
    intro bytes
    rw [List.drop_take]
    rfl
  constructor
  · rw [kind bytes', same, ← kind]
  · rw [length bytes', same, ← length]

theorem packedSizeOf_of_same_front (same : bytes'.take 5 = bytes.take 5) :
    packedSizeOf bytes' = packedSizeOf bytes := by
  obtain ⟨kind, length⟩ := fields_of_same_front same
  rw [packedSizeOf, kind, length, ← packedSizeOf]

theorem take_five_of_same_front
    (same : bytes'.take (5 + packedSizeOf bytes) = bytes.take (5 + packedSizeOf bytes)) :
    bytes'.take 5 = bytes.take 5 := by
  have front := congrArg (List.take 5) same
  simpa [List.take_take] using front

theorem Framed.of_same_front (framed : Framed bytes compression)
    (same : bytes'.take (5 + packedSizeOf bytes) = bytes.take (5 + packedSizeOf bytes)) :
    Framed bytes' compression := by
  have five := take_five_of_same_front same
  obtain ⟨kind, length⟩ := fields_of_same_front five
  have size := packedSizeOf_of_same_front five
  have long := congrArg List.length same
  rw [List.length_take, List.length_take] at long
  have whole := framed.whole
  have complete := framed.complete
  refine ⟨by omega, ?_, kind.trans framed.kind, by omega⟩
  rw [InRange, length]
  exact framed.inRange

/-- The envelope and the packed part of a framed string are in front of whatever is put behind them. -/
theorem Framed.take_append (framed : Framed bytes compression) (behind : Bytes) :
    (bytes.take (5 + packedSizeOf bytes) ++ behind).take (5 + packedSizeOf bytes) =
      bytes.take (5 + packedSizeOf bytes) := by
  have whole := framed.whole
  have complete := framed.complete
  exact List.take_left' (List.length_take_of_le (by omega))

theorem Framed.drop_append (framed : Framed bytes compression) (behind : Bytes) :
    (bytes.take (5 + packedSizeOf bytes) ++ behind).drop (5 + packedSizeOf bytes) = behind := by
  have whole := framed.whole
  have complete := framed.complete
  exact List.drop_left' (List.length_take_of_le (by omega))

end Envelope

namespace Container

open Envelope

variable {bytes bytes' : Bytes} {compression : Compression} {key key' : Option Key}
  {container container' : Container} {decoders : Decoders}

/-- The packed part is in what precedes its end. -/
theorem plainOf_eq (bytes : Bytes) (key : Option Key) :
    plainOf bytes key = decipherWith key ((bytes.take (5 + packedSizeOf bytes)).drop 5) := by
  rw [List.drop_take, Nat.add_sub_cancel_left]
  rfl

/-- Byte strings that agree up to the end of the packed part come to the same, but for the revision. -/
theorem decode_eq_map_of_same_front (framed : Framed bytes compression)
    (same : bytes'.take (5 + packedSizeOf bytes) = bytes.take (5 + packedSizeOf bytes))
    (key : Option Key) :
    decode bytes' key decoders =
      (decode bytes key decoders).map fun container => { container with revision := trailerOf bytes' } := by
  have size := packedSizeOf_of_same_front (take_five_of_same_front same)
  have plain : plainOf bytes' key = plainOf bytes key := by
    rw [plainOf_eq, plainOf_eq, size, same]
  rw [decode_of_framed framed, decode_of_framed (framed.of_same_front same), plain, size, same]
  cases unpack compression (plainOf bytes key) decoders <;> rfl

/-- Byte strings that agree up to the end of the packed part decode alike, but for the revision. -/
theorem decode_of_same_front (ok : decode bytes key decoders = .ok container)
    (same : bytes'.take container.packedLength = bytes.take container.packedLength) :
    ∃ revision, decode bytes' key decoders = .ok { container with revision := revision } := by
  obtain ⟨compression, framed⟩ := framed_of_ok ok
  have size : container.packedLength = 5 + packedSizeOf bytes := by
    rw [decode_of_framed framed, map_eq_ok] at ok
    obtain ⟨data, -, rfl⟩ := ok
    rfl
  rw [size] at same
  refine ⟨trailerOf bytes', ?_⟩
  rw [decode_eq_map_of_same_front framed same key, ok]
  rfl

/-- The revision is read off the bytes behind the packed part, unless there is no compression. -/
theorem trailerOf_take_append (framed : Framed bytes compression) (behind : Bytes) :
    trailerOf (bytes.take (5 + packedSizeOf bytes) ++ behind) =
      if compression = .none then noRevision else revisionOf behind := by
  have same := framed.take_append behind
  have kind := (framed.of_same_front same).kind
  split
  · next plain =>
    subst plain
    exact trailerOf_of_plain kind
  · next compressed =>
    have packed := Compression.toByte_ne_zero compressed
    rw [trailerOf_of_packed (kind.trans_ne packed),
      packedSizeOf_of_same_front (take_five_of_same_front same), framed.drop_append]

/-! ## Under two keys -/

/-- What is decoded under two keys differs in the data alone. -/
theorem eq_of_decode_of_keys (ok : decode bytes key decoders = .ok container)
    (ok' : decode bytes key' decoders = .ok container') :
    container' = { container with data := container'.data } := by
  obtain ⟨compression, framed⟩ := framed_of_ok ok
  rw [decode_of_framed framed, map_eq_ok] at ok ok'
  obtain ⟨data, -, rfl⟩ := ok
  obtain ⟨data', -, rfl⟩ := ok'
  rfl

/-! ## Both -/

/-- **A key reaches the data, and the bytes behind a container reach its revision.**  This is so whatever the
decoders are.  Whatever is put behind
the packed part of a framed string, under any key it comes to the same failure or to the same container,
whose revision is then that of the new bytes; not even the revision changes without compression.  Under
any two keys the failures of the frame are the same, with the same fields, and what is decoded under both has
the same compression, revision, checksum and length as stored.  Without compression a framed string decodes
under every key, to data of the length of its payload. -/
theorem decode_confined (decoders : Decoders) (bytes : Bytes) :
    (∀ compression, Framed bytes compression → ∀ key behind,
      decode (bytes.take (5 + packedSizeOf bytes) ++ behind) key decoders =
        (decode bytes key decoders).map fun container => { container with
          revision := if compression = .none then container.revision else revisionOf behind }) ∧
    (∀ key key' error, error.concernsFrame = true →
      (decode bytes key decoders = .error error ↔ decode bytes key' decoders = .error error)) ∧
    (∀ key key' container container',
      decode bytes key decoders = .ok container → decode bytes key' decoders = .ok container' →
        container'.compression = container.compression ∧
        container'.revision = container.revision ∧ container'.crc = container.crc ∧
        container'.packedLength = container.packedLength) ∧
    (Framed bytes .none → ∀ key, ∃ container, decode bytes key decoders = .ok container ∧
      container.revision = -1 ∧ (container.data.length : Int) = (lengthOf bytes).toInt) := by
  refine ⟨?_, ?_, ?_, ?_⟩
  · intro compression framed key behind
    rw [decode_eq_map_of_same_front framed (framed.take_append behind),
      trailerOf_take_append framed]
    by_cases plain : compression = .none
    · subst plain
      rw [decode_of_plain framed, trailerOf_of_plain framed.kind]
      rfl
    · simp only [plain, if_false]
  · intro key key' error frame
    rw [decode_eq_error_iff frame, decode_eq_error_iff frame]
  · intro key key' container container' ok ok'
    rw [eq_of_decode_of_keys ok ok']
    exact ⟨rfl, rfl, rfl, rfl⟩
  · intro framed key
    have kind : kindOf bytes = 0 := framed.kind
    have ok : decode bytes key decoders = _ := decode_of_plain framed key
    refine ⟨_, ok, trailerOf_of_plain kind, ?_⟩
    rw [length_data framed ok, if_pos kind]

/-- Two letters as a gzip stream, sealed with a key: other bytes behind them show in the revision only, and
since the frame is in order with the key, it is in order without it. -/
theorem decode_confined_letters :
    let stored := sealCompressed .gzip 2 storedGzip (some ⟨1, 2, 3, 4⟩) (some 7)
    Framed stored .gzip ∧
      decode stored (some ⟨1, 2, 3, 4⟩) = .ok ⟨[104, 105], .gzip, 7, crc32 (stored.take 34), 34⟩ ∧
      decode (stored.take 34 ++ [1, 0, 5]) (some ⟨1, 2, 3, 4⟩) =
        .ok ⟨[104, 105], .gzip, 256, crc32 (stored.take 34), 34⟩ ∧
      ∀ expected found, decode stored none ≠ .error (.truncated expected found) := by
  intro stored
  have framed : Framed stored .gzip :=
    ⟨by decide +kernel, by decide +kernel, by decide +kernel, by decide +kernel⟩
  have ok : decode stored (some ⟨1, 2, 3, 4⟩) =
      .ok ⟨[104, 105], .gzip, 7, crc32 (stored.take 34), 34⟩ := by
    decide +kernel
  have size : 5 + packedSizeOf stored = 34 := by decide +kernel
  obtain ⟨behind, keys, -, -⟩ := decode_confined .standard stored
  have other := behind .gzip framed (some ⟨1, 2, 3, 4⟩) [1, 0, 5]
  rw [size, ok] at other
  refine ⟨framed, ok, other, fun expected found fails => ?_⟩
  rw [keys none (some ⟨1, 2, 3, 4⟩) _ rfl, ok] at fails
  cases fails

end Container

end SectorVault
