import Mathlib
import SectorVault.Group.Nested
import SectorVault.Proofs.Cipher.Xtea
import SectorVault.Proofs.Outcomes

/-!
# Which bytes decode as a container

The envelope of a byte string and the length of the string decide, before a key or a stream comes into
play, whether there is anything to decode.  There are four ways in which they refuse it, and of several
the first one counts (`Refused`); otherwise the string is framed (`Framed`), and what comes of it is
what comes of the deciphered packed part (`decode_of_framed`).  The two exclude each other since they
lead to different answers, so a failure that concerns the frame arises exactly if the string is refused
(`decode_eq_error_iff`).

The packed part of a framed string has all the bytes that its envelope promises, four of them for the
stated length if it is compressed.  So nothing but a decompressor ever comes to the end of its input.

None of this depends on what the decompressors make of a payload, so the decoders are arbitrary.
-/

namespace SectorVault

namespace Compression

theorem ofByte?_eq_some_iff {kind : UInt8} {compression : Compression} :
    ofByte? kind = some compression ↔ kind = compression.toByte := by
  constructor
  · intro known
    unfold ofByte? at known
    split at known <;> cases known <;> rfl
  · rintro rfl
    exact ofByte?_toByte compression

theorem ofByte?_eq_none_iff {kind : UInt8} : ofByte? kind = Option.none ↔ 2 < kind := by
  constructor
  · intro unknown
    by_contra small
    have known : kind = 0 ∨ kind = 1 ∨ kind = 2 := by
      have le : kind.toNat ≤ 2 := UInt8.le_iff_toNat_le.1 (UInt8.not_lt.1 small)
      have zero : (0 : UInt8).toNat = 0 := rfl
      have one : (1 : UInt8).toNat = 1 := rfl
      have two : (2 : UInt8).toNat = 2 := rfl
      simp only [← UInt8.toNat_inj]
      omega
    rcases known with rfl | rfl | rfl <;> cases unknown
  · intro above
    rw [Option.eq_none_iff_forall_ne_some]
    intro compression known
    obtain rfl := ofByte?_eq_some_iff.1 known
    cases compression <;> exact absurd above (by decide)

theorem toByte_ne_zero {compression : Compression} (compressed : compression ≠ .none) :
    compression.toByte ≠ 0 := by
  cases compression with
  | none => exact absurd rfl compressed
  | bzip2 | gzip => decide

theorem statedSize_eq_four {compression : Compression} (compressed : compression ≠ .none) :
    compression.statedSize = 4 := by
  cases compression with
  | none => exact absurd rfl compressed
  | bzip2 | gzip => rfl

end Compression

/-- Whether a failure is that of an envelope, or of a packed part that is not all there. -/
def ContainerError.concernsFrame : ContainerError → Bool
  | .missingHeader | .invalidLength _ | .unknownCompression _ | .truncated _ _ => true
  | .negativeLength _ | .sizeMismatch _ _ | .stream _ => false

/-! ## The fields of an envelope -/

namespace Envelope

/-- The byte of the kind of compression. -/
def kindOf (bytes : Bytes) : UInt8 := bytes.headD 0

/-- The length that the envelope gives for the payload. -/
def lengthOf (bytes : Bytes) : Int32 := signedOf ((bytes.drop 1).take 4)

/-- The length of the packed part, which has four bytes more than the payload if it is compressed. -/
def packedSizeOf (bytes : Bytes) : Nat :=
  if kindOf bytes = 0 then (lengthOf bytes).toInt.toNat else (lengthOf bytes).toInt.toNat + 4

/-- The length of the payload is neither negative nor beyond the limit. -/
def InRange (bytes : Bytes) : Prop :=
  0 ≤ (lengthOf bytes).toInt ∧ (lengthOf bytes).toInt ≤ 2000000

instance (bytes : Bytes) : Decidable (InRange bytes) :=
  inferInstanceAs (Decidable (0 ≤ (lengthOf bytes).toInt ∧ (lengthOf bytes).toInt ≤ 2000000))

/-- Why a byte string is refused on account of its envelope and its length. -/
inductive Refused (bytes : Bytes) : ContainerError → Prop
  | missingHeader (short : bytes.length < 5) : Refused bytes .missingHeader
  | invalidLength (whole : 5 ≤ bytes.length) (outside : ¬ InRange bytes) :
      Refused bytes (.invalidLength (lengthOf bytes))
  | unknownCompression (whole : 5 ≤ bytes.length) (inRange : InRange bytes)
      (unknown : 2 < kindOf bytes) : Refused bytes (.unknownCompression (kindOf bytes))
  | truncated (whole : 5 ≤ bytes.length) (inRange : InRange bytes) (known : ¬ 2 < kindOf bytes)
      (short : bytes.length - 5 < packedSizeOf bytes) :
      Refused bytes (.truncated (packedSizeOf bytes) (bytes.length - 5))

/-- A byte string has an envelope that is not refused, and all of the packed part. -/
structure Framed (bytes : Bytes) (compression : Compression) : Prop where
  whole : 5 ≤ bytes.length
  inRange : InRange bytes
  kind : kindOf bytes = compression.toByte
  complete : packedSizeOf bytes ≤ bytes.length - 5

variable {bytes : Bytes} {compression : Compression} {error : ContainerError}

theorem refused_or_framed (bytes : Bytes) :
    (∃ error, Refused bytes error) ∨ ∃ compression, Framed bytes compression := by
  -- in the order of the checks, since a refusal says that the earlier ones were passed
  by_cases whole : 5 ≤ bytes.length
  swap
  · exact .inl ⟨_, .missingHeader (by omega)⟩
  by_cases inRange : InRange bytes
  swap
  · exact .inl ⟨_, .invalidLength whole inRange⟩
  by_cases unknown : 2 < kindOf bytes
  · exact .inl ⟨_, .unknownCompression whole inRange unknown⟩
  by_cases complete : packedSizeOf bytes ≤ bytes.length - 5
  swap
  · exact .inl ⟨_, .truncated whole inRange unknown (by omega)⟩
  obtain ⟨compression, known⟩ : ∃ compression, Compression.ofByte? (kindOf bytes) = some compression :=
    Option.ne_none_iff_exists'.1 (mt Compression.ofByte?_eq_none_iff.1 unknown)
  exact .inr ⟨compression, whole, inRange, Compression.ofByte?_eq_some_iff.1 known, complete⟩

theorem read_of_whole (whole : 5 ≤ bytes.length) :
    read bytes =
      if InRange bytes then
        match Compression.ofByte? (kindOf bytes) with
        | some compression =>
          .ok ⟨compression, (lengthOf bytes).toInt.toNat + compression.statedSize⟩
        | none => .error (.unknownCompression (kindOf bytes))
      else .error (.invalidLength (lengthOf bytes)) := by
  match bytes, whole with
  | _ :: _ :: _ :: _ :: _ :: _, _ => rfl

theorem packedSizeOf_eq (kind : kindOf bytes = compression.toByte) :
    packedSizeOf bytes = (lengthOf bytes).toInt.toNat + compression.statedSize := by
  unfold packedSizeOf
  rw [kind]
  cases compression <;> rfl

theorem read_of_known (whole : 5 ≤ bytes.length) (inRange : InRange bytes)
    (kind : kindOf bytes = compression.toByte) :
    read bytes = .ok ⟨compression, packedSizeOf bytes⟩ := by
  have known := Compression.ofByte?_eq_some_iff.2 kind
  rw [read_of_whole whole, if_pos inRange, known, packedSizeOf_eq kind]

end Envelope

/-! ## Decoding -/

namespace Container

open Envelope

variable {bytes : Bytes} {key : Option Key} {compression : Compression} {error : ContainerError}
  {decoders : Decoders}

/-- The packed part of a container, deciphered. -/
def plainOf (bytes : Bytes) (key : Option Key) : Bytes :=
  decipherWith key ((bytes.drop 5).take (packedSizeOf bytes))

/-- The length that a packed part states of the data. -/
def statedOf (bytes : Bytes) (key : Option Key) : Int32 := signedOf ((plainOf bytes key).take 4)

/-- The revision behind the packed part, if it has one. -/
def trailerOf (bytes : Bytes) : Int32 :=
  if kindOf bytes ≠ 0 ∧ 5 + packedSizeOf bytes + 2 ≤ bytes.length then
    Int32.ofNat (bigEndian ((bytes.drop (5 + packedSizeOf bytes)).take 2))
  else -1

theorem decode_of_refused (refused : Refused bytes error) (key : Option Key) :
    decode bytes key decoders = .error error := by
  unfold decode
  cases refused with
  | missingHeader short =>
    have read : Envelope.read bytes = .error .missingHeader := by
      unfold Envelope.read
      split
      · simp at short
        omega
      · rfl
    rw [read]
    rfl
  | invalidLength whole outside =>
    rw [read_of_whole whole, if_neg outside]
    rfl
  | unknownCompression whole inRange unknown =>
    rw [read_of_whole whole, if_pos inRange, Compression.ofByte?_eq_none_iff.2 unknown]
    rfl
  | truncated whole inRange known short =>
    obtain ⟨compression, known⟩ :
        ∃ compression, Compression.ofByte? (kindOf bytes) = some compression :=
      Option.ne_none_iff_exists'.1 (mt Compression.ofByte?_eq_none_iff.1 known)
    rw [read_of_known whole inRange (Compression.ofByte?_eq_some_iff.1 known)]
    simp only [bind, Except.bind, Envelope.size, List.length_drop, short, if_true]
    rfl

theorem revisionOf_drop (bytes : Bytes) (n : Nat) :
    revisionOf (bytes.drop n) =
      if n + 2 ≤ bytes.length then Int32.ofNat (bigEndian ((bytes.drop n).take 2)) else -1 := by
  have length := List.length_drop (l := bytes) (i := n)
  match rest : bytes.drop n with
  | high :: low :: rest' =>
    rw [rest, List.length_cons, List.length_cons] at length
    rw [if_pos (by omega)]
    rfl
  | [_] =>
    rw [rest, List.length_singleton] at length
    rw [if_neg (by omega)]
    rfl
  | [] =>
    rw [rest, List.length_nil] at length
    rw [if_neg (by omega)]
    rfl

theorem trailerOf_of_plain (plain : kindOf bytes = 0) : trailerOf bytes = noRevision := by
  rw [trailerOf, if_neg (by simp [plain])]
  rfl

theorem trailerOf_of_packed (packed : kindOf bytes ≠ 0) :
    trailerOf bytes = revisionOf (bytes.drop (5 + packedSizeOf bytes)) := by
  rw [revisionOf_drop]
  simp only [trailerOf, ne_eq, packed, not_false_eq_true, true_and]

/-- What comes of a framed string is what comes of its packed part. -/
theorem decode_of_framed (framed : Framed bytes compression) (key : Option Key) :
    decode bytes key decoders = (unpack compression (plainOf bytes key) decoders).map fun data =>
      ⟨data, compression, trailerOf bytes, crc32 (bytes.take (5 + packedSizeOf bytes)),
        5 + packedSizeOf bytes⟩ := by
  have complete := framed.complete
  have enough : ¬ bytes.length - 5 < packedSizeOf bytes := by omega
  unfold decode
  rw [read_of_known framed.whole framed.inRange framed.kind]
  simp only [bind, Except.bind, Envelope.size, List.length_drop, enough, if_false, List.drop_drop]
  rw [← plainOf]
  cases unpack compression (plainOf bytes key) decoders with
  | error error => rfl
  | ok data =>
    cases compression with
    | none =>
      rw [trailerOf_of_plain framed.kind]
      rfl
    | bzip2 | gzip =>
      rw [trailerOf_of_packed (by rw [framed.kind]; decide)]
      rfl

theorem length_plainOf (framed : Framed bytes compression) (key : Option Key) :
    (plainOf bytes key).length = packedSizeOf bytes := by
  have complete := framed.complete
  rw [plainOf, length_decipherWith, List.length_take, List.length_drop]
  omega

/-! ## The data -/

section Data

variable {stream : ByteStream Unit} {expected : Nat} {data plain : Bytes} {fault : Fault}

theorem readExactly_eq_ok (h : readExactly stream expected = .ok data) : data.length = expected := by
  unfold readExactly at h
  split at h
  · cases h
  · split at h
    · cases h
      assumption
    · cases h

theorem readExactly_eq_stream (h : readExactly stream expected = .error (.stream fault)) :
    stream.take (expected + 1) = .error fault := by
  unfold readExactly at h
  split at h
  · cases h
    assumption
  · split at h <;> cases h

theorem concernsFrame_of_readExactly (h : readExactly stream expected = .error error) :
    error.concernsFrame = false := by
  unfold readExactly at h
  split at h
  · cases h
    rfl
  · split at h <;> cases h
    rfl

theorem unpack_of_compressed (compressed : compression ≠ .none) (enough : 4 ≤ plain.length) :
    unpack compression plain decoders =
      if (signedOf (plain.take 4)).toInt < 0 then .error (.negativeLength (signedOf (plain.take 4)))
      else readExactly (compression.stream (plain.drop 4) decoders) (signedOf (plain.take 4)).toInt.toNat := by
  match plain, enough with
  | _ :: _ :: _ :: _ :: _, _ =>
    cases compression with
    | none => exact absurd rfl compressed
    | bzip2 | gzip => rfl

end Data

variable {container : Container}

theorem four_le_packedSizeOf (framed : Framed bytes compression) (compressed : compression ≠ .none) :
    4 ≤ packedSizeOf bytes := by
  rw [packedSizeOf_eq framed.kind, Compression.statedSize_eq_four compressed]
  exact Nat.le_add_left 4 _

theorem decode_of_compressed (framed : Framed bytes compression) (compressed : compression ≠ .none)
    (key : Option Key) :
    decode bytes key decoders =
      (if (statedOf bytes key).toInt < 0 then .error (.negativeLength (statedOf bytes key))
        else readExactly (compression.stream ((plainOf bytes key).drop 4) decoders)
          (statedOf bytes key).toInt.toNat).map fun data =>
        ⟨data, compression, trailerOf bytes, crc32 (bytes.take (5 + packedSizeOf bytes)),
          5 + packedSizeOf bytes⟩ := by
  have enough : 4 ≤ (plainOf bytes key).length := by
    rw [length_plainOf framed]
    exact four_le_packedSizeOf framed compressed
  rw [decode_of_framed framed, unpack_of_compressed compressed enough]
  rfl

theorem decode_of_plain (framed : Framed bytes .none) (key : Option Key) :
    decode bytes key decoders =
      .ok ⟨plainOf bytes key, .none, trailerOf bytes, crc32 (bytes.take (5 + packedSizeOf bytes)),
        5 + packedSizeOf bytes⟩ :=
  decode_of_framed framed key

theorem concernsFrame_of_framed (framed : Framed bytes compression)
    (failed : decode bytes key decoders = .error error) : error.concernsFrame = false := by
  by_cases compressed : compression = .none
  · subst compressed
    rw [decode_of_plain framed] at failed
    cases failed
  · rw [decode_of_compressed framed compressed, map_eq_error] at failed
    split at failed
    · cases failed
      rfl
    · exact concernsFrame_of_readExactly failed

/-- A failure that concerns the frame arises exactly if the string is refused. -/
theorem decode_eq_error_iff (frame : error.concernsFrame = true) :
    decode bytes key decoders = .error error ↔ Refused bytes error := by
  constructor
  · intro failed
    rcases refused_or_framed bytes with ⟨found, refused⟩ | ⟨compression, framed⟩
    · rw [decode_of_refused refused, Except.error.injEq] at failed
      exact failed ▸ refused
    · rw [concernsFrame_of_framed framed failed] at frame
      cases frame
  · intro refused
    exact decode_of_refused refused key

theorem framed_of_ok (ok : decode bytes key decoders = .ok container) :
    ∃ compression, Framed bytes compression := by
  rcases refused_or_framed bytes with ⟨error, refused⟩ | framed
  · rw [decode_of_refused refused] at ok
    cases ok
  · exact framed

theorem length_data (framed : Framed bytes compression) (ok : decode bytes key decoders = .ok container) :
    (container.data.length : Int) =
      (if kindOf bytes = 0 then lengthOf bytes else statedOf bytes key).toInt := by
  by_cases compressed : compression = .none
  · subst compressed
    rw [decode_of_plain framed, Except.ok.injEq] at ok
    subst ok
    have kind : kindOf bytes = 0 := framed.kind
    have nonnegative := framed.inRange.1
    rw [if_pos kind, length_plainOf framed, packedSizeOf, if_pos kind, Int.toNat_of_nonneg nonnegative]
  · have kind : kindOf bytes ≠ 0 := framed.kind ▸ Compression.toByte_ne_zero compressed
    rw [decode_of_compressed framed compressed, map_eq_ok] at ok
    obtain ⟨data, read, rfl⟩ := ok
    split at read
    · cases read
    · rw [if_neg kind, readExactly_eq_ok read]
      omega

/-- Only a decompressor that works on a whole payload comes upon a broken stream. -/
theorem exists_stream_of_error {fault : Fault} (failed : decode bytes key decoders = .error (.stream fault)) :
    ∃ compression, compression ≠ .none ∧ Framed bytes compression ∧
      0 ≤ (statedOf bytes key).toInt ∧
      (compression.stream ((plainOf bytes key).drop 4) decoders).take ((statedOf bytes key).toInt.toNat + 1) =
        .error fault := by
  rcases refused_or_framed bytes with ⟨error, refused⟩ | ⟨compression, framed⟩
  · rw [decode_of_refused refused, Except.error.injEq] at failed
    subst failed
    cases refused
  by_cases compressed : compression = .none
  · subst compressed
    rw [decode_of_plain framed] at failed
    cases failed
  rw [decode_of_compressed framed compressed, map_eq_error] at failed
  split at failed
  · cases failed
  · rename_i nonnegative
    exact ⟨compression, compressed, framed, not_lt.1 nonnegative, readExactly_eq_stream failed⟩

/-! ## Stored bytes that are no container -/

theorem concernsFrame_of_rejectsEnvelope (rejected : error.rejectsEnvelope = true) :
    error.concernsFrame = true := by
  cases error with
  | missingHeader | invalidLength | unknownCompression => rfl
  | truncated | negativeLength | sizeMismatch | stream => cases rejected

/-- The first three reasons to refuse a string, without their order. -/
theorem exists_refused_iff :
    (∃ error, Refused bytes error ∧ error.rejectsEnvelope = true) ↔
      bytes.length < 5 ∨ ¬ InRange bytes ∨ 2 < kindOf bytes := by
  constructor
  · rintro ⟨error, refused, rejected⟩
    cases refused with
    | missingHeader short => exact .inl short
    | invalidLength whole outside => exact .inr (.inl outside)
    | unknownCompression whole inRange unknown => exact .inr (.inr unknown)
    | truncated => cases rejected
  · intro reasons
    by_cases short : bytes.length < 5
    · exact ⟨_, .missingHeader short, rfl⟩
    by_cases inRange : InRange bytes
    · have unknown : 2 < kindOf bytes := by tauto
      exact ⟨_, .unknownCompression (not_lt.1 short) inRange unknown, rfl⟩
    · exact ⟨_, .invalidLength (not_lt.1 short) inRange, rfl⟩

theorem openStored_eq_none_iff :
    openStored bytes key decoders = .ok Option.none ↔
      bytes.length < 5 ∨ ¬ InRange bytes ∨ 2 < kindOf bytes := by
  rw [← exists_refused_iff]
  unfold openStored
  constructor
  · intro foreign
    cases decoded : decode bytes key decoders with
    | ok container =>
      rw [decoded] at foreign
      cases foreign
    | error error =>
      rw [decoded] at foreign
      by_cases rejected : error.rejectsEnvelope = true
      · exact ⟨error, (decode_eq_error_iff (concernsFrame_of_rejectsEnvelope rejected)).1 decoded,
          rejected⟩
      · simp [rejected] at foreign
  · rintro ⟨error, refused, rejected⟩
    rw [decode_of_refused refused]
    simp [rejected]

theorem openStored_of_not_foreign
    (own : ¬ (bytes.length < 5 ∨ ¬ InRange bytes ∨ 2 < kindOf bytes)) (key : Option Key) :
    openStored bytes key decoders = ((decode bytes key decoders).map some).mapError .container := by
  rw [← exists_refused_iff] at own
  unfold openStored
  cases decoded : decode bytes key decoders with
  | ok container => rfl
  | error error =>
    have accepted : error.rejectsEnvelope ≠ true := by
      intro rejected
      have refused :=
        (decode_eq_error_iff (concernsFrame_of_rejectsEnvelope rejected)).1 decoded
      exact own ⟨error, refused, rejected⟩
    simp only [accepted]
    rfl

/-! ## Everything together -/

/-- **What decodes, and what comes of it.**  The envelope and the length of a byte string decide which of
four failures it has, of several the first; without compression there is no other.  Stored bytes count
as no container exactly in the first three cases.  A decoded container covers the envelope and the packed
part as they are stored, its data has the length that is given for it, and its revision is the two bytes
behind, if there are two.  And no stream breaks but that of a decompressor on a payload that is all
there. -/
theorem decode_determined (decoders : Decoders) (bytes : Bytes) (key : Option Key) :
    (decode bytes key decoders = .error .missingHeader ↔ bytes.length < 5) ∧
    (∀ length, decode bytes key decoders = .error (.invalidLength length) ↔
      5 ≤ bytes.length ∧ ¬ InRange bytes ∧ length = lengthOf bytes) ∧
    (∀ kind, decode bytes key decoders = .error (.unknownCompression kind) ↔
      5 ≤ bytes.length ∧ InRange bytes ∧ 2 < kindOf bytes ∧ kind = kindOf bytes) ∧
    (∀ expected found, decode bytes key decoders = .error (.truncated expected found) ↔
      5 ≤ bytes.length ∧ InRange bytes ∧ ¬ 2 < kindOf bytes ∧
        bytes.length - 5 < packedSizeOf bytes ∧ expected = packedSizeOf bytes ∧
        found = bytes.length - 5) ∧
    (5 ≤ bytes.length → InRange bytes → kindOf bytes = 0 → packedSizeOf bytes ≤ bytes.length - 5 →
      ∃ container, decode bytes key decoders = .ok container) ∧
    (openStored bytes key decoders = .ok Option.none ↔
      bytes.length < 5 ∨ ¬ InRange bytes ∨ 2 < kindOf bytes) ∧
    (¬ (bytes.length < 5 ∨ ¬ InRange bytes ∨ 2 < kindOf bytes) →
      openStored bytes key decoders = ((decode bytes key decoders).map some).mapError .container) ∧
    (∀ container, decode bytes key decoders = .ok container →
      container.compression.toByte = kindOf bytes ∧
      container.packedLength = 5 + packedSizeOf bytes ∧ container.packedLength ≤ bytes.length ∧
      container.crc = crc32 (bytes.take container.packedLength) ∧
      (container.data.length : Int) =
        (if kindOf bytes = 0 then lengthOf bytes else statedOf bytes key).toInt ∧
      container.revision =
        if kindOf bytes ≠ 0 ∧ container.packedLength + 2 ≤ bytes.length then
          Int32.ofNat (bigEndian ((bytes.drop container.packedLength).take 2))
        else -1) ∧
    (∀ fault, decode bytes key decoders = .error (.stream fault) →
      ∃ compression : Compression, (compression = .bzip2 ∨ compression = .gzip) ∧
        kindOf bytes = compression.toByte ∧ 4 ≤ (plainOf bytes key).length ∧
        0 ≤ (statedOf bytes key).toInt ∧
        (compression.stream ((plainOf bytes key).drop 4) decoders).take
          ((statedOf bytes key).toInt.toNat + 1) = .error fault) := by
  refine ⟨?_, ?_, ?_, ?_, ?_, openStored_eq_none_iff, fun own => openStored_of_not_foreign own key,
    ?_, ?_⟩
  -- the four failures of the frame are the four constructors of `Refused`
  · rw [decode_eq_error_iff rfl]
    constructor
    · rintro ⟨⟩
      assumption
    · exact .missingHeader
  · intro length
    rw [decode_eq_error_iff rfl]
    constructor
    · rintro ⟨⟩
      refine ⟨?_, ?_, rfl⟩ <;> assumption
    · rintro ⟨whole, outside, rfl⟩
      exact .invalidLength whole outside
  · intro kind
    rw [decode_eq_error_iff rfl]
    constructor
    · rintro ⟨⟩
      refine ⟨?_, ?_, ?_, rfl⟩ <;> assumption
    · rintro ⟨whole, inRange, unknown, rfl⟩
      exact .unknownCompression whole inRange unknown
  · intro expected found
    rw [decode_eq_error_iff rfl]
    constructor
    · rintro ⟨⟩
      refine ⟨?_, ?_, ?_, ?_, rfl, rfl⟩ <;> assumption
    · rintro ⟨whole, inRange, known, short, rfl, rfl⟩
      exact .truncated whole inRange known short
  · intro whole inRange plain complete
    have framed : Framed bytes .none := ⟨whole, inRange, plain, complete⟩
    exact ⟨_, decode_of_plain framed key⟩
  -- what is decoded is framed, and of a framed string it is known what it decodes to
  · intro container ok
    obtain ⟨compression, framed⟩ := framed_of_ok ok
    have length := length_data framed ok
    have whole := framed.whole
    have complete := framed.complete
    rw [decode_of_framed framed, map_eq_ok] at ok
    obtain ⟨data, -, rfl⟩ := ok
    exact ⟨framed.kind.symm, rfl, by simp only; omega, rfl, length, rfl⟩
  · intro fault failed
    obtain ⟨compression, compressed, framed, nonnegative, broken⟩ := exists_stream_of_error failed
    have enough := four_le_packedSizeOf framed compressed
    refine ⟨compression, ?_, framed.kind, ?_, nonnegative, broken⟩
    · cases compression with
      | none => exact absurd rfl compressed
      | bzip2 => exact .inl rfl
      | gzip => exact .inr rfl
    · rw [length_plainOf framed]
      exact enough

theorem decode_determined_samples :
    (∃ container, decode [0, 0, 0, 0, 2, 7, 8, 9] none = .ok container ∧
      container.data.length = 2 ∧ container.packedLength = 7 ∧ container.revision = -1 ∧
      container.crc = crc32 [0, 0, 0, 0, 2, 7, 8]) ∧
    openStored [1, 0, 0, 0, 1, 0] none = .error (.container (.truncated 5 1)) ∧
    decode [2, 0, 0, 0, 1, 0, 0, 0, 5, 31] none = .error (.stream .exhausted) ∧
    (Gzip.decode [31]).take 6 = .error .exhausted := by
  have broken : decode [2, 0, 0, 0, 1, 0, 0, 0, 5, 31] none = .error (.stream .exhausted) := by
    decide +kernel
  obtain ⟨-, -, -, -, plain, -, -, answer, -⟩ := decode_determined .standard [0, 0, 0, 0, 2, 7, 8, 9] none
  obtain ⟨-, -, -, short, -, -, passed, -⟩ := decode_determined .standard [1, 0, 0, 0, 1, 0] none
  obtain ⟨-, -, -, -, -, -, -, -, stream⟩ :=
    decode_determined .standard [2, 0, 0, 0, 1, 0, 0, 0, 5, 31] none
  refine ⟨?_, ?_, broken, ?_⟩
  · obtain ⟨container, ok⟩ := plain (by decide) (by decide) (by decide) (by decide)
    obtain ⟨-, size, -, crc, length, revision⟩ := answer container ok
    have seven : container.packedLength = 7 := size
    rw [seven] at crc
    exact ⟨container, ok, Int.ofNat_inj.1 length, seven, revision, crc⟩
  · rw [passed (by decide), (short 5 1).2 (by decide)]
    rfl
  · obtain ⟨compression, -, kind, -, -, fault⟩ := stream .exhausted broken
    obtain rfl : compression = .gzip := by
      cases compression with
      | none | bzip2 => exact absurd kind (by decide)
      | gzip => rfl
    exact fault

end Container
end SectorVault
