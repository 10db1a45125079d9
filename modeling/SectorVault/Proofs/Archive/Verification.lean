import Mathlib
import SectorVault.Proofs.Archive.Answers
import SectorVault.Proofs.Container.Decoding
import SectorVault.Proofs.ReferenceTable.Lookup

/-!
# What the checks vouch for

With the checks asked for, nothing is handed out whose stored bytes are at odds with the table, as far as
the stored bytes are a container.  The three conditions are those of `Vouched`: the checksum and the digest
cover the envelope and the packed part of a container, and the checksum of the data covers what the files
are cut from.  An archive unpacks a group exactly if it is listed, its bytes open, they are vouched for and
the data splits (`unpackFresh_eq_ok_iff`), and since the memo does not show this is so whether the group is
unpacked now or was unpacked earlier.

The first two conditions stop at the container.  Stored bytes whose envelope is refused are taken as they
are, so that a group which a table lists and nobody wrote can be read as empty, and there is no container
that could be compared with the table.  They are vouched for by the checksum of the data only, if the table
has one; if not, any bytes pass (`bare_bytes_pass`).
-/

namespace SectorVault

/-! ## Containers -/

namespace Container

variable {bytes : Bytes} {key : Option Key} {container : Container}

/-- The checksum of a container is that of the bytes it covers. -/
theorem crc_of_decode (ok : decode bytes key = .ok container) :
    container.crc = crc32 (bytes.take container.packedLength) := by
  obtain ⟨compression, framed⟩ := framed_of_ok ok
  rw [decode_of_framed framed, map_eq_ok] at ok
  obtain ⟨data, -, rfl⟩ := ok
  rfl

end Container

/-! ## The checks -/

/-- The stored bytes of a group, opened as a container or as they are, agree with the table as far as the
options ask. -/
structure Vouched (options : Options) (flags : TableFlags) (group : Group)
    (container : Option Container) : Prop where
  /-- The envelope and the packed part have the checksum that is listed. -/
  crc : options.verifyChecksums = true → ∀ opened ∈ container,
    crc32 (group.raw.take opened.packedLength) = group.crc
  /-- They have the digest that is listed, if one is. -/
  digest : options.verifyDigests = true → ∀ opened ∈ container, ∀ listed ∈ group.digest,
    whirlpool (group.raw.take opened.packedLength) = listed
  /-- The data has the checksum that is listed, if the table has the column. -/
  data : options.verifyChecksums = true → flags.uncompressedCrcs = true →
    crc32 (group.dataOf container) = group.uncompressedCrc

namespace Archive

variable {archive : Archive} {group : Group}

theorem verifyCompressed_eq_ok_iff {container : Container} :
    archive.verifyCompressed group container = .ok () ↔
      (archive.options.verifyChecksums = true → container.crc = group.crc) ∧
        (archive.options.verifyDigests = true → ∀ listed ∈ group.digest,
          whirlpool (group.raw.take container.packedLength) = listed) := by
  unfold verifyCompressed
  cases archive.options.verifyChecksums <;> cases archive.options.verifyDigests <;>
    cases group.digest <;> by_cases same : container.crc = group.crc <;> simp [same]

theorem verifyUncompressed_eq_ok_iff {data : Bytes} :
    archive.verifyUncompressed group data = .ok () ↔
      (archive.options.verifyChecksums = true → archive.table.flags.uncompressedCrcs = true →
        crc32 data = group.uncompressedCrc) := by
  unfold verifyUncompressed
  cases archive.options.verifyChecksums <;> cases archive.table.flags.uncompressedCrcs <;> simp

/-- The checks pass exactly if the opened bytes are vouched for. -/
theorem verify_eq_ok_iff {key : Option Key} {container : Option Container}
    (opened : openStored group.raw key = .ok container) :
    archive.verify group container (group.dataOf container) = .ok () ↔
      Vouched archive.options archive.table.flags group container := by
  cases container with
  | none =>
    have unchecked : archive.verify group none (group.dataOf none) =
        archive.verifyUncompressed group (group.dataOf none) := rfl
    rw [unchecked, verifyUncompressed_eq_ok_iff]
    exact ⟨fun data => ⟨by simp, by simp, data⟩, Vouched.data⟩
  | some container =>
    have crc := Container.crc_of_decode (openStored_eq_some_iff.1 opened)
    have both : archive.verify group (some container) (group.dataOf (some container)) =
        (archive.verifyCompressed group container).bind fun _ =>
          archive.verifyUncompressed group (group.dataOf (some container)) := rfl
    rw [both, bind_eq_ok]
    constructor
    · rintro ⟨⟨⟩, compressed, data⟩
      rw [verifyCompressed_eq_ok_iff, crc] at compressed
      exact ⟨by simpa using compressed.1, by simpa using compressed.2,
        verifyUncompressed_eq_ok_iff.1 data⟩
    · intro vouched
      have compressed := verifyCompressed_eq_ok_iff.2 ⟨fun asked => crc ▸ vouched.crc asked _ rfl,
        fun asked => vouched.digest asked _ rfl⟩
      exact ⟨(), compressed, verifyUncompressed_eq_ok_iff.2 vouched.data⟩

/-! ## Unpacking -/

/-- A group of a table is listed, its stored bytes open and are vouched for, and their data splits into
the files. -/
structure UnpacksFrom (options : Options) (table : ReferenceTable) (id : UInt32)
    (key : Option Key) (unpacked : Unpacked) (group : Group) (container : Option Container) :
    Prop where
  listed : table.group? id = some group
  opened : openStored group.raw key = .ok container
  vouched : Vouched options table.flags group container
  split : group.split (group.dataOf container) = .ok unpacked.files
  group_eq : unpacked.group = group.id
  key_eq : unpacked.key = key

theorem unpackFresh_eq_ok_iff {id : UInt32} {key : Option Key} {unpacked : Unpacked} :
    archive.unpackFresh id key = .ok unpacked ↔ ∃ group container,
      UnpacksFrom archive.options archive.table id key unpacked group container := by
  unfold unpackFresh
  constructor
  · intro unpacks
    cases listed : archive.table.group? id with
    | none => simp [listed] at unpacks
    | some group =>
      rw [listed] at unpacks
      obtain ⟨container, files, opened, verified, split, rfl⟩ :=
        Group.unpackWith_eq_ok_iff.1 unpacks
      exact ⟨group, container, listed, opened, (verify_eq_ok_iff opened).1 verified, split, rfl, rfl⟩
  · rintro ⟨group, container, listed, opened, vouched, split, group_eq, key_eq⟩
    rw [listed]
    refine Group.unpackWith_eq_ok_iff.2
      ⟨container, unpacked.files, opened, (verify_eq_ok_iff opened).2 vouched, split, ?_⟩
    rw [← group_eq, ← key_eq]

/-- Stored bytes that are no container are the data of their group, and only the check of the data applies. -/
theorem unpackFresh_of_bare {id : UInt32} {key : Option Key} {files : List File}
    (listed : archive.table.group? id = some group) (bare : openStored group.raw key = .ok none)
    (split : group.split group.raw = .ok files) :
    archive.unpackFresh id key =
      (archive.verifyUncompressed group group.raw).bind fun _ => .ok ⟨group.id, key, files⟩ := by
  have data : group.dataOf none = group.raw := rfl
  have checks : archive.verify group none group.raw = archive.verifyUncompressed group group.raw := rfl
  simp only [unpackFresh, listed, Group.unpackWith_eq, bare, Except.mapError, Except.bind, data, checks,
    split]

/-! ## Everything that is served -/

/-- **What is served is vouched for.**  Whatever an archive has been asked for since it was made, it unpacks
a group exactly if the stored bytes of the group open, are vouched for and split, and every file and every
entry that it hands out comes from a group of which this is so. -/
theorem served_iff_vouched (number : UInt8) (table : ReferenceTable) (options : Options)
    (requests : List Request) :
    let archive := (fresh number table options).after requests
    (∀ group key unpacked, (archive.unpack group key).1 = .ok unpacked ↔
      ∃ found container, UnpacksFrom options table group key unpacked found container) ∧
    (∀ group file key data, (archive.read group file key).1 = .ok data ↔
      ∃ unpacked found container, UnpacksFrom options table group key unpacked found container ∧
        ∃ served, unpacked.file? file = some served ∧ served.data = data) ∧
    (∀ hash file key data, (archive.readHashed hash file key).1 = .ok data ↔
      ∃ named, table.groupHashed? hash = some named ∧ ∃ unpacked found container,
        UnpacksFrom options table named.id key unpacked found container ∧
          ∃ served, unpacked.file? file = some served ∧ served.data = data) ∧
    (∀ group file entry count key answer,
      (archive.readEntry group file entry count key).1 = .ok answer ↔
        ∃ unpacked found container, UnpacksFrom options table group key unpacked found container ∧
          ∃ served, unpacked.file? file = some served ∧ served.entry entry count = .ok answer) := by
  have unpacks : ∀ {group key unpacked},
      (fresh number table options).unpackFresh group key = .ok unpacked ↔
        ∃ found container, UnpacksFrom options table group key unpacked found container :=
    unpackFresh_eq_ok_iff
  refine ⟨?_, ?_, ?_, ?_⟩
  · intro group key unpacked
    rw [unpack_after, unpacks]
  · intro group file key data
    simp only [read_after_eq_ok_iff, unpacks, exists_and_right]
  · intro hash file key data
    simp only [readHashed_after_eq_ok_iff, unpacks, exists_and_right]
  · intro group file entry count key answer
    simp only [readEntry_after_eq_ok_iff, unpacks, exists_and_right]

/-- A group whose stored byte is no container, with some digest that is listed for it. -/
def bareGroup (listed : Digest) : Group :=
  { Group.blank 0 0 with digest := some listed, files := [⟨0, unnamed⟩], raw := [42] }

/-- A table with that group alone. -/
def bareTable (listed : Digest) : ReferenceTable where
  archive := 0
  crc := 0
  digest := Digest.zero
  compression := .none
  protocol := .unversioned
  revision := 0
  flags := ⟨false, true, false, false⟩
  groups := #[bareGroup listed]
  byName := ∅

/-- With both checks asked for, a byte that is no container is served whatever is listed for it. -/
theorem unpack_bareTable (listed : Digest) :
    ((fresh 0 (bareTable listed) ⟨true, true, 1024⟩).unpack 0 none).1 =
      .ok ⟨0, none, [⟨0, unnamed, [42]⟩]⟩ := by
  have found : (bareTable listed).group? 0 = some (bareGroup listed) := by
    rw [ReferenceTable.group?_eq_find? (by simp [bareTable, ReferenceTable.IdsAscend])]
    rfl
  have opened : openStored (bareGroup listed).raw none = .ok none := rfl
  have vouched : Vouched ⟨true, true, 1024⟩ (bareTable listed).flags (bareGroup listed) none :=
    ⟨by simp, by simp, by simp [bareTable]⟩
  rw [unpack_fst (memoSound_fresh _ _ _), unpackFresh_eq_ok_iff]
  exact ⟨bareGroup listed, none, found, opened, vouched, rfl, rfl, rfl⟩

/-- The checksum that is listed is not that of the byte, and of two digests that are listed at least one
is not that of the byte either; the byte is served with both. -/
theorem bare_bytes_pass :
    (∀ listed ∈ [Digest.zero, Vector.replicate 64 1],
      ((fresh 0 (bareTable listed) ⟨true, true, 1024⟩).unpack 0 none).1 =
          .ok ⟨0, none, [⟨0, unnamed, [42]⟩]⟩ ∧
        crc32 (bareGroup listed).raw ≠ (bareGroup listed).crc) ∧
      ∃ listed ∈ [Digest.zero, Vector.replicate 64 1], whirlpool (bareGroup listed).raw ≠ listed := by
  have crc : crc32 [42] ≠ 0 := by decide +kernel
  have different : Digest.zero ≠ Vector.replicate 64 1 := by decide
  refine ⟨fun listed _ => ⟨unpack_bareTable listed, crc⟩, ?_⟩
  by_cases zero : whirlpool [42] = Digest.zero
  · exact ⟨Vector.replicate 64 1, by simp, fun ones => different (zero.symm.trans ones)⟩
  · exact ⟨Digest.zero, by simp, zero⟩

end Archive
end SectorVault
