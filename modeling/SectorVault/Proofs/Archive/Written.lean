import Mathlib
import SectorVault.Cache.Contents
import SectorVault.Proofs.Archive.Verification
import SectorVault.Proofs.Container.Sealing
import SectorVault.Proofs.Group.Entries
import SectorVault.Proofs.Keys
import SectorVault.Proofs.ReferenceTable.Fetching

/-!
# Reading archives that were written

The table of an archive that was written is known in full (`ArchiveContents.loaded`), and so is every
group in it: looking a group up by its id gives the group as it was listed, at some ordinal, with its
stored bytes (`group?_loaded`).  Whatever the table keeps of the checksums and the digest is right, so
the stored bytes are vouched for (`vouched_loaded`), and the group unpacks to the files it was written
from (`unpackFresh_opened`).
-/

namespace SectorVault

/-! ## Groups -/

namespace GroupContents

/-- The files of a group as a table with some flags labels them. -/
def labelled (group : GroupContents) (flags : TableFlags) : List File :=
  group.files.map fun file =>
    { file with nameHash := if flags.names then file.nameHash else unnamed }

/-- A group as it is after loading its table, at some ordinal and with some stored bytes. -/
def loaded (group : GroupContents) (flags : TableFlags) (ordinal : Nat) (raw : Bytes) : Group :=
  { flags.keep group.listed ordinal with raw := raw }

theorem length_stored (group : GroupContents) :
    group.stored.length = 5 + group.packed.length :=
  Container.length_sealPlain group.packed group.key

variable {group : GroupContents} (flags : TableFlags) (ordinal : Nat)

/-- The stored bytes of a group are a container, which the key of the group opens. -/
theorem openStored_stored (short : group.packed.length ≤ 2000000) :
    openStored group.stored group.key = .ok (some
      ⟨group.packed, .none, Container.noRevision, crc32 group.stored, group.stored.length⟩) := by
  have decoded := Container.decode_sealPlain short group.key []
  rw [List.append_nil, ← stored] at decoded
  rw [openStored, decoded]

/-- The data of a group splits into its files. -/
theorem split_packed (short : group.packed.length ≤ 2000000) (raw : Bytes) :
    (group.loaded flags ordinal raw).split group.packed = .ok (group.labelled flags) := by
  have packed : Bundle.Packed (group.files.map File.data) group.packed :=
    Bundle.packed_ofFiles (by simpa using group.nonempty)
  have count : (group.loaded flags ordinal raw).files.length =
      (group.files.map File.data).length := by
    simp [loaded, TableFlags.keep, listed]
  have few : (group.files.map File.data).length ≤ group.packed.length + 1 :=
    Bundle.length_le_ofFiles _
  have room : 24 * (group.files.map File.data).length < 2 ^ 63 := by omega
  rw [Group.split, count, packed.split_eq (by omega) (Splitter.toNat_ofNat_of_room room) _ _ room]
  congr 1
  refine List.ext_getElem (by simp [labelled]) fun i h _ => ?_
  have inside : i < group.files.length := by simpa using h
  simp [Bundle.label, labelled, loaded, TableFlags.keep, listed, inside]

/-- No data splits into the first file alone, without contents. -/
theorem split_nil (group : GroupContents) (flags : TableFlags) (ordinal : Nat) (raw : Bytes) : ∃ first,
    (group.loaded flags ordinal raw).split [] = .ok [first] ∧
      first.id = (group.files.head group.nonempty).id ∧ first.data = [] := by
  obtain ⟨file, files, same⟩ := List.exists_cons_of_ne_nil group.nonempty
  refine ⟨_, rfl, ?_, rfl⟩
  simp [Bundle.label, loaded, TableFlags.keep, listed, same]

end GroupContents

/-! ## Archives -/

namespace ArchiveContents

/-- The bytes that a cache has for a group once it is written: what was stored, if the locators of the
archive can be counted. -/
def held (archive : ArchiveContents) (group : Group) : Bytes :=
  if archive.Countable then group.raw else []

/-- The table of an archive as it is after loading. -/
def loaded (archive : ArchiveContents) : ReferenceTable :=
  { (ReferenceTable.ofGroups archive.protocol archive.revision archive.flags
      (archive.groups.map GroupContents.listed)).withGroups
        (ReferenceTable.fetchedGroups (TableFlags.ofByte archive.flags) archive.held
          (archive.groups.map GroupContents.listed)).toArray with
    archive := archive.number
    crc := crc32 archive.storedTable
    digest := whirlpool archive.storedTable
    compression := .none }

theorem length_storedTable (archive : ArchiveContents) :
    archive.storedTable.length = 5 + archive.table.length :=
  Container.length_sealPlain archive.table none

variable {archive : ArchiveContents}

theorem groups_loaded (archive : ArchiveContents) :
    archive.loaded.groups.toList = archive.groups.zipIdx.map fun item =>
      item.1.loaded (TableFlags.ofByte archive.flags) item.2 (archive.held item.1.listed) := by
  show ReferenceTable.fetchedGroups _ _ _ = _
  rw [ReferenceTable.fetchedGroups, List.zipIdx_map, List.map_map]
  rfl

theorem ids_loaded (archive : ArchiveContents) :
    archive.loaded.groups.toList.map Group.id = archive.groups.map GroupContents.id := by
  rw [groups_loaded, List.map_map]
  conv_rhs => rw [← List.zipIdx_map_fst 0 archive.groups, List.map_map]
  rfl

theorem ascend_loaded (archive : ArchiveContents) :
    archive.loaded.groups.toList.Pairwise fun group later => group.id < later.id := by
  have ascend : (archive.groups.map GroupContents.id).Pairwise (· < ·) :=
    List.pairwise_map.2 archive.ascend
  rw [← ids_loaded, List.pairwise_map] at ascend
  exact ascend

theorem idsAscend_loaded (archive : ArchiveContents) :
    ReferenceTable.IdsAscend archive.loaded.groups.toList :=
  archive.ascend_loaded.imp UInt32.le_of_lt

/-- A group of the archive is found by its id. -/
theorem group?_loaded {group : GroupContents} (mem : group ∈ archive.groups) :
    ∃ ordinal, archive.loaded.group? group.id =
      some (group.loaded (TableFlags.ofByte archive.flags) ordinal (archive.held group.listed)) := by
  obtain ⟨ordinal, h, rfl⟩ := List.getElem_of_mem mem
  have listed : archive.groups[ordinal].loaded (TableFlags.ofByte archive.flags) ordinal
      (archive.held archive.groups[ordinal].listed) ∈ archive.loaded.groups.toList := by
    rw [groups_loaded]
    refine List.mem_map.2 ⟨(archive.groups[ordinal], ordinal), ?_, rfl⟩
    exact List.mk_mem_zipIdx_iff_getElem?.2 (List.getElem?_eq_getElem h)
  refine ⟨ordinal, ?_⟩
  rw [ReferenceTable.group?_eq_find? archive.idsAscend_loaded]
  exact find?_key Group.id listed fun other mem' same =>
    eq_of_key_eq Group.id (fun _ => UInt32.lt_irrefl _) archive.ascend_loaded mem' listed same

theorem group?_loaded_eq_none {id : UInt32} (absent : ∀ group ∈ archive.groups, group.id ≠ id) :
    archive.loaded.group? id = none := by
  rw [ReferenceTable.group?_eq_find? archive.idsAscend_loaded]
  refine find?_key_eq_none Group.id fun found mem => ?_
  have listed : found.id ∈ archive.groups.map GroupContents.id := by
    rw [← ids_loaded]
    exact List.mem_map_of_mem mem
  obtain ⟨group, mem', same⟩ := List.mem_map.1 listed
  rw [← same]
  exact absent group mem'

/-! ### Reading -/

variable (archive) in
/-- An archive as it is after loading its table. -/
def opened (options : Options) : Archive :=
  Archive.fresh archive.number archive.loaded options

/-- The stored bytes of a group are vouched for, whichever columns the table has. -/
theorem vouched_loaded (group : GroupContents) (flags : TableFlags) (ordinal : Nat)
    (options : Options) :
    Vouched options flags (group.loaded flags ordinal group.stored) (some
      ⟨group.packed, .none, Container.noRevision, crc32 group.stored, group.stored.length⟩) := by
  have crc : (group.loaded flags ordinal group.stored).crc = crc32 group.stored := rfl
  have plainCrc : (group.loaded flags ordinal group.stored).uncompressedCrc =
      if flags.uncompressedCrcs then crc32 group.packed else 0 := rfl
  have digest : (group.loaded flags ordinal group.stored).digest =
      if flags.digests then some (whirlpool group.stored) else none := rfl
  have raw : (group.loaded flags ordinal group.stored).raw = group.stored := rfl
  refine ⟨?_, ?_, ?_⟩
  · intro _ opened here
    rw [← Option.some.inj here, crc, raw, List.take_length]
  · intro _ opened here listed mem
    rw [digest] at mem
    split at mem
    · rw [← Option.some.inj here, ← Option.some.inj mem, raw, List.take_length]
    · cases mem
  · intro _ present
    rw [plainCrc, if_pos present]
    rfl

variable {group : GroupContents} (options : Options)

/-- Reading from an archive that has just been loaded is unpacking the group and looking for the file. -/
theorem read_opened_eq (archive : ArchiveContents) (id file : UInt32) (key : Option Key) :
    ((archive.opened options).read id file key).1 =
      (((archive.opened options).unpackFresh id key).bind fun unpacked =>
        (archive.opened options).select id file unpacked).map File.data := by
  have unpacked := Archive.unpack_fst (Archive.memoSound_fresh archive.number archive.loaded options)
    id key
  rw [Archive.read_fst, Archive.file_eq, opened, unpacked]

/-- A group of the archive unpacks to its files. -/
theorem unpackFresh_opened (countable : archive.Countable) (mem : group ∈ archive.groups)
    (short : group.packed.length ≤ 2000000) :
    (archive.opened options).unpackFresh group.id group.key =
      .ok ⟨group.id, group.key, group.labelled (TableFlags.ofByte archive.flags)⟩ := by
  obtain ⟨ordinal, found⟩ := group?_loaded mem
  have held : archive.held group.listed = group.stored := if_pos countable
  rw [held] at found
  have vouched := vouched_loaded group (TableFlags.ofByte archive.flags) ordinal options
  exact Archive.unpackFresh_eq_ok_iff.2 ⟨_, _, found, GroupContents.openStored_stored short, vouched,
    GroupContents.split_packed _ ordinal short _, rfl, rfl⟩

/-- Reading a file of a group that unpacks looks for the file. -/
theorem read_opened (countable : archive.Countable) (mem : group ∈ archive.groups)
    (short : group.packed.length ≤ 2000000) (id : UInt32) :
    ((archive.opened options).read group.id id group.key).1 =
      match group.files.find? fun file => file.id == id with
      | some file => .ok file.data
      | none => .error (.fileNotFound archive.number group.id id) := by
  have labelled : (group.labelled (TableFlags.ofByte archive.flags)).find?
      (fun file => file.id == id) = (group.files.find? fun file => file.id == id).map fun file =>
        { file with nameHash :=
          if (TableFlags.ofByte archive.flags).names then file.nameHash else unnamed } := by
    rw [GroupContents.labelled, List.find?_map]
    rfl
  rw [read_opened_eq, unpackFresh_opened options countable mem short]
  simp only [Except.bind, Archive.select, Unpacked.file?, labelled]
  cases group.files.find? fun file => file.id == id <;> rfl

/-- The check of the data of a group of the archive, if there is no data. -/
theorem verifyUncompressed_opened_nil (group : GroupContents) (ordinal : Nat) (raw : Bytes) :
    (archive.opened options).verifyUncompressed
        (group.loaded (TableFlags.ofByte archive.flags) ordinal raw) [] =
      if options.verifyChecksums = true ∧ (TableFlags.ofByte archive.flags).uncompressedCrcs = true ∧
          crc32 [] ≠ crc32 group.packed then
        .error (.uncompressedChecksumMismatch archive.number group.id (crc32 group.packed) (crc32 []))
      else .ok () := by
  have listed : (group.loaded (TableFlags.ofByte archive.flags) ordinal raw).uncompressedCrc =
      if (TableFlags.ofByte archive.flags).uncompressedCrcs then crc32 group.packed else 0 := rfl
  have flags : (archive.opened options).table.flags = TableFlags.ofByte archive.flags := rfl
  have asked : (archive.opened options).options = options := rfl
  rw [Archive.verifyUncompressed, listed, flags, asked]
  cases (TableFlags.ofByte archive.flags).uncompressedCrcs with
  | false => simp
  | true =>
    cases options.verifyChecksums with
    | false => simp
    | true =>
      by_cases same : crc32 [] = crc32 group.packed
      · simp [same]
      · simp only [same, Bool.and_self, if_true, if_false, ne_eq, not_false_eq_true, and_self]
        rfl

/-- A group whose locator is not counted is as good as never written: if nothing checks its data, it
unpacks to its first file alone, without contents. -/
theorem unpackFresh_opened_uncounted (uncountable : ¬ archive.Countable)
    (mem : group ∈ archive.groups) (key : Option Key) : ∃ first,
      first.id = (group.files.head group.nonempty).id ∧ first.data = [] ∧
      (archive.opened options).unpackFresh group.id key =
        if options.verifyChecksums = true ∧ (TableFlags.ofByte archive.flags).uncompressedCrcs = true ∧
            crc32 [] ≠ crc32 group.packed then
          .error (.uncompressedChecksumMismatch archive.number group.id (crc32 group.packed) (crc32 []))
        else .ok ⟨group.id, key, [first]⟩ := by
  obtain ⟨ordinal, found⟩ := group?_loaded mem
  have held : archive.held group.listed = [] := if_neg uncountable
  rw [held] at found
  obtain ⟨first, split, id_eq, empty⟩ :=
    GroupContents.split_nil group (TableFlags.ofByte archive.flags) ordinal []
  refine ⟨first, id_eq, empty, ?_⟩
  have raw : (group.loaded (TableFlags.ofByte archive.flags) ordinal []).raw = [] := rfl
  have unpacks : (archive.opened options).unpackFresh group.id key = _ :=
    Archive.unpackFresh_of_bare found rfl split
  rw [unpacks, raw, verifyUncompressed_opened_nil]
  split
  · rfl
  · rfl

/-- Reading a group whose locator is not counted. -/
theorem read_opened_uncounted (uncountable : ¬ archive.Countable) (mem : group ∈ archive.groups)
    (id : UInt32) (key : Option Key) :
    ((archive.opened options).read group.id id key).1 =
      if options.verifyChecksums = true ∧ (TableFlags.ofByte archive.flags).uncompressedCrcs = true ∧
          crc32 [] ≠ crc32 group.packed then
        .error (.uncompressedChecksumMismatch archive.number group.id (crc32 group.packed) (crc32 []))
      else if (group.files.head group.nonempty).id = id then .ok []
      else .error (.fileNotFound archive.number group.id id) := by
  obtain ⟨first, id_eq, empty, unpacks⟩ := unpackFresh_opened_uncounted options uncountable mem key
  rw [read_opened_eq, unpacks]
  split
  · rfl
  · rw [← id_eq]
    by_cases same : first.id = id
    · simp [Except.bind, Archive.select, Unpacked.file?, same, empty, Except.map]
    · simp [Except.bind, Archive.select, Unpacked.file?, same, Except.map, opened, Archive.fresh]

/-- Reading a group that the archive does not have fails. -/
theorem read_opened_absent {id : UInt32} (absent : ∀ group ∈ archive.groups, group.id ≠ id)
    (file : UInt32) (key : Option Key) :
    ((archive.opened options).read id file key).1 = .error (.groupNotFound archive.number id) := by
  rw [read_opened_eq, opened]
  simp only [Archive.unpackFresh, Archive.fresh, group?_loaded_eq_none absent]
  rfl

end ArchiveContents

end SectorVault
