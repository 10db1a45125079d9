import Mathlib
import SectorVault.Proofs.Bytes
import SectorVault.Proofs.Keys
import SectorVault.Proofs.Outcomes
import SectorVault.Proofs.Store.Chain
import SectorVault.Store.Directory

/-!
# Directories that hold records

What it takes for a cache directory to hold some records, however they are laid out.  A data file
holds a record in some sectors if each of them starts with the header that belongs there and goes on
with the part that belongs there (`HoldsRecord`); where the sectors are, what else is in them and what
is in the others does not matter.  A directory holds records if its data file holds each of them in
sectors that the index file of its archive points to, if there are no other live records, and if the
index files that opening needs are there (`Directory.Holds`).

Such a directory opens, it lists exactly the groups it holds records of, and reads each of them back
(`Holds.openStore`, `Holds.list`, `Holds.read`).

The locators of an index file are counted in a word, so a record whose locator is not among those that are
counted is not held, even if everything else is in its place.  What a directory holds are the others
(`Directory.counted`, `Holds.of_located`).
-/

namespace SectorVault

/-! ## Headers -/

namespace Owner

theorem payloadSize_pos (owner : Owner) : 0 < owner.payloadSize := by
  unfold payloadSize headerSize sectorSize
  split <;> omega

theorem headerSize_add_payloadSize (owner : Owner) :
    owner.headerSize + owner.payloadSize = sectorSize := by
  unfold payloadSize headerSize sectorSize
  split <;> omega

@[simp] theorem length_encodeHeader (owner : Owner) (part : UInt16) (nextSector : Nat) :
    (owner.encodeHeader part nextSector).length = owner.headerSize := by
  unfold encodeHeader headerSize
  split <;> simp

/-- A header reads back; the next sector has to fit its three bytes. -/
theorem headerOf_encodeHeader (owner : Owner) (part : UInt16) {nextSector : Nat}
    (narrow : nextSector < 2 ^ 24) :
    owner.headerOf (owner.encodeHeader part nextSector) = owner.header part nextSector := by
  have group : owner.group.toNat < 256 ^ (if owner.isExtended then 4 else 2) := by
    have small := owner.group.toNat_lt
    cases extended : owner.isExtended with
    | true => simpa using small
    | false =>
      have compact : ¬ (0xFFFF : UInt32) < owner.group := by simpa [isExtended] using extended
      rw [UInt32.not_lt, UInt32.le_iff_toNat_le] at compact
      exact Nat.lt_of_le_of_lt compact (by decide)
  have number : part.toNat < 256 ^ 2 := part.toNat_lt
  have next : nextSector < 256 ^ 3 := narrow
  unfold headerOf encodeHeader header
  simp only [List.append_assoc]
  rw [List.take_left' (length_toBigEndian _ _), List.drop_left' (length_toBigEndian _ _),
    List.take_left' (length_toBigEndian _ _), List.drop_left' (length_toBigEndian _ _),
    List.take_left' (length_toBigEndian _ _), wordOf, bigEndian_toBigEndian_of_lt group,
    bigEndian_toBigEndian_of_lt number, bigEndian_toBigEndian_of_lt next, UInt32.ofNat_toNat,
    UInt16.ofNat_toNat]
  congr 1

end Owner

/-! ## The data file -/

namespace DataFile

variable {file : DataFile} {owner : Owner} {record : Bytes} {sectors : List Nat}

variable (file owner record sectors) in
/-- A data file holds a record in some sectors. -/
structure HoldsRecord : Prop where
  /-- There is a sector for every part. -/
  count : sectors.length = partCount owner record.length
  /-- The first sector of the file is not used. -/
  present : ∀ sector ∈ sectors, sector ≠ 0
  /-- The sectors can be pointed to. -/
  narrow : ∀ sector ∈ sectors, sector < 2 ^ 24
  /-- The sectors are not beyond the file. -/
  inFile : ∀ sector ∈ sectors, sector ≤ file.sectorCount
  /-- Each sector starts with a header that points to the next one, and the last one to none. -/
  header : ∀ i (h : i < sectors.length),
    slice file.bytes (Owner.sectorSize * sectors[i])
        (Owner.sectorSize * sectors[i] + owner.headerSize) =
      owner.encodeHeader (UInt16.ofNat i) (sectors[i + 1]?.getD 0)
  /-- Behind its header each sector has its part. -/
  payload : ∀ i (h : i < sectors.length),
    file.payloadAt owner record.length i sectors[i] =
      (record.drop (i * owner.payloadSize)).take owner.payloadSize

theorem mul_lt_of_lt_partCount {i length : Nat} (h : i < partCount owner length) :
    i * owner.payloadSize < length := by
  have positive := owner.payloadSize_pos
  unfold partCount at h
  rw [Nat.lt_div_iff_mul_lt positive] at h
  omega

namespace HoldsRecord

theorem headerAt (holds : file.HoldsRecord owner record sectors) {i : Nat}
    (h : i < sectors.length) :
    file.headerAt owner sectors[i] =
      owner.header (UInt16.ofNat i) (sectors[i + 1]?.getD 0) := by
  have narrow : sectors[i + 1]?.getD 0 < 2 ^ 24 := by
    cases next : sectors[i + 1]? with
    | none => simp
    | some sector => exact holds.narrow sector (List.mem_of_getElem? next)
  rw [DataFile.headerAt, holds.header i h, Owner.headerOf_encodeHeader owner _ narrow]

theorem inOrder (holds : file.HoldsRecord owner record sectors) {i : Nat}
    (h : i < sectors.length) : file.PartInOrder owner record.length i sectors[i] := by
  have mem : sectors[i] ∈ sectors := List.getElem_mem h
  have header := holds.headerAt h
  have before := mul_lt_of_lt_partCount (holds.count ▸ h)
  have positive := owner.payloadSize_pos
  refine ⟨holds.present _ mem, ?_, ?_, ?_, ?_, ?_⟩
  · -- the part is not empty, so all of it being there means that the file reaches behind it
    have length := congrArg List.length (holds.payload i h)
    simp only [payloadAt, slice, Array.length_toList, Array.size_extract, List.length_take,
      List.length_drop] at length
    omega
  · rw [header]
    rfl
  · rw [header]
    rfl
  · rw [header]
    exact UInt16.toNat_ofNat'
  · rw [header]
    show sectors[i + 1]?.getD 0 ≤ file.sectorCount
    cases next : sectors[i + 1]? with
    | none => simp
    | some sector => exact holds.inFile sector (List.mem_of_getElem? next)

theorem isRecordChain (holds : file.HoldsRecord owner record sectors) :
    file.IsRecordChain owner ⟨sectors.headD 0, record.length⟩ sectors := by
  refine ⟨holds.count, ⟨?_, ?_⟩, fun i h => holds.inOrder h⟩
  · intro sector first
    cases sectors with
    | nil => simp at first
    | cons sector sectors => simpa using first.symm
  · refine List.isChain_iff_getElem.2 fun i h => ?_
    rw [holds.headerAt (by omega)]
    simp [Owner.header, h]

end HoldsRecord

/-- The parts of a string, one behind the other, are the front of the string. -/
theorem flatten_parts (bytes : Bytes) (size count : Nat) :
    ((List.range count).map fun i => (bytes.drop (i * size)).take size).flatten =
      bytes.take (count * size) := by
  induction count with
  | zero => simp
  | succ count ih =>
    rw [List.range_succ, List.map_append, List.flatten_append, ih, Nat.succ_mul, List.take_add]
    simp

/-- A record reads back from the sectors that hold it. -/
theorem HoldsRecord.read (holds : file.HoldsRecord owner record sectors) :
    file.read owner ⟨sectors.headD 0, record.length⟩ = .ok record := by
  have whole : (file.partsOf owner record.length 0 sectors).flatten = record := by
    have parts : file.partsOf owner record.length 0 sectors =
        (List.range sectors.length).map fun i =>
          (record.drop (i * owner.payloadSize)).take owner.payloadSize := by
      refine List.ext_getElem (by simp [partsOf]) fun i h _ => ?_
      simp only [partsOf, List.length_map, List.length_zipIdx] at h
      simp [partsOf, holds.payload i h]
    rw [parts, flatten_parts, holds.count, List.take_of_length_le]
    exact length_le_partCount_mul owner record.length
  cases sectors with
  | nil =>
    rw [read_of_not_holds (by simp [DataFile.holds]), ← whole]
    rfl
  | cons sector sectors =>
    have present := holds.present sector (by simp)
    have inFile := holds.inFile sector (by simp)
    rw [read_of_isRecordChain (by simp [DataFile.holds, present, inFile]) holds.isRecordChain,
      whole]

end DataFile

/-! ## Index files -/

namespace IndexFile

theorem mem_live {index : IndexFile} {ordinal : Nat} :
    ordinal ∈ index.live ↔ ordinal < index.recordCount ∧ index.isLive ordinal = true := by
  simp [live]

/-- The ordinals of the live records ascend. -/
theorem live_ascends (index : IndexFile) : index.live.Pairwise (· < ·) :=
  List.pairwise_lt_range.filter _

theorem recordCount_lt (index : IndexFile) : index.recordCount < 2 ^ 32 :=
  Nat.mod_lt _ (by decide)

end IndexFile

/-! ## Directories -/

namespace Directory

theorem mem_liveArchives {master : IndexFile} {archive : UInt8} :
    archive ∈ liveArchives master ↔
      archive ≠ masterArchive ∧ archive.toNat ∈ master.live := by
  have master_toNat : masterArchive.toNat = 255 := rfl
  have small : archive.toNat < 256 := archive.toNat_lt
  have other : archive ≠ masterArchive ↔ archive.toNat ≠ 255 := by
    rw [ne_eq, ← UInt8.toNat_inj, master_toNat]
  rw [other, IndexFile.mem_live, liveArchives, master_toNat]
  simp only [List.mem_map, List.mem_filter, List.mem_range, lt_min_iff]
  constructor
  · rintro ⟨ordinal, ⟨⟨inside, below⟩, live⟩, rfl⟩
    have same : (UInt8.ofNat ordinal).toNat = ordinal :=
      UInt8.toNat_ofNat_of_lt' (by show ordinal < 256; omega)
    rw [same]
    exact ⟨by omega, inside, live⟩
  · rintro ⟨below, inside, live⟩
    exact ⟨archive.toNat, ⟨⟨inside, by omega⟩, live⟩, UInt8.ofNat_toNat⟩

/-- The live archives ascend. -/
theorem liveArchives_ascends (master : IndexFile) :
    (liveArchives master).Pairwise fun archive later => archive < later := by
  have inside : ∀ ordinal ∈ (List.range (min master.recordCount masterArchive.toNat)).filter
      master.isLive, ordinal < 256 := by
    intro ordinal mem
    have below := List.mem_range.1 (List.mem_filter.1 mem).1
    have master_toNat : masterArchive.toNat = 255 := rfl
    omega
  refine List.pairwise_map.2 ?_
  refine (List.pairwise_lt_range.filter master.isLive).imp_of_mem fun mem mem' before => ?_
  rw [UInt8.lt_iff_toNat_lt, UInt8.toNat_ofNat_of_lt' (inside _ mem),
    UInt8.toNat_ofNat_of_lt' (inside _ mem')]
  exact before

variable {directory : Directory} {data : DataFile} {index : UInt8 → IndexFile}
  {records : Owner → Bytes}

variable (directory data index records) in
/-- A directory holds records, in its data file and its index files; an empty record is none. -/
structure Holds : Prop where
  /-- The data file. -/
  dataFile : directory.dataFile = .file data.bytes
  /-- The index file of the master archive is there, and that of each archive it has a record of. -/
  indexFile : ∀ archive,
    archive = masterArchive ∨ records ⟨masterArchive, archive.toUInt32⟩ ≠ [] →
      directory.indexFile archive = .file (index archive).bytes
  /-- Each index file is known for the archive that it is of. -/
  archive_eq : ∀ archive, (index archive).archive = archive
  /-- Exactly the groups with records are live. -/
  live_iff : ∀ owner, owner.group.toNat ∈ (index owner.archive).live ↔ records owner ≠ []
  /-- The locator of a record points to sectors that hold it. -/
  located : ∀ owner, records owner ≠ [] → ∃ sectors,
    data.HoldsRecord owner (records owner) sectors ∧
      (index owner.archive).locatorAt owner.group.toNat =
        ⟨sectors.headD 0, (records owner).length⟩

/-- What is left of some records without those that are not among the locators which their index files are
taken to have. -/
def counted (index : UInt8 → IndexFile) (records : Owner → Bytes) (owner : Owner) : Bytes :=
  if owner.group.toNat < (index owner.archive).recordCount then records owner else []

theorem counted_ne_nil_iff {owner : Owner} :
    counted index records owner ≠ [] ↔
      owner.group.toNat < (index owner.archive).recordCount ∧ records owner ≠ [] := by
  unfold counted
  split
  next inside => simp [inside]
  next outside => simp [outside]

namespace Holds

/-- A directory holds the records that its locators point to, as far as these are counted. -/
theorem of_located (dataFile : directory.dataFile = .file data.bytes)
    (indexFile : ∀ archive,
      archive = masterArchive ∨ records ⟨masterArchive, archive.toUInt32⟩ ≠ [] →
        directory.indexFile archive = .file (index archive).bytes)
    (archive_eq : ∀ archive, (index archive).archive = archive)
    (points : ∀ owner, owner.group.toNat < (index owner.archive).recordCount →
      (((index owner.archive).locatorAt owner.group.toNat).startSector ≠ 0 ↔ records owner ≠ []))
    (located : ∀ owner, owner.group.toNat < (index owner.archive).recordCount → records owner ≠ [] →
      ∃ sectors, data.HoldsRecord owner (records owner) sectors ∧
        (index owner.archive).locatorAt owner.group.toNat =
          ⟨sectors.headD 0, (records owner).length⟩) :
    directory.Holds data index (counted index records) where
  dataFile := dataFile
  indexFile archive needed :=
    indexFile archive (needed.imp_right fun present => (counted_ne_nil_iff.1 present).2)
  archive_eq := archive_eq
  live_iff owner := by
    rw [IndexFile.mem_live, counted_ne_nil_iff, IndexFile.isLive, bne_iff_ne]
    exact and_congr_right fun inside => points owner inside
  located owner present := by
    obtain ⟨inside, present⟩ := counted_ne_nil_iff.1 present
    have held : counted index records owner = records owner := if_pos inside
    rw [held]
    exact located owner inside present

variable (data index) in
/-- The opened directory. -/
def disk : DiskStore :=
  ⟨data, index masterArchive, (liveArchives (index masterArchive)).map index⟩

theorem mem_liveArchives (holds : directory.Holds data index records) {archive : UInt8} :
    archive ∈ liveArchives (index masterArchive) ↔
      archive ≠ masterArchive ∧ records ⟨masterArchive, archive.toUInt32⟩ ≠ [] := by
  rw [Directory.mem_liveArchives, ← holds.live_iff, UInt8.toNat_toUInt32]

theorem openStore (holds : directory.Holds data index records) :
    directory.openStore = .ok (disk data index) := by
  have opened : ∀ archive, archive = masterArchive ∨ archive ∈ liveArchives (index masterArchive) →
      directory.requireIndex archive = .ok () ∧
        directory.openIndex archive = .ok (index archive) := by
    intro archive needed
    have file := holds.indexFile archive (needed.imp_right fun live =>
      (holds.mem_liveArchives.1 live).2)
    have same : IndexFile.mk archive (index archive).bytes = index archive :=
      congrArg (fun archive' => IndexFile.mk archive' (index archive).bytes)
        (holds.archive_eq archive).symm
    refine ⟨by simp [requireIndex, file, DirectoryEntry.isPresent], ?_⟩
    rw [openIndex, file, ← same]
  obtain ⟨required, master⟩ := opened masterArchive (.inl rfl)
  have others : (liveArchives (index masterArchive)).mapM (fun archive => do
        directory.requireIndex archive
        directory.openIndex archive) =
      (.ok ((liveArchives (index masterArchive)).map index) : Except OpenError _) := by
    rw [mapM_eq_ok_iff, List.forall₂_map_right_iff, List.forall₂_same]
    intro archive live
    obtain ⟨required, found⟩ := opened archive (.inr live)
    rw [required, found]
    rfl
  have data_eq : directory.openData = .ok data := by rw [openData, holds.dataFile]
  have present : directory.dataFile.isPresent = true := by rw [holds.dataFile]; rfl
  unfold Directory.openStore
  rw [present, required, data_eq, master]
  simp only [Bool.not_true, Bool.false_eq_true, if_false]
  show Except.bind ((liveArchives (index masterArchive)).mapM _) _ = _
  rw [others]
  rfl

variable {archive : UInt8}

theorem index_eq (holds : directory.Holds data index records)
    (listed : archive = masterArchive ∨ records ⟨masterArchive, archive.toUInt32⟩ ≠ []) :
    (disk data index).index archive = .ok (index archive) := by
  unfold DiskStore.index
  split
  · next master => rw [master]; rfl
  · next other =>
    have live := holds.mem_liveArchives.2 ⟨other, listed.resolve_left other⟩
    have mem : index archive ∈ (liveArchives (index masterArchive)).map index :=
      List.mem_map_of_mem live
    have found := find?_key IndexFile.archive mem fun index' mem' same => by
      obtain ⟨archive', -, rfl⟩ := List.mem_map.1 mem'
      rw [holds.archive_eq, holds.archive_eq] at same
      rw [same]
    rw [holds.archive_eq] at found
    rw [disk, found]

/-- The directory lists the groups that it holds records of. -/
theorem list (holds : directory.Holds data index records)
    (listed : archive = masterArchive ∨ records ⟨masterArchive, archive.toUInt32⟩ ≠ []) :
    (disk data index).list archive = .ok ((index archive).live.map UInt32.ofNat) := by
  rw [DiskStore.list, holds.index_eq listed]
  rfl

/-- The records that the directory holds read back. -/
theorem read (holds : directory.Holds data index records) {group : UInt32}
    (listed : archive = masterArchive ∨ records ⟨masterArchive, archive.toUInt32⟩ ≠ [])
    (present : records ⟨archive, group⟩ ≠ []) :
    (disk data index).read archive group = .ok (records ⟨archive, group⟩) := by
  obtain ⟨sectors, held, locator⟩ := holds.located ⟨archive, group⟩ present
  have live := IndexFile.mem_live.1 ((holds.live_iff ⟨archive, group⟩).2 present)
  have found : (index archive).locator group =
      .ok ⟨sectors.headD 0, (records ⟨archive, group⟩).length⟩ := by
    rw [IndexFile.locator, if_pos live.1, locator]
  have bytes := held.read
  rw [DiskStore.read, holds.index_eq listed]
  show (((index archive).locator group).mapError StoreError.index >>= _) = _
  rw [found]
  show (data.read ⟨archive, group⟩ _).mapError StoreError.sector = _
  rw [bytes]
  rfl

/-- A group without a record reads as empty, or is beyond the index file. -/
theorem read_of_absent (holds : directory.Holds data index records) {group : UInt32}
    (listed : archive = masterArchive ∨ records ⟨masterArchive, archive.toUInt32⟩ ≠ [])
    (absent : records ⟨archive, group⟩ = []) :
    (disk data index).read archive group =
      if group.toNat < (index archive).recordCount then .ok []
      else .error (.index (.endOfFile archive group (index archive).recordCount)) := by
  rw [DiskStore.read, holds.index_eq listed]
  show (((index archive).locator group).mapError StoreError.index >>= _) = _
  by_cases inside : group.toNat < (index archive).recordCount
  · have dead : ¬ (index archive).isLive group.toNat = true := by
      intro live
      exact (holds.live_iff ⟨archive, group⟩).1 (IndexFile.mem_live.2 ⟨inside, live⟩) absent
    have nowhere : ¬ data.holds ((index archive).locatorAt group.toNat) = true := by
      simp only [IndexFile.isLive, bne_iff_ne, ne_eq, not_not] at dead
      simp [DataFile.holds, dead]
    rw [IndexFile.locator, if_pos inside, if_pos inside]
    show (data.read ⟨archive, group⟩ _).mapError StoreError.sector = _
    rw [DataFile.read_of_not_holds (by simpa using nowhere)]
    rfl
  · rw [IndexFile.locator, if_neg inside, if_neg inside, holds.archive_eq]
    rfl

/-- What is read of a group depends on whether its locator is counted. -/
theorem read_eq (holds : directory.Holds data index records)
    (listed : archive = masterArchive ∨ records ⟨masterArchive, archive.toUInt32⟩ ≠ [])
    (group : UInt32) :
    (disk data index).read archive group =
      if group.toNat < (index archive).recordCount then .ok (records ⟨archive, group⟩)
      else .error (.index (.endOfFile archive group (index archive).recordCount)) := by
  by_cases absent : records ⟨archive, group⟩ = []
  · rw [holds.read_of_absent listed absent, absent]
  · have live := IndexFile.mem_live.1 ((holds.live_iff ⟨archive, group⟩).2 absent)
    rw [holds.read listed absent, if_pos live.1]

/-- An archive that the master archive has no record of is not in the store. -/
theorem index_of_unlisted (holds : directory.Holds data index records)
    (other : archive ≠ masterArchive) (unlisted : records ⟨masterArchive, archive.toUInt32⟩ = []) :
    (disk data index).index archive = .error (.archiveNotFound archive) := by
  have absent : ∀ index' ∈ (liveArchives (index masterArchive)).map index,
      index'.archive ≠ archive := by
    intro index' mem same
    obtain ⟨archive', live, rfl⟩ := List.mem_map.1 mem
    rw [holds.archive_eq] at same
    exact (holds.mem_liveArchives.1 live).2 (same ▸ unlisted)
  unfold DiskStore.index
  rw [if_neg other]
  simp only [disk, find?_key_eq_none IndexFile.archive absent]

theorem list_of_unlisted (holds : directory.Holds data index records)
    (other : archive ≠ masterArchive) (unlisted : records ⟨masterArchive, archive.toUInt32⟩ = []) :
    (disk data index).list archive = .error (.archiveNotFound archive) := by
  rw [DiskStore.list, holds.index_of_unlisted other unlisted]
  rfl

theorem read_of_unlisted (holds : directory.Holds data index records)
    (other : archive ≠ masterArchive) (unlisted : records ⟨masterArchive, archive.toUInt32⟩ = [])
    (group : UInt32) :
    (disk data index).read archive group = .error (.archiveNotFound archive) := by
  rw [DiskStore.read, holds.index_of_unlisted other unlisted]
  rfl

end Holds
end Directory

end SectorVault
