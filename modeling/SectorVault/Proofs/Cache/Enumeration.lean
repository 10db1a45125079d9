import Mathlib
import SectorVault.Proofs.Cache.Opening

/-!
# Which archives a directory has

Which archives a cache has is asked in two places.  Opening the directory goes through the records of the
master index, up to the number of the master archive itself, and opens an index file for each live one;
opening the cache lists the groups of the master archive and keeps those that are numbers of archives.  A
master index may have any number of records and any bytes in them, and the index files need not be there.

Both come to the archives that the master index `Calls` for.  A directory opens exactly if the data file,
the master index and the index files of these archives open; otherwise it reports the first fault it meets
(`Fails`), which is the only one it looks for.  What it opens and what the cache lists are then the same, and
of any other archive the store says that there is none.  Records from the number of the master archive on are
not looked at by either: two master indexes with the same live records before that come to the same cache.
-/

namespace SectorVault
namespace Directory

variable {directory : Directory} {archive : UInt8} {error : OpenError}

/-! ## What a master index calls for -/

/-- A master index calls for an archive if it has a record of it, before the number of the master archive,
and the record starts in a sector. -/
def Calls (master : IndexFile) (archive : UInt8) : Prop :=
  archive < masterArchive ∧ archive.toNat < master.recordCount ∧
    (master.locatorAt archive.toNat).startSector ≠ 0

instance (master : IndexFile) (archive : UInt8) : Decidable (Calls master archive) :=
  inferInstanceAs (Decidable (_ ∧ _ ∧ _))

theorem lt_masterArchive_iff : archive < masterArchive ↔ archive ≠ masterArchive := by
  have small : archive.toNat < 256 := archive.toNat_lt
  have master_toNat : masterArchive.toNat = 255 := rfl
  rw [UInt8.lt_iff_toNat_lt, ne_eq, ← UInt8.toNat_inj, master_toNat]
  omega

theorem mem_liveArchives_iff_calls {master : IndexFile} :
    archive ∈ liveArchives master ↔ Calls master archive := by
  rw [mem_liveArchives, IndexFile.mem_live, Calls, lt_masterArchive_iff, IndexFile.isLive, bne_iff_ne]

/-! ## Single steps -/

variable (directory) in
/-- Checks that the data file exists. -/
def requireData : Except OpenError Unit :=
  if !directory.dataFile.isPresent then .error (.missingDataFile directory.dataPath) else .ok ()

theorem requireData_eq_ok_iff {passed : Unit} :
    directory.requireData = .ok passed ↔ directory.dataFile ≠ .missing := by
  unfold requireData
  cases directory.dataFile <;> simp [DirectoryEntry.isPresent]

theorem requireData_eq_error_iff :
    directory.requireData = .error error ↔
      directory.dataFile = .missing ∧ error = .missingDataFile directory.dataPath := by
  unfold requireData
  cases directory.dataFile <;> simp [DirectoryEntry.isPresent, eq_comm]

theorem requireIndex_eq_ok_iff {passed : Unit} :
    directory.requireIndex archive = .ok passed ↔ directory.indexFile archive ≠ .missing := by
  unfold requireIndex
  cases directory.indexFile archive <;> simp [DirectoryEntry.isPresent]

theorem requireIndex_eq_error_iff :
    directory.requireIndex archive = .error error ↔
      directory.indexFile archive = .missing ∧
        error = .missingIndexFile archive (directory.indexPath archive) := by
  unfold requireIndex
  cases directory.indexFile archive <;> simp [DirectoryEntry.isPresent, eq_comm]

theorem openIndex_eq_error_iff :
    directory.openIndex archive = .error error ↔
      (∀ bytes, directory.indexFile archive ≠ .file bytes) ∧ error = .index .unopenable := by
  unfold openIndex
  cases directory.indexFile archive <;> simp [eq_comm]

theorem openData_eq_ok_iff {data : DataFile} :
    directory.openData = .ok data ↔ directory.dataFile = .file data.bytes := by
  unfold openData
  cases data
  cases directory.dataFile <;> simp

theorem openData_eq_error_iff :
    directory.openData = .error error ↔
      (∀ bytes, directory.dataFile ≠ .file bytes) ∧ error = .sector .unopenable := by
  unfold openData
  cases directory.dataFile <;> simp [eq_comm]

theorem isUnopenable_of {entry : DirectoryEntry} (present : entry ≠ .missing)
    (shut : ∀ bytes, entry ≠ .file bytes) : entry = .unopenable := by
  cases entry with
  | missing => exact absurd rfl present
  | unopenable => rfl
  | file bytes => exact absurd rfl (shut bytes)

/-! ## The index file of one archive -/

variable (directory archive) in
/-- What is wrong with the index file of an archive. -/
inductive FileFault : OpenError → Prop
  /-- It is not there. -/
  | missing (absent : directory.indexFile archive = .missing) :
    FileFault (.missingIndexFile archive (directory.indexPath archive))
  /-- It does not open. -/
  | unopenable (shut : directory.indexFile archive = .unopenable) : FileFault (.index .unopenable)

variable (directory archive) in
/-- Opens the index file that an archive needs. -/
def openNeeded : Except OpenError IndexFile :=
  (directory.requireIndex archive).bind fun _ => directory.openIndex archive

theorem openNeeded_eq_error_iff :
    directory.openNeeded archive = .error error ↔ directory.FileFault archive error := by
  simp only [openNeeded, bind_eq_error, requireIndex_eq_error_iff, requireIndex_eq_ok_iff,
    openIndex_eq_error_iff]
  constructor
  · rintro (⟨absent, rfl⟩ | ⟨-, present, shut, rfl⟩)
    · exact .missing absent
    · exact .unopenable (isUnopenable_of present shut)
  · rintro (absent | shut)
    · exact .inl ⟨absent, rfl⟩
    · exact .inr ⟨(), by simp [shut], by simp [shut], rfl⟩

theorem exists_openNeeded_iff :
    (∃ index, directory.openNeeded archive = .ok index) ↔
      ∃ bytes, directory.indexFile archive = .file bytes := by
  simp only [openNeeded, bind_eq_ok, requireIndex_eq_ok_iff, openIndex_eq_ok_iff]
  constructor
  · rintro ⟨index, -, -, file, -⟩
    exact ⟨index.bytes, file⟩
  · rintro ⟨bytes, file⟩
    exact ⟨⟨archive, bytes⟩, (), by simp [file], file, rfl⟩

/-! ## The first fault of a directory -/

variable (directory) in
/-- Why a directory does not open: the first of its faults, in the order in which they count.  Whether the
data file and the master index are there counts before whether they open, and only then the archives count,
in ascending order. -/
inductive Fails : OpenError → Prop
  /-- There is no data file. -/
  | dataMissing (absent : directory.dataFile = .missing) : Fails (.missingDataFile directory.dataPath)
  /-- There is no master index. -/
  | masterMissing (data : directory.dataFile ≠ .missing)
    (absent : directory.indexFile masterArchive = .missing) :
    Fails (.missingIndexFile masterArchive (directory.indexPath masterArchive))
  /-- The data file does not open. -/
  | dataUnopenable (master : directory.indexFile masterArchive ≠ .missing)
    (shut : directory.dataFile = .unopenable) : Fails (.sector .unopenable)
  /-- The master index does not open. -/
  | masterUnopenable {data : Array UInt8} (data_eq : directory.dataFile = .file data)
    (shut : directory.indexFile masterArchive = .unopenable) : Fails (.index .unopenable)
  /-- The index file of an archive is at fault, and of those before it none is. -/
  | archive {data master : Array UInt8} (data_eq : directory.dataFile = .file data)
    (master_eq : directory.indexFile masterArchive = .file master) {archive : UInt8}
    (called : Calls ⟨masterArchive, master⟩ archive)
    (earlier : ∀ before, before < archive → Calls ⟨masterArchive, master⟩ before →
      ∃ bytes, directory.indexFile before = .file bytes)
    {error : OpenError} (fault : directory.FileFault archive error) : Fails error

variable (directory) in
/-- The files that a directory needs are there and open. -/
def Opens : Prop :=
  ∃ data master, directory.dataFile = .file data ∧
    directory.indexFile masterArchive = .file master ∧
    ∀ archive, Calls ⟨masterArchive, master⟩ archive →
      ∃ bytes, directory.indexFile archive = .file bytes

/-- Opening a directory as its steps. -/
theorem openStore_eq :
    directory.openStore =
      directory.requireData.bind fun _ =>
      (directory.requireIndex masterArchive).bind fun _ =>
      directory.openData.bind fun data =>
      (directory.openIndex masterArchive).bind fun master =>
      ((liveArchives master).mapM directory.openNeeded).bind fun indexes =>
        .ok ⟨data, master, indexes⟩ := by
  unfold openStore requireData
  cases directory.dataFile.isPresent <;> rfl

/-- In an ascending list those before an item are the smaller ones. -/
theorem mem_before_iff {before behind : List UInt8} {earlier : UInt8}
    (ascend : (before ++ archive :: behind).Pairwise (· < ·)) :
    earlier ∈ before ↔ earlier ∈ before ++ archive :: behind ∧ earlier < archive := by
  obtain ⟨-, later, apart⟩ := List.pairwise_append.1 ascend
  constructor
  · intro mem
    exact ⟨List.mem_append_left _ mem, apart earlier mem archive List.mem_cons_self⟩
  · rintro ⟨mem, smaller⟩
    rcases List.mem_append.1 mem with mem | mem
    · exact mem
    · rcases List.mem_cons.1 mem with rfl | mem
      · exact absurd smaller (UInt8.lt_irrefl _)
      · exact absurd (UInt8.lt_trans smaller ((List.pairwise_cons.1 later).1 earlier mem))
          (UInt8.lt_irrefl _)

/-- The archives are opened one after another, and the first fault is the one that counts. -/
theorem openAll_eq_error_iff {master : IndexFile} :
    (liveArchives master).mapM directory.openNeeded = .error error ↔
      ∃ archive, Calls master archive ∧
        (∀ before, before < archive → Calls master before →
          ∃ bytes, directory.indexFile before = .file bytes) ∧
        directory.FileFault archive error := by
  have ascend := liveArchives_ascends master
  simp only [mapM_eq_error_iff, ← mem_liveArchives_iff_calls, exists_openNeeded_iff,
    openNeeded_eq_error_iff]
  constructor
  · rintro ⟨before, archive, behind, split, succeed, fault⟩
    rw [split] at ascend
    refine ⟨archive, by simp [split], fun earlier smaller mem => ?_, fault⟩
    exact succeed earlier ((mem_before_iff ascend).2 ⟨split ▸ mem, smaller⟩)
  · rintro ⟨archive, mem, earlier, fault⟩
    obtain ⟨before, behind, split⟩ := List.append_of_mem mem
    rw [split] at ascend
    refine ⟨before, archive, behind, split, fun item inside => ?_, fault⟩
    obtain ⟨listed, smaller⟩ := (mem_before_iff ascend).1 inside
    exact earlier item smaller (split ▸ listed)

/-- A directory that does not open reports the first of its faults. -/
theorem openStore_eq_error_iff : directory.openStore = .error error ↔ directory.Fails error := by
  simp only [openStore_eq, bind_eq_error, requireData_eq_error_iff, requireData_eq_ok_iff,
    requireIndex_eq_error_iff, requireIndex_eq_ok_iff, openData_eq_error_iff, openData_eq_ok_iff,
    openIndex_eq_error_iff, openIndex_eq_ok_iff, openAll_eq_error_iff, reduceCtorEq, and_false,
    exists_false, or_false]
  constructor
  · rintro (⟨absent, rfl⟩ | ⟨-, data, rest⟩)
    · exact .dataMissing absent
    rcases rest with ⟨absent, rfl⟩ | ⟨-, master, rest⟩
    · exact .masterMissing data absent
    rcases rest with ⟨shut, rfl⟩ | ⟨data, data_eq, rest⟩
    · exact .dataUnopenable master (isUnopenable_of ‹_› shut)
    rcases rest with ⟨shut, rfl⟩ | ⟨⟨_, master⟩, ⟨master_eq, rfl⟩, archive, called, earlier, fault⟩
    · exact .masterUnopenable data_eq (isUnopenable_of ‹_› shut)
    · exact .archive data_eq master_eq called earlier fault
  · rintro (absent | ⟨data, absent⟩ | ⟨master, shut⟩ | ⟨data_eq, shut⟩ |
      ⟨data_eq, master_eq, called, earlier, fault⟩)
    · exact .inl ⟨absent, rfl⟩
    · exact .inr ⟨(), data, .inl ⟨absent, rfl⟩⟩
    · exact .inr ⟨(), by simp [shut], .inr ⟨(), master, .inl ⟨by simp [shut], rfl⟩⟩⟩
    · exact .inr ⟨(), by simp [data_eq], .inr ⟨(), by simp [shut],
        .inr ⟨⟨_⟩, data_eq, .inl ⟨by simp [shut], rfl⟩⟩⟩⟩
    · exact .inr ⟨(), by simp [data_eq], .inr ⟨(), by simp [master_eq],
        .inr ⟨⟨_⟩, data_eq, .inr ⟨⟨_, _⟩, ⟨master_eq, rfl⟩, _, called, earlier, fault⟩⟩⟩⟩

/-! ## Directories that open -/

variable {disk : DiskStore}

/-- An opened directory has the data file and the master index that are there. -/
theorem files_of_openStore (opened : directory.openStore = .ok disk) :
    directory.dataFile = .file disk.data.bytes ∧
      directory.indexFile masterArchive = .file disk.master.bytes ∧
      disk.master.archive = masterArchive := by
  rw [openStore_eq] at opened
  obtain ⟨-, -, opened⟩ := bind_eq_ok.1 opened
  obtain ⟨-, -, opened⟩ := bind_eq_ok.1 opened
  obtain ⟨data, data_eq, opened⟩ := bind_eq_ok.1 opened
  obtain ⟨master, master_eq, opened⟩ := bind_eq_ok.1 opened
  obtain ⟨indexes, -, opened⟩ := bind_eq_ok.1 opened
  obtain rfl := Except.ok.inj opened
  exact ⟨openData_eq_ok_iff.1 data_eq, openIndex_eq_ok_iff.1 master_eq⟩

theorem master_eq_of_openStore (opened : directory.openStore = .ok disk) {master : Array UInt8}
    (master_eq : directory.indexFile masterArchive = .file master) :
    disk.master = ⟨masterArchive, master⟩ := by
  obtain ⟨-, found, own⟩ := files_of_openStore opened
  rw [found] at master_eq
  rw [← own, ← DirectoryEntry.file.inj master_eq]

/-- A directory that opens has no fault. -/
theorem not_fails_of_opens (opens : directory.Opens) : ¬ directory.Fails error := by
  obtain ⟨data, master, data_eq, master_eq, files⟩ := opens
  rintro (absent | ⟨-, absent⟩ | ⟨-, shut⟩ | ⟨-, shut⟩ | ⟨-, master_eq', called, -, fault⟩)
  · simp [data_eq] at absent
  · simp [master_eq] at absent
  · simp [data_eq] at shut
  · simp [master_eq] at shut
  · rw [master_eq] at master_eq'
    obtain rfl := DirectoryEntry.file.inj master_eq'
    obtain ⟨bytes, file⟩ := files _ called
    rcases fault with absent | shut
    · simp [file] at absent
    · simp [file] at shut

theorem exists_openStore_iff : (∃ disk, directory.openStore = .ok disk) ↔ directory.Opens := by
  constructor
  · rintro ⟨disk, opened⟩
    obtain ⟨data_eq, master_eq, -⟩ := files_of_openStore opened
    refine ⟨_, _, data_eq, master_eq, fun archive called => ?_⟩
    rw [← master_eq_of_openStore opened master_eq, ← mem_liveArchives_iff_calls] at called
    obtain ⟨bytes, file, -⟩ := index_of_openStore opened called
    exact ⟨bytes, file⟩
  · intro opens
    cases outcome : directory.openStore with
    | ok disk => exact ⟨disk, rfl⟩
    | error error => exact absurd (openStore_eq_error_iff.1 outcome) (not_fails_of_opens opens)

/-- Of an archive that the master index does not call for nothing is opened. -/
theorem index_of_not_called (opened : directory.openStore = .ok disk)
    (other : archive ≠ masterArchive) (unlisted : archive ∉ liveArchives disk.master) :
    disk.index archive = .error (.archiveNotFound archive) := by
  have absent : ∀ index ∈ disk.indexes, index.archive ≠ archive := by
    intro index mem same
    obtain ⟨i, inside, rfl⟩ := List.getElem_of_mem mem
    have indexes := indexes_of_openStore opened
    have inside' : i < (liveArchives disk.master).length := indexes.length_eq.symm ▸ inside
    have own := (openIndex_eq_ok_iff.1 (indexes.get inside' inside)).2
    simp only [List.get_eq_getElem] at own
    exact unlisted (same ▸ own ▸ List.getElem_mem inside')
  unfold DiskStore.index
  rw [if_neg other, find?_key_eq_none IndexFile.archive absent]

end Directory

namespace DiskStore

variable {disk : DiskStore} {archive : UInt8}

/-- An archive with an index file is never missing, whatever else is wrong with it. -/
theorem read_ne_archiveNotFound {index : IndexFile} (opened : disk.index archive = .ok index)
    (group : UInt32) (number : UInt8) :
    disk.read archive group ≠ .error (.archiveNotFound number) := by
  intro missing
  rcases bind_eq_error.1 missing with fails | ⟨index', -, rest⟩
  · rw [opened] at fails
    cases fails
  rcases bind_eq_error.1 rest with fails | ⟨locator, -, fails⟩
  · obtain ⟨cause, -, ⟨⟩⟩ := mapError_eq_error.1 fails
  · obtain ⟨cause, -, ⟨⟩⟩ := mapError_eq_error.1 fails

theorem list_of_index {index : IndexFile} (opened : disk.index archive = .ok index) :
    disk.list archive = .ok (index.live.map UInt32.ofNat) := by
  rw [list, opened]
  rfl

theorem list_of_no_index {error : StoreError} (fails : disk.index archive = .error error) :
    disk.list archive = .error error := by
  rw [list, fails]
  rfl

theorem read_of_no_index {error : StoreError} (fails : disk.index archive = .error error)
    (group : UInt32) : disk.read archive group = .error error := by
  rw [read, fails]
  rfl

end DiskStore

namespace Cache

variable {directory : Directory} {options : Options} {cache : Cache}

/-! ## Caches over directories -/

/-- Once a directory is open, so is the cache over it. -/
theorem ofDirectory_eq :
    ofDirectory directory options =
      (directory.openStore.mapError .directory).map fun disk =>
        ⟨disk.toStore, options, Directory.liveArchives disk.master, ∅⟩ := by
  unfold ofDirectory
  cases directory.openStore with
  | error error => rfl
  | ok disk =>
    have opened : ofStore disk.toStore options =
        .ok ⟨disk.toStore, options, archivesOf (disk.master.live.map UInt32.ofNat), ∅⟩ := rfl
    rw [archivesOf_live] at opened
    exact opened

theorem ofDirectory_eq_ok_iff :
    ofDirectory directory options = .ok cache ↔
      ∃ disk, directory.openStore = .ok disk ∧
        cache = ⟨disk.toStore, options, Directory.liveArchives disk.master, ∅⟩ := by
  simp only [ofDirectory_eq, map_eq_ok, mapError_eq_ok]
  exact exists_congr fun disk => and_congr_right fun _ => eq_comm

theorem ofDirectory_eq_error_iff {error : CacheError} :
    ofDirectory directory options = .error error ↔
      ∃ cause, directory.Fails cause ∧ error = .directory cause := by
  simp only [ofDirectory_eq, map_eq_error, mapError_eq_error, Directory.openStore_eq_error_iff]
  exact exists_congr fun cause => and_congr_right fun _ => eq_comm

theorem exists_ofDirectory_iff :
    (∃ cache, ofDirectory directory options = .ok cache) ↔ directory.Opens := by
  simp only [← Directory.exists_openStore_iff, ofDirectory_eq_ok_iff]
  constructor
  · rintro ⟨cache, disk, opened, -⟩
    exact ⟨disk, opened⟩
  · rintro ⟨disk, opened⟩
    exact ⟨_, disk, opened, rfl⟩

/-- The archives of the cache over an opened directory are those that the master index calls for, and
they are the ones that have an index file in the store. -/
theorem archives_of_ofDirectory (opened : ofDirectory directory options = .ok cache) :
    ∃ master, directory.indexFile masterArchive = .file master ∧
      cache.archives.Pairwise (· < ·) ∧
      (∀ archive, archive ∈ cache.archives ↔ Directory.Calls ⟨masterArchive, master⟩ archive) ∧
      (∀ archive ∈ cache.archives, ∃ bytes, directory.indexFile archive = .file bytes ∧
        cache.store.list archive = .ok ((IndexFile.mk archive bytes).live.map UInt32.ofNat) ∧
        ∀ group number, cache.store.read archive group ≠ .error (.archiveNotFound number)) ∧
      ∀ archive, archive ∉ cache.archives → archive ≠ masterArchive →
        cache.store.list archive = .error (.archiveNotFound archive) ∧
        ∀ group, cache.store.read archive group = .error (.archiveNotFound archive) := by
  obtain ⟨disk, openedStore, rfl⟩ := ofDirectory_eq_ok_iff.1 opened
  obtain ⟨-, master_eq, -⟩ := Directory.files_of_openStore openedStore
  have master := Directory.master_eq_of_openStore openedStore master_eq
  refine ⟨_, master_eq, Directory.liveArchives_ascends _, fun archive => ?_, fun archive live => ?_,
    fun archive unlisted other => ?_⟩
  · rw [← master]
    exact Directory.mem_liveArchives_iff_calls
  · obtain ⟨bytes, file, index⟩ := Directory.index_of_openStore openedStore live
    exact ⟨bytes, file, DiskStore.list_of_index index, DiskStore.read_ne_archiveNotFound index⟩
  · have missing := Directory.index_of_not_called openedStore other unlisted
    exact ⟨DiskStore.list_of_no_index missing, DiskStore.read_of_no_index missing⟩

/-! ## Directories that differ in their master index -/

variable {other : Directory}

variable (directory other) in
/-- Two directories that have the same files, but for what their master indexes say of groups that are no
numbers of archives. -/
structure Alike : Prop where
  path : other.path = directory.path
  dataFile : other.dataFile = directory.dataFile
  indexFile : ∀ archive, archive ≠ masterArchive → other.indexFile archive = directory.indexFile archive
  /-- The master indexes have the same live records before the number of the master archive. -/
  master : ∃ master master', directory.indexFile masterArchive = .file master ∧
    other.indexFile masterArchive = .file master' ∧
    ∀ ordinal < masterArchive.toNat, ordinal ∈ (IndexFile.mk masterArchive master').live ↔
      ordinal ∈ (IndexFile.mk masterArchive master).live

namespace Alike

/-- Their master indexes call for the same archives. -/
theorem calls (alike : Alike directory other) :
    ∃ master master', directory.indexFile masterArchive = .file master ∧
      other.indexFile masterArchive = .file master' ∧
      ∀ archive, Directory.Calls ⟨masterArchive, master'⟩ archive ↔
        Directory.Calls ⟨masterArchive, master⟩ archive := by
  obtain ⟨master, master', master_eq, master_eq', same⟩ := alike.master
  refine ⟨master, master', master_eq, master_eq', fun archive => ?_⟩
  simp only [← Directory.mem_liveArchives_iff_calls, Directory.mem_liveArchives]
  refine and_congr_right fun ordinary => same archive.toNat ?_
  exact UInt8.lt_iff_toNat_lt.1 (Directory.lt_masterArchive_iff.2 ordinary)

theorem opens (alike : Alike directory other) (opens : directory.Opens) : other.Opens := by
  obtain ⟨master, master', master_eq, master_eq', calls⟩ := alike.calls
  obtain ⟨data, master₀, data_eq, found, files⟩ := opens
  rw [master_eq] at found
  obtain rfl := DirectoryEntry.file.inj found
  refine ⟨data, master', alike.dataFile.trans data_eq, master_eq', fun archive called => ?_⟩
  rw [alike.indexFile archive (Directory.lt_masterArchive_iff.1 called.1)]
  exact files archive ((calls archive).1 called)

/-- They have the same first fault. -/
theorem fails {error : OpenError} (alike : Alike directory other) (fails : directory.Fails error) :
    other.Fails error := by
  obtain ⟨master, master', master_eq, master_eq', calls⟩ := alike.calls
  have dataFile := alike.dataFile
  have dataPath : directory.dataPath = other.dataPath := by
    rw [Directory.dataPath, Directory.dataPath, alike.path]
  have indexPath : directory.indexPath = other.indexPath := by
    funext archive
    rw [Directory.indexPath, Directory.indexPath, alike.path]
  rcases fails with absent | ⟨-, absent⟩ | ⟨-, shut⟩ | ⟨-, shut⟩ | ⟨data_eq, found, called, earlier, fault⟩
  · rw [dataPath]
    exact .dataMissing (dataFile.trans absent)
  · simp [master_eq] at absent
  · exact .dataUnopenable (by simp [master_eq']) (dataFile.trans shut)
  · simp [master_eq] at shut
  · rw [master_eq] at found
    obtain rfl := DirectoryEntry.file.inj found
    have indexFile : ∀ archive, Directory.Calls ⟨masterArchive, master⟩ archive →
        other.indexFile archive = directory.indexFile archive := fun archive called =>
      alike.indexFile archive (Directory.lt_masterArchive_iff.1 called.1)
    refine .archive (dataFile.trans data_eq) master_eq' ((calls _).2 called)
      (fun before smaller called => ?_) ?_
    · have called := (calls before).1 called
      rw [indexFile before called]
      exact earlier before smaller called
    · have same := indexFile _ called
      rcases fault with absent | shut
      · rw [indexPath]
        exact .missing (same.trans absent)
      · exact .unopenable (same.trans shut)

/-- They come to caches with the same archives, or to the same failure. -/
theorem archives (alike : Alike directory other) :
    (ofDirectory other options).map Cache.archives =
      (ofDirectory directory options).map Cache.archives := by
  cases outcome : ofDirectory directory options with
  | error error =>
    obtain ⟨cause, fails, rfl⟩ := ofDirectory_eq_error_iff.1 outcome
    rw [ofDirectory_eq_error_iff.2 ⟨cause, alike.fails fails, rfl⟩]
  | ok cache =>
    obtain ⟨cache', outcome'⟩ := exists_ofDirectory_iff.2
      (alike.opens (exists_ofDirectory_iff.1 ⟨cache, outcome⟩))
    obtain ⟨master, master', master_eq, master_eq', calls⟩ := alike.calls
    obtain ⟨_, found, ascend, mem, -⟩ := archives_of_ofDirectory outcome
    obtain ⟨_, found', ascend', mem', -⟩ := archives_of_ofDirectory outcome'
    rw [master_eq] at found
    rw [master_eq'] at found'
    obtain rfl := DirectoryEntry.file.inj found
    obtain rfl := DirectoryEntry.file.inj found'
    have same : cache'.archives = cache.archives :=
      List.Pairwise.eq_of_mem_iff ascend' ascend fun archive => by rw [mem', mem, calls]
    rw [outcome']
    show Except.ok cache'.archives = .ok cache.archives
    rw [same]

end Alike

/-- **The archives of a directory.**  A directory opens exactly if the data file, the master index and the
index file of every archive that the master index calls for are there and open, and otherwise reports its
first fault.  The archives of the cache are then, in ascending order, those that the master index calls for;
each of them has been opened, and of any other archive the store says that there is none, whether or not it
has an index file.  What the master index says from the number of the master archive on does not matter. -/
theorem ofDirectory_calls (directory : Directory) (options : Options) :
    (∀ error, ofDirectory directory options = .error error ↔
      ∃ cause, directory.Fails cause ∧ error = .directory cause) ∧
    ((∃ cache, ofDirectory directory options = .ok cache) ↔ directory.Opens) ∧
    (∀ cache, ofDirectory directory options = .ok cache →
      ∃ master, directory.indexFile masterArchive = .file master ∧
        cache.archives.Pairwise (· < ·) ∧
        (∀ archive, archive ∈ cache.archives ↔ Directory.Calls ⟨masterArchive, master⟩ archive) ∧
        (∀ archive ∈ cache.archives, ∃ bytes, directory.indexFile archive = .file bytes ∧
          cache.store.list archive = .ok ((IndexFile.mk archive bytes).live.map UInt32.ofNat) ∧
          ∀ group number, cache.store.read archive group ≠ .error (.archiveNotFound number)) ∧
        ∀ archive, archive ∉ cache.archives → archive ≠ masterArchive →
          cache.store.list archive = .error (.archiveNotFound archive) ∧
          ∀ group, cache.store.read archive group = .error (.archiveNotFound archive)) ∧
    ∀ other, Alike directory other →
      (ofDirectory other options).map Cache.archives =
        (ofDirectory directory options).map Cache.archives :=
  ⟨fun _ => ofDirectory_eq_error_iff, exists_ofDirectory_iff, fun _ => archives_of_ofDirectory,
    fun _ alike => alike.archives⟩

/-- A directory whose master index has a record for the archives 0 and 2, and none for the archive 1, which
has an index file nevertheless. -/
def strayIndex : Directory where
  path := "cache"
  dataFile := .file #[]
  indexFile archive :=
    if archive = masterArchive then .file #[0, 0, 9, 0, 0, 1, 0, 0, 9, 0, 0, 0, 0, 0, 9, 0, 0, 2]
    else if archive ≤ 2 then .file #[]
    else .missing

theorem opens_strayIndex : strayIndex.Opens := by
  refine ⟨_, _, rfl, rfl, fun archive called => ⟨#[], ?_⟩⟩
  have few : archive.toNat < 3 := called.2.1
  have small : archive ≤ 2 := UInt8.le_iff_toNat_le.2 (Nat.le_of_lt_succ few)
  have ordinary := Directory.lt_masterArchive_iff.1 called.1
  simp only [strayIndex, if_neg ordinary, if_pos small]

theorem ofDirectory_calls_strayIndex :
    strayIndex.Opens ∧ ∃ cache, ofDirectory strayIndex {} = .ok cache ∧
      0 ∈ cache.archives ∧ 2 ∈ cache.archives ∧ cache.store.list 2 = .ok [] ∧
      cache.store.list 1 = .error (.archiveNotFound 1) ∧
      cache.store.read 1 7 = .error (.archiveNotFound 1) := by
  obtain ⟨-, success, contents, -⟩ := ofDirectory_calls strayIndex {}
  obtain ⟨cache, opened⟩ := success.2 opens_strayIndex
  obtain ⟨master, master_eq, -, called, listed, unlisted⟩ := contents cache opened
  obtain rfl := DirectoryEntry.file.inj master_eq
  have second : 2 ∈ cache.archives := (called 2).2 (by decide)
  obtain ⟨bytes, file, list, -⟩ := listed 2 second
  obtain rfl := DirectoryEntry.file.inj file
  obtain ⟨missing, missing'⟩ := unlisted 1 (fun live => absurd ((called 1).1 live) (by decide)) (by decide)
  exact ⟨opens_strayIndex, cache, opened, (called 0).2 (by decide), second, list, missing, missing' 7⟩

end Cache
end SectorVault
