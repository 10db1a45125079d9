import Mathlib
import SectorVault.Cache
import SectorVault.Proofs.Store.Holding

/-!
# Opening caches

The archives of a cache are found twice: opening the directory looks for the live records of the master
index, and opening the cache lists the groups of the master archive.  Both come to the same archives,
in the same order (`archivesOf_live`).  Opening a directory has opened the index file of each of them, under
the number of the archive (`index_of_openStore`).
-/

namespace SectorVault
namespace Directory

/-! ## Opening a directory -/

variable {directory : Directory} {disk : DiskStore} {archive : UInt8} {index : IndexFile}

theorem openIndex_eq_ok_iff :
    directory.openIndex archive = .ok index ↔
      directory.indexFile archive = .file index.bytes ∧ index.archive = archive := by
  unfold openIndex
  cases index
  cases directory.indexFile archive <;> simp [eq_comm, and_comm]

/-- Opening a directory opens the index file of every live archive. -/
theorem indexes_of_openStore (opened : directory.openStore = .ok disk) :
    List.Forall₂ (fun archive index => directory.openIndex archive = .ok index)
      (liveArchives disk.master) disk.indexes := by
  unfold openStore at opened
  split at opened
  · cases opened
  · obtain ⟨-, -, opened⟩ := bind_eq_ok.1 opened
    obtain ⟨data, -, opened⟩ := bind_eq_ok.1 opened
    obtain ⟨master, -, opened⟩ := bind_eq_ok.1 opened
    obtain ⟨indexes, others, opened⟩ := bind_eq_ok.1 opened
    obtain rfl := Except.ok.inj opened
    refine (mapM_eq_ok_iff.1 others).imp fun archive index found => ?_
    obtain ⟨-, -, found⟩ := bind_eq_ok.1 found
    exact found

/-- A directory that opens has the index file of every live archive, and that is the one that is used. -/
theorem index_of_openStore (opened : directory.openStore = .ok disk)
    (live : archive ∈ liveArchives disk.master) :
    ∃ bytes, directory.indexFile archive = .file bytes ∧
      disk.index archive = .ok ⟨archive, bytes⟩ := by
  have indexes := indexes_of_openStore opened
  have ordinary : archive ≠ masterArchive := (mem_liveArchives.1 live).1
  obtain ⟨i, inside, rfl⟩ := List.getElem_of_mem live
  have inside' : i < disk.indexes.length := indexes.length_eq ▸ inside
  obtain ⟨file, own⟩ := openIndex_eq_ok_iff.1 (indexes.get inside inside')
  simp only [List.get_eq_getElem] at file own
  -- whichever index file is found under the number, it is the file that the directory has for it
  have found := find?_key IndexFile.archive (List.getElem_mem inside') fun index mem same => by
    obtain ⟨j, within, rfl⟩ := List.getElem_of_mem mem
    obtain ⟨file', own'⟩ :=
      openIndex_eq_ok_iff.1 (indexes.get (indexes.length_eq ▸ within) within)
    simp only [List.get_eq_getElem] at file' own'
    rw [← own', same, own, file] at file'
    rw [IndexFile.mk.injEq]
    exact ⟨same, (DirectoryEntry.file.inj file').symm⟩
  refine ⟨_, file, ?_⟩
  unfold DiskStore.index
  rw [if_neg ordinary, ← own, found]

end Directory

namespace Cache

/-! ## Opening a cache -/

/-- The archives that the groups of a master index stand for are those that opening the directory has
found. -/
theorem archivesOf_live (master : IndexFile) :
    archivesOf (master.live.map UInt32.ofNat) = Directory.liveArchives master := by
  have counted : master.recordCount < 2 ^ 32 := master.recordCount_lt
  have master_toNat : masterArchive.toNat = 255 := rfl
  have below : master.live.filter (fun ordinal => ordinal < 255) =
      (List.range (min master.recordCount 255)).filter master.isLive := by
    refine List.Pairwise.eq_of_mem_iff (master.live_ascends.filter _)
      (List.pairwise_lt_range.filter _) fun ordinal => ?_
    simp only [List.mem_filter, IndexFile.mem_live, List.mem_range, lt_min_iff, decide_eq_true_eq]
    tauto
  have narrow : ∀ ordinal ∈ master.live,
      decide ((UInt32.ofNat ordinal).toNat < masterArchive.toNat) = decide (ordinal < 255) := by
    intro ordinal mem
    have inside := (IndexFile.mem_live.1 mem).1
    rw [UInt32.toNat_ofNat_of_lt' (by show ordinal < 2 ^ 32; omega), master_toNat]
  have number : UInt32.toUInt8 ∘ UInt32.ofNat = UInt8.ofNat := by
    funext ordinal
    rw [Function.comp, ← UInt8.toNat_inj, UInt32.toNat_toUInt8, UInt32.toNat_ofNat',
      UInt8.toNat_ofNat']
    omega
  unfold archivesOf Directory.liveArchives
  rw [List.filter_map, List.map_map, number, master_toNat, ← below]
  congr 1
  exact List.filter_congr narrow

theorem lt_master_of_mem_archivesOf {groups : List UInt32} {number : UInt8}
    (mem : number ∈ archivesOf groups) : number < masterArchive := by
  obtain ⟨group, kept, rfl⟩ := List.mem_map.1 mem
  have below : group.toNat < masterArchive.toNat := by simpa using (List.mem_filter.1 kept).2
  rw [UInt8.lt_iff_toNat_lt, UInt32.toNat_toUInt8]
  omega

/-- Opening a cache lists its archives and nothing else. -/
theorem ofStore_eq_ok_iff {store : Store} {options : Options} {cache : Cache} :
    ofStore store options = .ok cache ↔
      ∃ groups, store.list masterArchive = .ok groups ∧
        cache = ⟨store, options, archivesOf groups, ∅⟩ := by
  unfold ofStore
  cases store.list masterArchive with
  | error error => simp [Except.mapError, bind, Except.bind]
  | ok groups => simp [Except.mapError, bind, Except.bind, pure, Except.pure, eq_comm]

/-- The archives of a cache over a directory are those that opening the directory has found. -/
theorem archives_of_toStore {disk : DiskStore} {options : Options} {cache : Cache}
    (opened : ofStore disk.toStore options = .ok cache) :
    cache.archives = Directory.liveArchives disk.master := by
  obtain ⟨groups, listed, rfl⟩ := ofStore_eq_ok_iff.1 opened
  obtain rfl : disk.master.live.map UInt32.ofNat = groups := Except.ok.inj listed
  exact archivesOf_live disk.master

/-! ## Directories that hold records -/

variable {directory : Directory} {data : DataFile} {index : UInt8 → IndexFile}
  {records : Owner → Bytes}

/-- The cache over a directory that holds records, once the directory is opened. -/
theorem ofStore_of_holds (holds : directory.Holds data index records) (options : Options) :
    ofStore (Directory.Holds.disk data index).toStore options =
      .ok ⟨(Directory.Holds.disk data index).toStore, options,
        Directory.liveArchives (index masterArchive), ∅⟩ := by
  have listed : (Directory.Holds.disk data index).toStore.list masterArchive = _ :=
    holds.list (.inl rfl)
  unfold ofStore
  rw [listed]
  simp only [Except.mapError, bind, Except.bind, archivesOf_live]
  rfl

/-- The cache in a directory that holds records. -/
theorem ofDirectory_of_holds (holds : directory.Holds data index records) (options : Options) :
    ofDirectory directory options = ofStore (Directory.Holds.disk data index).toStore options := by
  unfold ofDirectory
  rw [holds.openStore]
  rfl

end Cache
end SectorVault
