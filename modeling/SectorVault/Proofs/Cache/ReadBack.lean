import Mathlib
import SectorVault.Proofs.Archive.Written
import SectorVault.Proofs.Cache.History
import SectorVault.Proofs.Cache.Opening
import SectorVault.Proofs.Store.Image

/-!
# Reading back caches that were written

Contents that are within the limits of the formats can be written to a directory and read back from
it.  The records of different groups have different owners, so the directory has for each group what
was stored for it (`bytesOf_of_mem`), as far as the locators of the archive can be counted
(`counted_eq`).  Those of the master archive always can.  So opening the directory finds the archives,
loading an archive finds its table and what there is of the stored bytes of its groups
(`loadTable_written`), and reading a file is reading it from an archive whose table is known.  The past
of a cache does not show, so this holds after any session as well as at the start.

An archive with a group of the last id of all has locators that cannot be counted.  It loads like any
other one, but all of its groups seem to be beyond the end of the index file, and so as if they had
never been written.

The main statement is `read_written`.
-/

namespace SectorVault
namespace CacheContents

variable {contents : CacheContents} {archive : ArchiveContents} {group : GroupContents}

/-! ## Records -/

theorem mem_records {record : Record} :
    record ∈ contents.records ↔
      (∃ archive ∈ contents.archives, ∃ group ∈ archive.groups,
        record = ⟨⟨archive.number, group.id⟩, group.stored⟩) ∨
      ∃ archive ∈ contents.archives, record = archive.tableRecord := by
  simp only [records, List.mem_append, List.mem_flatMap, List.mem_map, ArchiveContents.records,
    eq_comm]

/-- Archives with the same number are the same. -/
theorem archive_eq {archive' : ArchiveContents} (mem : archive ∈ contents.archives)
    (mem' : archive' ∈ contents.archives) (same : archive.number = archive'.number) :
    archive = archive' :=
  eq_of_key_eq ArchiveContents.number (fun _ => UInt8.lt_irrefl _) contents.ascend mem mem' same

/-- No two records have the same owner. -/
theorem record_eq {record record' : Record} (mem : record ∈ contents.records)
    (mem' : record' ∈ contents.records) (same : record.owner = record'.owner) :
    record = record' := by
  rw [mem_records] at mem mem'
  rcases mem with ⟨archive, listed, group, stored, rfl⟩ | ⟨archive, listed, rfl⟩ <;>
    rcases mem' with ⟨archive', listed', group', stored', rfl⟩ | ⟨archive', listed', rfl⟩
  · obtain ⟨number, id⟩ := Owner.mk.inj same
    obtain rfl := archive_eq listed listed' number
    obtain rfl := eq_of_key_eq GroupContents.id (fun _ => UInt32.lt_irrefl _) archive.ascend stored
      stored' id
    rfl
  · exact absurd (Owner.mk.inj same).1 archive.ordinary
  · exact absurd (Owner.mk.inj same).1.symm archive'.ordinary
  · obtain ⟨-, number⟩ := Owner.mk.inj same
    obtain rfl := archive_eq listed listed' (by simpa using congrArg UInt32.toUInt8 number)
    rfl

theorem bytesOf_of_mem {record : Record} (mem : record ∈ contents.records) :
    Image.bytesOf contents.records record.owner = record.bytes := by
  rw [Image.bytesOf, find?_key Record.owner mem fun record' mem' same => record_eq mem' mem same]

theorem bytesOf_table (listed : archive ∈ contents.archives) :
    Image.bytesOf contents.records ⟨masterArchive, archive.number.toUInt32⟩ =
      archive.storedTable :=
  bytesOf_of_mem (mem_records.2 (.inr ⟨archive, listed, rfl⟩))

theorem bytesOf_group (listed : archive ∈ contents.archives) (mem : group ∈ archive.groups) :
    Image.bytesOf contents.records ⟨archive.number, group.id⟩ = group.stored :=
  bytesOf_of_mem (mem_records.2 (.inl ⟨archive, listed, group, mem, rfl⟩))

/-- The records of storable contents fit a directory. -/
theorem fits (storable : contents.Storable) : Image.Fits contents.records := by
  refine ⟨storable.sectors, fun record mem => ?_⟩
  rcases mem_records.1 mem with ⟨archive, listed, group, stored, rfl⟩ | ⟨archive, listed, rfl⟩
  · have short := storable.packed archive listed group stored
    show group.stored.length < 2 ^ 24
    rw [group.length_stored]
    omega
  · have short := storable.table archive listed
    show archive.storedTable.length < 2 ^ 24
    rw [archive.length_storedTable]
    omega

/-! ## The directory -/

variable (contents) in
/-- The stored bytes of the groups, as far as their locators are counted. -/
def counted : Owner → Bytes :=
  Directory.counted (Image.index contents.records) (Image.bytesOf contents.records)

theorem holds (storable : contents.Storable) (path : String) :
    (contents.directory path).Holds (Image.data contents.records) (Image.index contents.records)
      contents.counted :=
  Image.holds (fits storable) path

/-- The groups of an archive whose locators can be counted have their stored bytes. -/
theorem counted_eq (listed : archive ∈ contents.archives) (countable : archive.Countable)
    (id : UInt32) : contents.counted ⟨archive.number, id⟩ =
      Image.bytesOf contents.records ⟨archive.number, id⟩ := by
  refine Image.counted_eq fun record mem same => ?_
  rcases mem_records.1 mem with ⟨archive', listed', group, stored, rfl⟩ | ⟨archive', listed', rfl⟩
  · obtain rfl := archive_eq listed' listed same
    exact countable group stored
  · exact absurd same.symm archive.ordinary

/-- The locators of the master archive can be counted. -/
theorem counted_master (id : UInt32) : contents.counted ⟨masterArchive, id⟩ =
    Image.bytesOf contents.records ⟨masterArchive, id⟩ := by
  refine Image.counted_eq fun record mem same => ?_
  rcases mem_records.1 mem with ⟨archive, listed, group, stored, rfl⟩ | ⟨archive, listed, rfl⟩
  · exact absurd same archive.ordinary
  · have small := archive.number.toNat_lt
    show archive.number.toUInt32.toNat + 1 < 2 ^ 32
    rw [UInt8.toNat_toUInt32]
    omega

/-- An archive whose locators cannot be counted seems to have none. -/
theorem recordCount_uncountable (listed : archive ∈ contents.archives)
    (uncountable : ¬ archive.Countable) :
    (Image.index contents.records archive.number).recordCount = 0 := by
  simp only [ArchiveContents.Countable, not_forall] at uncountable
  obtain ⟨group, mem, beyond⟩ := uncountable
  have small := group.id.toNat_lt
  have greatest : (0xFFFFFFFF : UInt32).toNat = 2 ^ 32 - 1 := rfl
  have last : group.id = 0xFFFFFFFF := UInt32.toNat_inj.1 (by omega)
  have counted := Image.recordCount_index_of_last
    (mem_records.2 (.inl ⟨archive, listed, group, mem, rfl⟩)) last
  exact counted

/-- The master archive has a table of exactly the archives of the cache. -/
theorem counted_master_ne_nil {number : UInt8} :
    contents.counted ⟨masterArchive, number.toUInt32⟩ ≠ [] ↔
      ∃ archive ∈ contents.archives, archive.number = number := by
  rw [counted_master]
  constructor
  · intro present
    obtain ⟨record, mem, owner⟩ := Image.exists_of_bytesOf_ne_nil present
    rcases mem_records.1 mem with ⟨archive, listed, group, -, rfl⟩ | ⟨archive, listed, rfl⟩
    · exact absurd (Owner.mk.inj owner).1 archive.ordinary
    · obtain ⟨-, same⟩ := Owner.mk.inj owner
      exact ⟨archive, listed, by simpa using congrArg UInt32.toUInt8 same⟩
  · rintro ⟨archive, listed, rfl⟩
    rw [bytesOf_table listed]
    exact Container.sealPlain_ne_nil archive.table none

/-- The archives that opening finds are those of the cache. -/
theorem liveArchives_eq (storable : contents.Storable) :
    Directory.liveArchives (Image.index contents.records masterArchive) =
      contents.archives.map ArchiveContents.number := by
  have ascend : (contents.archives.map ArchiveContents.number).Pairwise (· < ·) :=
    List.pairwise_map.2 contents.ascend
  refine List.Pairwise.eq_of_mem_iff (Directory.liveArchives_ascends _) ascend fun number => ?_
  rw [(holds storable "").mem_liveArchives, counted_master_ne_nil, List.mem_map]
  constructor
  · rintro ⟨-, listed⟩
    exact listed
  · rintro ⟨archive, listed, rfl⟩
    exact ⟨archive.ordinary, archive, listed, rfl⟩

variable (contents) in
/-- The cache as it is opened. -/
def opened (options : Options) : Cache :=
  ⟨(Directory.Holds.disk (Image.data contents.records) (Image.index contents.records)).toStore,
    options, contents.archives.map ArchiveContents.number, ∅⟩

theorem ofStore_written (storable : contents.Storable) (options : Options) :
    Cache.ofStore (contents.opened options).store options = .ok (contents.opened options) := by
  have opens := Cache.ofStore_of_holds (holds storable "") options
  rw [liveArchives_eq storable] at opens
  exact opens

theorem ofDirectory_written (storable : contents.Storable) (path : String) (options : Options) :
    Cache.ofDirectory (contents.directory path) options = .ok (contents.opened options) := by
  rw [Cache.ofDirectory_of_holds (holds storable path) options]
  exact ofStore_written storable options

/-- The stored bytes of a table. -/
theorem read_table (storable : contents.Storable) (listed : archive ∈ contents.archives)
    (options : Options) :
    (contents.opened options).store.read masterArchive archive.number.toUInt32 =
      .ok archive.storedTable := by
  have read := (holds storable "").read (.inl rfl)
    (counted_master_ne_nil.2 ⟨archive, listed, rfl⟩)
  rw [counted_master, bytesOf_table listed] at read
  exact read

/-- The stored bytes of a group. -/
theorem read_group (storable : contents.Storable) (listed : archive ∈ contents.archives)
    (countable : archive.Countable) (mem : group ∈ archive.groups) (options : Options) :
    (contents.opened options).store.read archive.number group.id = .ok group.stored := by
  have stored : contents.counted ⟨archive.number, group.id⟩ = group.stored := by
    rw [counted_eq listed countable, bytesOf_group listed mem]
  have present : contents.counted ⟨archive.number, group.id⟩ ≠ [] := by
    rw [stored]
    exact Container.sealPlain_ne_nil group.packed group.key
  have read := (holds storable "").read
    (.inr (counted_master_ne_nil.2 ⟨archive, listed, rfl⟩)) present
  rw [stored] at read
  exact read

/-- In an archive whose locators cannot be counted, all groups are beyond the end. -/
theorem read_group_uncountable (storable : contents.Storable) (listed : archive ∈ contents.archives)
    (uncountable : ¬ archive.Countable) (id : UInt32) (options : Options) :
    (contents.opened options).store.read archive.number id =
      .error (.index (.endOfFile archive.number id 0)) := by
  have read := (holds storable "").read_eq
    (.inr (counted_master_ne_nil.2 ⟨archive, listed, rfl⟩)) id
  rw [recordCount_uncountable listed uncountable, if_neg (Nat.not_lt_zero _)] at read
  exact read

/-- What is fetched for a group when its archive is loaded. -/
theorem fetchGroup_written (storable : contents.Storable) (listed : archive ∈ contents.archives)
    (mem : group ∈ archive.groups) (options : Options) :
    (contents.opened options).fetchGroup archive.number group.id = .ok (archive.held group.listed) := by
  unfold Cache.fetchGroup ArchiveContents.held
  by_cases countable : archive.Countable
  · rw [read_group storable listed countable mem, if_pos countable]
    rfl
  · rw [read_group_uncountable storable listed countable, if_neg countable]
    rfl

/-! ## Loading archives -/

/-- Loading an archive of the cache finds its table. -/
theorem loadTable_written (storable : contents.Storable) (listed : archive ∈ contents.archives)
    (options : Options) :
    (contents.opened options).loadTable archive.number = .ok archive.loaded := by
  have known : (contents.opened options).archives.contains archive.number = true :=
    List.elem_eq_true_of_mem (List.mem_map_of_mem listed)
  have raw : (contents.opened options).readRaw masterArchive archive.number.toUInt32 =
      .ok archive.storedTable := by
    rw [Cache.readRaw, read_table storable listed]
    rfl
  have filled : archive.storedTable.isEmpty = false := by
    rw [List.isEmpty_eq_false_iff]
    exact Container.sealPlain_ne_nil archive.table none
  have decoded := Container.decode_sealPlain (storable.table archive listed) none []
  rw [List.append_nil, ← ArchiveContents.storedTable] at decoded
  have fetched : ∀ group ∈ archive.groups.map GroupContents.listed,
      (contents.opened options).fetchGroup archive.number group.id = .ok (archive.held group) := by
    intro group mem
    obtain ⟨group, stored, rfl⟩ := List.mem_map.1 mem
    exact fetchGroup_written storable listed stored options
  have assembled : ReferenceTable.assemble archive.number
      ⟨archive.table, .none, Container.noRevision, crc32 archive.storedTable,
        archive.storedTable.length⟩ (whirlpool archive.storedTable) CacheError.table
      (fun _ group state => ((contents.opened options).fetchGroup archive.number group, state)) () =
        (.ok archive.loaded, ()) :=
    ReferenceTable.assemble_encode archive.revision archive.flags
      (storable.encodable archive listed) archive.number rfl _ _
      fun group mem _ => by rw [fetched group mem]
  unfold Cache.loadTable
  rw [known, raw]
  simp only [Bool.not_true, Bool.false_eq_true, if_false, bind, Except.bind]
  rw [filled, decoded]
  simp only [Bool.false_eq_true, if_false, Except.mapError]
  rw [assembled]

variable {number : UInt8} {operation : Archive → Except ArchiveError Bytes × Archive}

/-- Asking an archive of the cache as it is opened is asking the archive as it is after loading. -/
theorem onArchive_written (storable : contents.Storable) (listed : archive ∈ contents.archives)
    (options : Options) :
    ((contents.opened options).onArchive archive.number operation).1 =
      (operation (archive.opened options)).1.mapError .archive := by
  have unloaded : (contents.opened options).loaded[archive.number]? = none := by
    simp [opened]
  rw [Cache.onArchive_fst_of_unloaded unloaded, loadTable_written storable listed options]
  rfl

theorem onArchive_absent (absent : ∀ archive ∈ contents.archives, archive.number ≠ number)
    (options : Options) :
    ((contents.opened options).onArchive number operation).1 = .error (.archiveNotFound number) := by
  have unknown : (contents.opened options).archives.contains number = false := by
    refine Bool.eq_false_iff.2 fun known => ?_
    obtain ⟨archive, listed, same⟩ := List.mem_map.1 (List.mem_of_elem_eq_true known)
    exact absent archive listed same
  have unloaded : (contents.opened options).loaded[number]? = none := by
    simp [opened]
  rw [Cache.onArchive_fst_of_unloaded unloaded, Cache.loadTable, unknown]
  rfl

/-! ## Reading back -/

/-- **What is written reads back.**  Contents that can be stored are written to a directory that opens,
with any options, to a cache of exactly their archives.  After any session on this cache each file of
each group is read, under the key of the group, as it was written, and an archive, a group or a file
that is not among the contents is not found.

This takes an archive whose locators can be counted.  If one of its groups has the last id of all, the
archive is found with all of its groups, but none of these has any bytes: each reads as its first file
alone, without contents, unless the data is checked against its table. -/
theorem read_written (contents : CacheContents) (storable : contents.Storable) (path : String)
    (options : Options) :
    ∃ cache, Cache.ofDirectory (contents.directory path) options = .ok cache ∧
      cache.archives = contents.archives.map ArchiveContents.number ∧
      ∀ session : Cache.Session,
        (∀ archive ∈ contents.archives, archive.Countable →
          ∀ group ∈ archive.groups, ∀ file ∈ group.files,
            ((cache.after session).read archive.number group.id file.id group.key).1 =
              .ok file.data) ∧
        (∀ archive ∈ contents.archives, archive.Countable → ∀ group ∈ archive.groups, ∀ id,
          (∀ file ∈ group.files, file.id ≠ id) →
            ((cache.after session).read archive.number group.id id group.key).1 =
              .error (.archive (.fileNotFound archive.number group.id id))) ∧
        (∀ archive ∈ contents.archives, ¬ archive.Countable → ∀ group ∈ archive.groups, ∀ id key,
          ((cache.after session).read archive.number group.id id key).1 =
            if options.verifyChecksums = true ∧
                (TableFlags.ofByte archive.flags).uncompressedCrcs = true ∧
                crc32 [] ≠ crc32 group.packed then
              .error (.archive (.uncompressedChecksumMismatch archive.number group.id
                (crc32 group.packed) (crc32 [])))
            else if (group.files.head group.nonempty).id = id then .ok []
            else .error (.archive (.fileNotFound archive.number group.id id))) ∧
        (∀ archive ∈ contents.archives, ∀ id,
          (∀ group ∈ archive.groups, group.id ≠ id) → ∀ file key,
            ((cache.after session).read archive.number id file key).1 =
              .error (.archive (.groupNotFound archive.number id))) ∧
        (∀ number, (∀ archive ∈ contents.archives, archive.number ≠ number) →
          ∀ group file key,
            ((cache.after session).read number group file key).1 =
              .error (.archiveNotFound number)) := by
  refine ⟨contents.opened options, ofDirectory_written storable path options, rfl,
    fun session => ?_⟩
  -- what happens in the session before does not matter
  have same : ∀ number group file key,
      ((Cache.after (contents.opened options) session).read number group file key).1 =
        ((contents.opened options).read number group file key).1 :=
    fun number group file key => Cache.perform_fst_after (ofStore_written storable options) session
      (.read number group file key)
  refine ⟨?_, ?_, ?_, ?_, ?_⟩
  · intro archive listed countable group mem file stored
    have short := storable.packed archive listed group mem
    have found := find?_key File.id stored fun file' mem' same =>
      eq_of_key_eq File.id (fun _ => UInt32.lt_irrefl _) group.ascend mem' stored same
    rw [same, Cache.read, onArchive_written storable listed,
      ArchiveContents.read_opened options countable mem short, found]
    rfl
  · intro archive listed countable group mem id absent
    have short := storable.packed archive listed group mem
    rw [same, Cache.read, onArchive_written storable listed,
      ArchiveContents.read_opened options countable mem short, find?_key_eq_none File.id absent]
    rfl
  · intro archive listed uncountable group mem id key
    rw [same, Cache.read, onArchive_written storable listed,
      ArchiveContents.read_opened_uncounted options uncountable mem]
    simp only [apply_ite (Except.mapError CacheError.archive)]
    rfl
  · intro archive listed id absent file key
    rw [same, Cache.read, onArchive_written storable listed,
      ArchiveContents.read_opened_absent options absent]
    rfl
  · intro number absent group file key
    rw [same]
    exact onArchive_absent absent options

/-- A cache of three archives.  The first one has a group of two files under a key and, far behind it, a
group whose only file is empty; the second one has no groups; the third one reaches up to the last id. -/
def sample : CacheContents where
  archives := [
    { number := 3
      protocol := .variableWidth
      revision := 7
      flags := 0xF
      groups := [
        { id := 2
          nameHash := 97
          key := some ⟨1, 2, 3, 4⟩
          length := 0
          uncompressedLength := 0
          revision := 5
          files := [⟨0, 98, [10, 20, 30]⟩, ⟨4, 99, []⟩]
          nonempty := by decide
          ascend := by decide },
        { id := 70000
          nameHash := 100
          key := none
          length := 0
          uncompressedLength := 0
          revision := 6
          files := [⟨1, 101, []⟩]
          nonempty := by decide
          ascend := by decide }]
      ordinary := by decide
      ascend := by simp },
    { number := 5
      protocol := .unversioned
      revision := 0
      flags := 0
      groups := []
      ordinary := by decide
      ascend := .nil },
    { number := 7
      protocol := .variableWidth
      revision := 0
      flags := 0
      groups := [
        { id := 2147483647
          nameHash := unnamed
          key := none
          length := 0
          uncompressedLength := 0
          revision := 0
          files := [⟨0, unnamed, [1]⟩]
          nonempty := by decide
          ascend := by simp },
        { id := 4294967294
          nameHash := unnamed
          key := none
          length := 0
          uncompressedLength := 0
          revision := 0
          files := [⟨0, unnamed, [2]⟩]
          nonempty := by decide
          ascend := by simp },
        { id := 4294967295
          nameHash := unnamed
          key := none
          length := 0
          uncompressedLength := 0
          revision := 0
          files := [⟨0, unnamed, [3]⟩]
          nonempty := by decide
          ascend := by simp }]
      ordinary := by decide
      ascend := by simp }]
  ascend := by simp

theorem sample_storable : sample.Storable := by
  have table : ∀ archive ∈ sample.archives, archive.table.length ≤ 1000 := by
    intro archive listed
    refine le_trans (ReferenceTable.length_encode_le _ _ _ _) ?_
    revert archive
    decide
  have packed : ∀ archive ∈ sample.archives, ∀ group ∈ archive.groups,
      group.packed.length ≤ 1000 := by decide
  have parts : ∀ record ∈ sample.records, record.partCount ≤ 1005 := by
    intro record mem
    refine le_trans record.partCount_le_length ?_
    rcases mem_records.1 mem with ⟨archive, listed, group, held, rfl⟩ | ⟨archive, listed, rfl⟩
    · have short := packed archive listed group held
      rw [group.length_stored]
      omega
    · have short := table archive listed
      rw [ArchiveContents.tableRecord, archive.length_storedTable]
      omega
  have sectors : (sample.records.map Record.partCount).sum ≤ 8 * 1005 :=
    List.sum_le_card_nsmul _ _ (by simpa using parts)
  refine ⟨fun archive listed group held => le_trans (packed archive listed group held) (by decide),
    fun archive listed => le_trans (table archive listed) (by decide), ?_, by omega⟩
  intro archive listed
  exact ⟨by revert archive; decide, by revert archive; decide, by revert archive; decide,
    by revert archive; decide⟩

theorem read_written_sample :
    sample.Storable ∧ ∃ cache,
      Cache.ofDirectory (sample.directory "cache") ⟨true, true, 0⟩ = .ok cache ∧
        cache.archives = [3, 5, 7] ∧
        (cache.read 3 2 0 (some ⟨1, 2, 3, 4⟩)).1 = .ok [10, 20, 30] ∧
        (cache.read 3 70000 1 none).1 = .ok [] ∧
        (cache.read 3 70000 2 none).1 = .error (.archive (.fileNotFound 3 70000 2)) ∧
        (cache.read 7 2147483647 0 none).1 = .ok [] ∧
        (cache.read 5 0 0 none).1 = .error (.archive (.groupNotFound 5 0)) ∧
        (cache.read 9 0 0 none).1 = .error (.archiveNotFound 9) := by
  obtain ⟨cache, opens, archives, reads⟩ :=
    read_written sample sample_storable "cache" ⟨true, true, 0⟩
  obtain ⟨files, noFile, uncounted, noGroup, noArchive⟩ := reads []
  refine ⟨sample_storable, cache, opens, archives, ?_, ?_, ?_, ?_, ?_, ?_⟩
  · exact files _ (.head _) (by decide) _ (.head _) _ (.head _)
  · exact files _ (.head _) (by decide) _ (.tail _ (.head _)) _ (.head _)
  · exact noFile _ (.head _) (by decide) _ (.tail _ (.head _)) 2 (by decide)
  · exact uncounted _ (.tail _ (.tail _ (.head _))) (by decide) _ (.head _) 0 none
  · exact noGroup _ (.tail _ (.head _)) 0 (by decide) 0 none
  · exact noArchive 9 (by decide) 0 0 none

end CacheContents
end SectorVault
