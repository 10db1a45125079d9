import Mathlib
import SectorVault.Proofs.Cache.History
import SectorVault.Proofs.ReferenceTable.Accepted
import SectorVault.Proofs.ReferenceTable.Fetching
import SectorVault.Proofs.Store.Visits

/-!
# Archives load as a whole

An archive is loaded with the stored bytes of every group that its table lists, so one group that cannot
be had keeps the others from being read.  A raw read of a group comes to one of three things:

* its bytes, with which it is loaded;
* a failure because the index file ends before it, and it is loaded without any bytes (`Supplies`);
* another failure, which is that of the archive (`Fails`).

If the third does not happen, the archive loads, with the groups of its table in their order and nothing
but their bytes changed.  Otherwise the first group to which it happens decides: everything that is asked
of the archive comes to the failure of this group, whichever group was asked for, and the cache stays as it
was (`Shut`).

Whether an archive loads is no matter of the others.  What does not ask for it (`Operation.Spares`) answers
the same over any store that differs from the one at hand in the groups of this archive only.

In an opened directory, to be beyond the end of the index file is to have an id that is not less than the
number of its locators: an index file gives a locator or ends, and what may go wrong behind a locator is a
failure of the data file.

The main statement is `table_of_lists`.
-/

namespace SectorVault

/-! ## What loading makes of a table -/

/-- A table with what is known of its stored form, and with its groups. -/
def ReferenceTable.complete (table : ReferenceTable) (archive : UInt8) (raw : Bytes)
    (container : Container) (groups : List Group) : ReferenceTable :=
  { table.withGroups groups.toArray with
    archive := archive
    crc := container.crc
    digest := whirlpool raw
    compression := container.compression }

/-- Two stores differ in what they have of one archive only. -/
structure Store.AgreesBut (number : UInt8) (store store' : Store) : Prop where
  /-- The archives are the same. -/
  list : store.list masterArchive = store'.list masterArchive
  /-- All other archives have the same groups. -/
  read : ∀ archive, archive ≠ number → ∀ group, store.read archive group = store'.read archive group

namespace Cache

variable {cache : Cache} {number : UInt8} {group : UInt32} {raw : Bytes} {container : Container}
  {table : ReferenceTable}

/-- The record of an archive in the master archive is a table. -/
structure Lists (cache : Cache) (number : UInt8) (raw : Bytes) (container : Container)
    (table : ReferenceTable) : Prop where
  /-- The cache has the archive. -/
  known : number ∈ cache.archives
  /-- The record can be read. -/
  found : cache.readRaw masterArchive number.toUInt32 = .ok raw
  /-- The record is not empty. -/
  filled : raw ≠ []
  /-- The record is a container. -/
  decodes : Container.decode raw none = .ok container
  /-- The container is of a table. -/
  reads : ReferenceTable.read container.data = .ok table

/-- The index file ends before a group. -/
def Beyond (cache : Cache) (number : UInt8) (group : UInt32) : Prop :=
  ∃ error, cache.readRaw number group = .error (.store error) ∧ error.isBeyondIndex = true

/-- The bytes with which a group is loaded. -/
inductive Supplies (cache : Cache) (number : UInt8) (group : UInt32) : Bytes → Prop
  /-- The store has the group. -/
  | stored {raw : Bytes} (found : cache.readRaw number group = .ok raw) :
    Supplies cache number group raw
  /-- The index file ends before the group. -/
  | beyond (absent : cache.Beyond number group) : Supplies cache number group []

/-- The store does not hand out a group, for a reason that is not forgiven. -/
structure Fails (cache : Cache) (number : UInt8) (group : UInt32) (error : StoreError) : Prop where
  /-- The store fails. -/
  fails : cache.readRaw number group = .error (.store error)
  /-- The failure is not that the index file ends before the group. -/
  within : error.isBeyondIndex = false

/-- A group of a loaded archive is the one that the table lists, with the bytes that there are for it. -/
structure Fills (cache : Cache) (number : UInt8) (listed loaded : Group) : Prop where
  /-- Nothing else is changed. -/
  same : loaded = { listed with raw := loaded.raw }
  /-- The bytes are those of the group. -/
  supplied : cache.Supplies number listed.id loaded.raw

/-- Everything that is asked of an archive comes to one failure, and leaves the cache as it is. -/
structure Shut (cache : Cache) (number : UInt8) (error : CacheError) : Prop where
  table : cache.table number = (.error error, cache)
  read : ∀ group file key, cache.read number group file key = (.error error, cache)
  readNamed : ∀ name file key, cache.readNamed number name file key = (.error error, cache)
  readEntry : ∀ group file entry count key,
    cache.readEntry number group file entry count key = (.error error, cache)

/-! ## Fetching a group -/

theorem Supplies.fetchGroup_eq (supplies : cache.Supplies number group raw) :
    cache.fetchGroup number group = .ok raw := by
  cases supplies with
  | stored found => rw [fetchGroup, mapError_eq_ok.1 found]
  | beyond absent =>
    obtain ⟨error, absent, beyond⟩ := absent
    obtain ⟨error, read, same⟩ := mapError_eq_error.1 absent
    obtain rfl := CacheError.store.inj same
    rw [fetchGroup, read]
    exact if_pos beyond

theorem Fails.fetchGroup_eq {error : StoreError} (fails : cache.Fails number group error) :
    cache.fetchGroup number group = .error (.store error) := by
  obtain ⟨error, read, same⟩ := mapError_eq_error.1 fails.fails
  obtain rfl := CacheError.store.inj same
  rw [fetchGroup, read]
  simp only [fails.within, Bool.false_eq_true, if_false]

variable (cache number group) in
theorem supplied_or_fails :
    (∃ stored, cache.Supplies number group stored) ∨ ∃ error, cache.Fails number group error := by
  cases read : cache.store.read number group with
  | ok stored =>
    have found : cache.readRaw number group = .ok stored := mapError_eq_ok.2 read
    exact .inl ⟨stored, .stored found⟩
  | error error =>
    have absent : cache.readRaw number group = .error (.store error) :=
      mapError_eq_error.2 ⟨error, read, rfl⟩
    cases beyond : error.isBeyondIndex with
    | true => exact .inl ⟨[], .beyond ⟨error, absent, beyond⟩⟩
    | false => exact .inr ⟨error, absent, beyond⟩

theorem fetchGroup_eq_ok_iff :
    cache.fetchGroup number group = .ok raw ↔ cache.Supplies number group raw := by
  constructor
  · intro fetched
    rcases supplied_or_fails cache number group with ⟨stored, supplies⟩ | ⟨error, fails⟩
    · obtain rfl := Except.ok.inj (supplies.fetchGroup_eq.symm.trans fetched)
      exact supplies
    · cases fails.fetchGroup_eq.symm.trans fetched
  · exact Supplies.fetchGroup_eq

theorem fetchGroup_eq_error_iff {error : CacheError} :
    cache.fetchGroup number group = .error error ↔
      ∃ cause, cache.Fails number group cause ∧ error = .store cause := by
  constructor
  · intro fetched
    rcases supplied_or_fails cache number group with ⟨stored, supplies⟩ | ⟨cause, fails⟩
    · cases supplies.fetchGroup_eq.symm.trans fetched
    · exact ⟨cause, fails, Except.error.inj (fetched.symm.trans fails.fetchGroup_eq)⟩
  · rintro ⟨cause, fails, rfl⟩
    exact fails.fetchGroup_eq

/-! ## Loading an archive -/

variable (cache number) in
/-- A group that the table of an archive lists, with the bytes that are fetched for it. -/
def fetched (group : Group) : Except CacheError Group :=
  (cache.fetchGroup number group.id).map fun raw => { group with raw := raw }

theorem fetched_eq_ok_iff {listed loaded : Group} :
    cache.fetched number listed = .ok loaded ↔ cache.Fills number listed loaded := by
  unfold fetched
  rw [map_eq_ok]
  constructor
  · rintro ⟨raw, found, rfl⟩
    exact ⟨rfl, fetchGroup_eq_ok_iff.1 found⟩
  · rintro ⟨same, supplied⟩
    exact ⟨loaded.raw, fetchGroup_eq_ok_iff.2 supplied, same.symm⟩

theorem exists_fetched_eq_ok_iff {listed : Group} :
    (∃ loaded, cache.fetched number listed = .ok loaded) ↔
      ∃ stored, cache.Supplies number listed.id stored := by
  simp only [fetched_eq_ok_iff]
  constructor
  · rintro ⟨loaded, -, supplied⟩
    exact ⟨loaded.raw, supplied⟩
  · rintro ⟨stored, supplied⟩
    exact ⟨{ listed with raw := stored }, rfl, supplied⟩

theorem Lists.loadTable_eq (lists : cache.Lists number raw container table) :
    cache.loadTable number = (table.groups.toList.mapM (cache.fetched number)).map
      (table.complete number raw container) := by
  have known : cache.archives.contains number = true := List.contains_iff_mem.2 lists.known
  have filled : raw.isEmpty = false := List.isEmpty_eq_false_iff.2 lists.filled
  have fetch := ReferenceTable.fetchFrom_stateless (cache.fetchGroup number) table.groups.toList [] ()
  unfold loadTable
  rw [known, lists.found]
  simp only [Bool.not_true, Bool.false_eq_true, if_false, bind, Except.bind, filled, lists.decodes,
    Except.mapError, ReferenceTable.assemble, lists.reads]
  rw [fetch]
  unfold fetched
  cases table.groups.toList.mapM fun group =>
    (cache.fetchGroup number group.id).map fun raw => { group with raw := raw } <;> rfl

/-- An archive none of whose groups fails loads, each group with its bytes. -/
theorem Lists.loadTable_of_supplied (lists : cache.Lists number raw container table)
    (supplied : ∀ group ∈ table.groups.toList, ∃ stored, cache.Supplies number group.id stored) :
    ∃ groups, List.Forall₂ (cache.Fills number) table.groups.toList groups ∧
      cache.loadTable number = .ok (table.complete number raw container groups) := by
  rw [lists.loadTable_eq]
  cases loads : table.groups.toList.mapM (cache.fetched number) with
  | ok groups =>
    exact ⟨groups, (mapM_eq_ok_iff.1 loads).imp fun _ _ => fetched_eq_ok_iff.1, rfl⟩
  | error error =>
    obtain ⟨before, group, behind, split, -, fails⟩ := mapM_eq_error_iff.1 loads
    obtain ⟨loaded, succeeds⟩ := exists_fetched_eq_ok_iff.2 (supplied group (by simp [split]))
    cases succeeds.symm.trans fails

/-- Of an archive some of whose groups fail the first one decides. -/
theorem Lists.loadTable_of_fails (lists : cache.Lists number raw container table)
    (fails : ¬ ∀ group ∈ table.groups.toList, ∃ stored, cache.Supplies number group.id stored) :
    ∃ before group behind error, table.groups.toList = before ++ group :: behind ∧
      (∀ earlier ∈ before, ∃ stored, cache.Supplies number earlier.id stored) ∧
      cache.Fails number group.id error ∧ cache.loadTable number = .error (.store error) := by
  rw [lists.loadTable_eq]
  cases loads : table.groups.toList.mapM (cache.fetched number) with
  | ok groups =>
    refine absurd (fun group mem => ?_) fails
    obtain ⟨i, inside, rfl⟩ := List.getElem_of_mem mem
    have all := mapM_eq_ok_iff.1 loads
    exact exists_fetched_eq_ok_iff.1 ⟨_, all.get inside (all.length_eq ▸ inside)⟩
  | error error =>
    obtain ⟨before, group, behind, split, earlier, refuses⟩ := mapM_eq_error_iff.1 loads
    obtain ⟨cause, own, rfl⟩ := fetchGroup_eq_error_iff.1 (map_eq_error.1 refuses)
    exact ⟨before, group, behind, cause, split,
      fun group mem => exists_fetched_eq_ok_iff.1 (earlier group mem), own, rfl⟩

theorem shut_of_loadTable (sound : cache.Sound) {error : CacheError}
    (fails : cache.loadTable number = .error error) : cache.Shut number error := by
  have archive := archive_of_error sound fails
  have onArchive : ∀ {α : Type} (operation : Archive → Except ArchiveError α × Archive),
      cache.onArchive number operation = (.error error, cache) := by
    intro α operation
    rw [Cache.onArchive, archive]
  refine ⟨?_, fun _ _ _ => onArchive _, fun _ _ _ => onArchive _, fun _ _ _ _ _ => onArchive _⟩
  rw [Cache.table, archive]
  rfl

/-! ## Other archives -/

/-- An operation does not ask for an archive. -/
def Operation.Spares (number : UInt8) {α : Type} : Operation α → Prop
  | .ask other _ | .read other _ _ _ | .readNamed other _ _ _ | .readEntry other _ _ _ _ _
  | .readRaw other _ => other ≠ number
  | .readBootstrap => masterArchive ≠ number
  | .checksums => False

/-- Loading an archive looks at its groups and at those of the master archive. -/
theorem loadTable_congr {cache' : Cache} (archives : cache.archives = cache'.archives)
    (tables : ∀ group, cache.store.read masterArchive group = cache'.store.read masterArchive group)
    (groups : ∀ group, cache.store.read number group = cache'.store.read number group) :
    cache.loadTable number = cache'.loadTable number := by
  have fetch : cache.fetchGroup number = cache'.fetchGroup number := by
    funext group
    rw [fetchGroup, fetchGroup, groups]
  unfold loadTable readRaw
  rw [archives, tables, fetch]

/-- What becomes of the groups of one archive does not show in what is asked of others. -/
theorem perform_fst_of_agreesBut {store store' : Store} {options : Options} {cache' : Cache}
    (opened : ofStore store options = .ok cache) (opened' : ofStore store' options = .ok cache')
    (agrees : store.AgreesBut number store') (ordinary : masterArchive ≠ number) {α : Type}
    {operation : Operation α} (spares : operation.Spares number) :
    (operation.perform cache).1 = (operation.perform cache').1 := by
  have sound := sound_of_ofStore opened
  have sound' := sound_of_ofStore opened'
  obtain ⟨groups, listed, rfl⟩ := ofStore_eq_ok_iff.1 opened
  obtain ⟨groups', listed', rfl⟩ := ofStore_eq_ok_iff.1 opened'
  obtain rfl : groups = groups' :=
    Except.ok.inj (listed.symm.trans (agrees.list.trans listed'))
  have loads : ∀ other, other ≠ number →
      loadTable ⟨store, options, archivesOf groups, ∅⟩ other =
        loadTable ⟨store', options, archivesOf groups, ∅⟩ other :=
    fun other different => loadTable_congr rfl (agrees.read masterArchive ordinary)
      (agrees.read other different)
  have raws : ∀ other, other ≠ number → ∀ group,
      readRaw ⟨store, options, archivesOf groups, ∅⟩ other group =
        readRaw ⟨store', options, archivesOf groups, ∅⟩ other group := by
    intro other different group
    rw [readRaw, readRaw, agrees.read other different]
  have asks : ∀ other, other ≠ number → ∀ {β : Type}
      (operation : Archive → Except ArchiveError β × Archive),
      (onArchive ⟨store, options, archivesOf groups, ∅⟩ other operation).1 =
        (onArchive ⟨store', options, archivesOf groups, ∅⟩ other operation).1 := by
    intro other different β operation
    -- neither cache has anything loaded yet, so only what loading gives matters
    rw [onArchive_fst_of_unloaded (by simp), onArchive_fst_of_unloaded (by simp),
      loads other different]
  cases operation with
  | ask other question =>
    have tables := (table_fst sound other).trans
      ((loads other spares).trans (table_fst sound' other).symm)
    exact congrArg (Except.map question) tables
  | read other group file key => exact asks other spares _
  | readNamed other name file key => exact asks other spares _
  | readEntry other group file entry count key => exact asks other spares _
  | readRaw other group => exact raws other spares group
  | readBootstrap => exact raws masterArchive spares bootstrapGroup
  | checksums => exact spares.elim

/-! ## Directories -/

/-- The index file of an opened directory ends before the groups that it has no locator for. -/
theorem beyond_iff {disk : DiskStore} {options : Options}
    (opened : ofStore disk.toStore options = .ok cache) {index : IndexFile}
    (found : disk.index number = .ok index) :
    cache.Beyond number group ↔ index.recordCount ≤ group.toNat := by
  obtain ⟨groups, -, rfl⟩ := ofStore_eq_ok_iff.1 opened
  have raw : readRaw ⟨disk.toStore, options, archivesOf groups, ∅⟩ number group =
      (disk.read number group).mapError .store := rfl
  simp only [Beyond, raw, mapError_eq_error, CacheError.store.injEq]
  by_cases inside : group.toNat < index.recordCount
  · have located : index.locator group = .ok (index.locatorAt group.toNat) := if_pos inside
    refine iff_of_false ?_ (by omega)
    rintro ⟨error, ⟨cause, fails, rfl⟩, beyond⟩
    rw [DiskStore.read_eq found located, mapError_eq_error] at fails
    obtain ⟨broken, -, rfl⟩ := fails
    cases beyond
  · have ended : index.locator group = .error (.endOfFile index.archive group index.recordCount) :=
      if_neg inside
    have fails : disk.read number group =
        .error (.index (.endOfFile index.archive group index.recordCount)) := by
      simp only [DiskStore.read, found, ended, bind, Except.bind, Except.mapError]
    exact iff_of_true ⟨_, ⟨_, fails, rfl⟩, rfl⟩ (by omega)

/-! ## Loading or not -/

/-- **Archives load as a whole, and only absence beyond the index is forgiven.**  Take an archive of an
opened cache whose record in the master archive is a table, and any session.

If each group of the table is supplied, that is, read or beyond the index file, the archive loads, and each
of its groups has the bytes that are supplied for it.  Otherwise there is a first group in the order of
ordinals that fails in another way, and everything that is asked of the archive comes to its failure.

Over any store that differs in the groups of this archive only, the cache opens as well, and answers the
same to what does not ask for this archive.

If the store is an opened directory, the groups beyond the index file of the archive are those whose ids
are not less than the number of its locators. -/
theorem table_of_lists {store : Store} {options : Options} (opened : ofStore store options = .ok cache)
    (lists : cache.Lists number raw container table) (session : Session) :
    ((∀ group ∈ table.groups.toList, ∃ stored, cache.Supplies number group.id stored) →
      ∃ groups, List.Forall₂ (cache.Fills number) table.groups.toList groups ∧
        ((cache.after session).table number).1 =
          .ok (table.complete number raw container groups)) ∧
    ((¬ ∀ group ∈ table.groups.toList, ∃ stored, cache.Supplies number group.id stored) →
      ∃ before group behind error, table.groups.toList = before ++ group :: behind ∧
        group.ordinal = before.length ∧
        (∀ earlier ∈ before, ∃ stored, cache.Supplies number earlier.id stored) ∧
        cache.Fails number group.id error ∧ (cache.after session).Shut number (.store error)) ∧
    (∀ store', store.AgreesBut number store' →
      ∃ cache', ofStore store' options = .ok cache' ∧
        ∀ (session' : Session) {α : Type} (operation : Operation α), operation.Spares number →
          (operation.perform (cache'.after session')).1 =
            (operation.perform (cache.after session)).1) ∧
    ∀ (directory : Directory) (disk : DiskStore), directory.openStore = .ok disk →
      store = disk.toStore →
      ∃ bytes, directory.indexFile number = .file bytes ∧ ∀ group,
        cache.Beyond number group ↔ (IndexFile.mk number bytes).recordCount ≤ group.toNat := by
  obtain ⟨sound, forgets⟩ := after_sound (sound_of_ofStore opened) session
  have loads : (cache.after session).loadTable number = cache.loadTable number := by
    rw [← loadTable_forget, forgets, loadTable_forget]
  refine ⟨fun supplied => ?_, fun fails => ?_, fun store' agrees => ?_,
    fun directory disk opens same => ?_⟩
  · obtain ⟨groups, filled, whole⟩ := lists.loadTable_of_supplied supplied
    exact ⟨groups, filled, by rw [table_fst sound, loads, whole]⟩
  · obtain ⟨before, group, behind, error, split, earlier, own, shuts⟩ :=
      lists.loadTable_of_fails fails
    have inOrder := split ▸ ReferenceTable.inOrder_of_read lists.reads
    exact ⟨before, group, behind, error, split, inOrder.ordinal_of_append, earlier, own,
      shut_of_loadTable sound (loads.trans shuts)⟩
  · obtain ⟨groups, listed, same⟩ := ofStore_eq_ok_iff.1 opened
    have opened' : ofStore store' options = .ok ⟨store', options, archivesOf groups, ∅⟩ :=
      ofStore_eq_ok_iff.2 ⟨groups, agrees.list ▸ listed, rfl⟩
    have ordinary : masterArchive ≠ number := by
      have known := lists.known
      rw [same] at known
      exact (UInt8.ne_of_lt (lt_master_of_mem_archivesOf known)).symm
    refine ⟨_, opened', fun session' α operation spares => ?_⟩
    rw [perform_fst_after opened, perform_fst_after opened']
    exact (perform_fst_of_agreesBut opened opened' agrees ordinary spares).symm
  · subst same
    have live := archives_of_toStore opened ▸ lists.known
    obtain ⟨bytes, file, found⟩ := Directory.index_of_openStore opens live
    exact ⟨bytes, file, fun group => beyond_iff opened found⟩

/-- The stored form of a table of two groups. -/
def sparseTableBytes : Bytes :=
  [0, 0, 0, 0, 28, 5, 0, 0, 2, 0, 0, 0, 1] ++ List.replicate 20 0

/-- The container of this table. -/
def sparseContainer : Container := ⟨sparseTableBytes.drop 5, .none, -1, 232307793, 33⟩

/-- The table. -/
def sparseTable : ReferenceTable where
  archive := 0
  crc := 0
  digest := Digest.zero
  compression := .none
  protocol := .unversioned
  revision := 0
  flags := ⟨false, false, false, false⟩
  groups := #[Group.blank 0 0, Group.blank 1 1]
  byName := ∅

theorem read_sparseContainer : ReferenceTable.read sparseContainer.data = .ok sparseTable := by
  rfl

theorem decode_sparseTableBytes : Container.decode sparseTableBytes none = .ok sparseContainer := by
  decide +kernel

/-- A store of two archives with the same table, neither of which has both groups of it. -/
def sparseStore : Store where
  list _ := .ok [3, 5]
  read archive group :=
    if archive = masterArchive then .ok sparseTableBytes
    else if archive = 3 ∧ group = 0 then .ok [7]
    else if archive = 5 ∧ group = 1 then .error (.archiveNotFound 5)
    else .error (.index (.endOfFile archive group 0))

/-- The cache over this store. -/
def sparseCache : Cache := ⟨sparseStore, {}, [3, 5], ∅⟩

theorem lists_sparseCache {number : UInt8} (known : number ∈ sparseCache.archives) :
    sparseCache.Lists number sparseTableBytes sparseContainer sparseTable :=
  ⟨known, rfl, by simp [sparseTableBytes], decode_sparseTableBytes, read_sparseContainer⟩

/-- Of the archive 3 the second group is forgiven, of the archive 5 only the first one. -/
theorem table_of_lists_sparseCache :
    ofStore sparseStore {} = .ok sparseCache ∧
      (∀ number ∈ sparseCache.archives,
        sparseCache.Lists number sparseTableBytes sparseContainer sparseTable) ∧
      (∃ groups, List.Forall₂ (sparseCache.Fills 3) sparseTable.groups.toList groups ∧
        (sparseCache.table 3).1 = .ok (sparseTable.complete 3 sparseTableBytes sparseContainer groups)) ∧
      sparseCache.Shut 5 (.store (.archiveNotFound 5)) := by
  have opened : ofStore sparseStore {} = .ok sparseCache := rfl
  have lists : ∀ number ∈ sparseCache.archives,
      sparseCache.Lists number sparseTableBytes sparseContainer sparseTable := fun _ => lists_sparseCache
  refine ⟨opened, lists, ?_, ?_⟩
  · refine (table_of_lists opened (lists 3 (by decide)) []).1 ?_
    have first : sparseCache.Supplies 3 0 [7] := .stored rfl
    have second : sparseCache.Supplies 3 1 [] := .beyond ⟨_, rfl, rfl⟩
    intro group mem
    rcases List.mem_pair.1 mem with rfl | rfl
    · exact ⟨_, first⟩
    · exact ⟨_, second⟩
  · have first : sparseCache.Supplies 5 0 [] := .beyond ⟨_, rfl, rfl⟩
    have second : sparseCache.Fails 5 1 (.archiveNotFound 5) := ⟨rfl, rfl⟩
    obtain ⟨before, group, behind, error, split, -, -, own, shut⟩ :=
      (table_of_lists opened (lists 5 (by decide)) []).2.1 fun supplied => by
        obtain ⟨stored, supplies⟩ := supplied (Group.blank 1 1) (List.mem_pair.2 (.inr rfl))
        cases supplies.fetchGroup_eq.symm.trans second.fetchGroup_eq
    have mem : group ∈ sparseTable.groups.toList := by simp [split]
    rcases List.mem_pair.1 mem with rfl | rfl
    · cases own.fetchGroup_eq.symm.trans first.fetchGroup_eq
    · cases own.fetchGroup_eq.symm.trans second.fetchGroup_eq
      exact shut

end Cache
end SectorVault
