import SectorVault.Archive
import SectorVault.Store.Directory

/-!
# Caches

A cache is a store together with what is known of its archives.  The archives are those of which the
master archive lists a reference table; a table is loaded when something of its archive is first
asked for, along with the stored bytes of all its groups.

## Loading an archive

The stored table is read from the master archive, decoded without a key, and its groups are fetched
in order.  A table may list groups that were never written, beyond the end of the index file; they
are there, and empty.  Any other failure to fetch a group is a failure of the archive, and then
nothing of it can be read, whichever group was asked for.

## What is kept

A loaded archive is kept, together with what it remembers of its groups; an archive that did not load
is not kept.  Every operation answers with the cache as it is afterwards.  Since stores are pure, its
result does not depend on what is kept.
-/

namespace SectorVault

/-! ## Failures -/

/-- Why a cache does not give what was asked for. -/
inductive CacheError where
  /-- The directory does not open. -/
  | directory (error : OpenError)
  /-- The store does not hand out a group. -/
  | store (error : StoreError)
  /-- A stored table does not decode. -/
  | container (error : ContainerError)
  /-- A table does not read. -/
  | table (error : TableError)
  /-- An archive does not give a file. -/
  | archive (error : ArchiveError)
  /-- The cache has no such archive. -/
  | archiveNotFound (archive : UInt8)
  deriving DecidableEq, Repr

namespace CacheError

/-- What a failure is called. -/
def message : CacheError → String
  | .directory error => s!"disk store error: {error.message}"
  | .store error => s!"store error: {error.message}"
  | .container error => s!"JS5 compression error: {error.message}"
  | .table error => s!"JS5 index error: {error.message}"
  | .archive error => s!"archive error: {error.message}"
  | .archiveNotFound number => s!"archive {number} not found in cache"

/-- The class of a failure. -/
def errorClass : CacheError → ErrorClass
  | .directory error => error.errorClass
  | .store error => error.errorClass
  | .container error => error.errorClass
  | .table error => error.errorClass
  | .archive error => error.errorClass
  | .archiveNotFound _ => .notFound

end CacheError

/-! ## Caches -/

/-- A cache with the archives loaded so far. -/
structure Cache where
  /-- Where the stored bytes come from. -/
  store : Store
  /-- How archives are read. -/
  options : Options
  /-- The numbers of the archives, in the order in which the store lists them. -/
  archives : List UInt8
  /-- The archives loaded so far. -/
  loaded : Std.TreeMap UInt8 Archive

namespace Cache

/-- The group of the master archive with the bootstrap record. -/
def bootstrapGroup : UInt32 := 28

/-- The archives whose tables are among some groups of the master archive. -/
def archivesOf (groups : List UInt32) : List UInt8 :=
  (groups.filter fun group => group.toNat < masterArchive.toNat).map UInt32.toUInt8

/-- Opens a cache over a store. -/
def ofStore (store : Store) (options : Options) : Except CacheError Cache := do
  let groups ← (store.list masterArchive).mapError .store
  return ⟨store, options, archivesOf groups, ∅⟩

/-- Opens the cache in a directory. -/
def ofDirectory (directory : Directory) (options : Options) : Except CacheError Cache := do
  let disk ← directory.openStore.mapError .directory
  ofStore disk.toStore options

/-! ### Loading archives -/

/-- The stored bytes of a group. -/
def readRaw (cache : Cache) (archive : UInt8) (group : UInt32) : Except CacheError Bytes :=
  (cache.store.read archive group).mapError .store

/-- The stored bytes of the bootstrap record. -/
def readBootstrap (cache : Cache) : Except CacheError Bytes :=
  cache.readRaw masterArchive bootstrapGroup

/-- The stored bytes of a group that a table lists; a group beyond the end of the index file is
empty. -/
def fetchGroup (cache : Cache) (archive : UInt8) (group : UInt32) : Except CacheError Bytes :=
  match cache.store.read archive group with
  | .ok raw => .ok raw
  | .error error => if error.isBeyondIndex then .ok [] else .error (.store error)

/-- Loads the reference table of an archive, with the stored bytes of its groups. -/
def loadTable (cache : Cache) (archive : UInt8) : Except CacheError ReferenceTable := do
  if !cache.archives.contains archive then throw (.archiveNotFound archive)
  let raw ← cache.readRaw masterArchive archive.toUInt32
  if raw.isEmpty then throw (.archiveNotFound archive)
  let container ← (Container.decode raw none).mapError .container
  (ReferenceTable.assemble archive container (whirlpool raw) .table
    (fun _ group state => (cache.fetchGroup archive group, state)) ()).1

/-- The archive with a number, loaded if need be. -/
def archive (cache : Cache) (number : UInt8) : Except CacheError Archive × Cache :=
  match cache.loaded[number]? with
  | some archive => (.ok archive, cache)
  | none =>
    match cache.loadTable number with
    | .ok table =>
      let archive := Archive.fresh number table cache.options
      (.ok archive, { cache with loaded := cache.loaded.insert number archive })
    | .error error => (.error error, cache)

/-- Runs an operation of an archive and keeps the archive as it is afterwards. -/
def onArchive {α : Type} (cache : Cache) (number : UInt8)
    (operation : Archive → Except ArchiveError α × Archive) : Except CacheError α × Cache :=
  match cache.archive number with
  | (.ok archive, cache) =>
    let (result, archive) := operation archive
    (result.mapError .archive, { cache with loaded := cache.loaded.insert number archive })
  | (.error error, cache) => (.error error, cache)

/-! ### Reading -/

/-- The reference table of an archive. -/
def table (cache : Cache) (number : UInt8) : Except CacheError ReferenceTable × Cache :=
  let (archive, cache) := cache.archive number
  (archive.map Archive.table, cache)

/-- The contents of a file, by the numbers of archive, group and file. -/
def read (cache : Cache) (number : UInt8) (group file : UInt32) (key : Option Key) :
    Except CacheError Bytes × Cache :=
  cache.onArchive number fun archive => archive.read group file key

/-- The contents of a file, by the name of its group. -/
def readNamed (cache : Cache) (number : UInt8) (name : String) (file : UInt32)
    (key : Option Key) : Except CacheError Bytes × Cache :=
  cache.onArchive number fun archive => archive.readHashed (nameHash name) file key

/-- One entry of a file that is said to hold `count` entries. -/
def readEntry (cache : Cache) (number : UInt8) (group file entry : UInt32) (count : UInt64)
    (key : Option Key) : Except CacheError Entry × Cache :=
  cache.onArchive number fun archive => archive.readEntry group file entry count key

end Cache

end SectorVault
