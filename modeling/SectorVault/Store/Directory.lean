import SectorVault.Store

/-!
# Cache directories

On disk a store is a directory with the data file and one index file for each archive.  The index
file of the master archive says which other archives there are: one for each live record, up to the
number of the master archive itself.  Each of them needs its index file; an index file that is there
without such a record is not looked at.

Opening checks, in this order, that the data file and the master index exist, that they can be
opened, and then for each live archive in ascending order that its index file exists and can be
opened.  A name that exists without being a file is one that cannot be opened.
-/

namespace SectorVault

/-- What a directory has under a name. -/
inductive DirectoryEntry where
  /-- Nothing. -/
  | missing
  /-- Something that cannot be opened as a file. -/
  | unopenable
  /-- A file. -/
  | file (bytes : Array UInt8)

/-- Whether there is anything under a name. -/
def DirectoryEntry.isPresent : DirectoryEntry → Bool
  | .missing => false
  | .unopenable | .file _ => true

/-- A cache directory. -/
structure Directory where
  /-- The path of the directory. -/
  path : String
  /-- What is under the name of the data file. -/
  dataFile : DirectoryEntry
  /-- What is under the name of the index file of each archive. -/
  indexFile : UInt8 → DirectoryEntry

/-- Why a cache directory does not open. -/
inductive OpenError where
  /-- There is no data file. -/
  | missingDataFile (path : String)
  /-- There is no index file for an archive that needs one. -/
  | missingIndexFile (archive : UInt8) (path : String)
  /-- The data file does not open. -/
  | sector (error : SectorError)
  /-- An index file does not open. -/
  | index (error : IndexError)
  deriving DecidableEq, Repr

namespace OpenError

/-- What a failure is called. -/
def message : OpenError → String
  | .missingDataFile path => s!"data file {path} not found"
  | .missingIndexFile archive path => s!"index file {path} for archive {archive} not found"
  | .sector error => s!"sector store error: {error.message}"
  | .index error => s!"index store error: {error.message}"

/-- The class of a failure. -/
def errorClass : OpenError → ErrorClass
  | .missingDataFile _ | .missingIndexFile _ _ => .notFound
  | .sector error => error.errorClass
  | .index error => error.errorClass

end OpenError

/-- An opened cache directory. -/
structure DiskStore where
  /-- The data file. -/
  data : DataFile
  /-- The index file of the master archive. -/
  master : IndexFile
  /-- The index files of the other archives, in ascending order. -/
  indexes : List IndexFile

namespace Directory

/-- The path of the data file. -/
def dataPath (directory : Directory) : String :=
  directory.path ++ "/main_file_cache.dat2"

/-- The path of the index file of an archive. -/
def indexPath (directory : Directory) (archive : UInt8) : String :=
  directory.path ++ s!"/main_file_cache.idx{archive}"

/-- Opens an index file that exists. -/
def openIndex (directory : Directory) (archive : UInt8) : Except OpenError IndexFile :=
  match directory.indexFile archive with
  | .file bytes => .ok ⟨archive, bytes⟩
  | .missing | .unopenable => .error (.index .unopenable)

/-- Opens the data file if it exists. -/
def openData (directory : Directory) : Except OpenError DataFile :=
  match directory.dataFile with
  | .file bytes => .ok ⟨bytes⟩
  | .missing | .unopenable => .error (.sector .unopenable)

/-- Checks that the index file of an archive exists. -/
def requireIndex (directory : Directory) (archive : UInt8) : Except OpenError Unit :=
  if (directory.indexFile archive).isPresent then .ok ()
  else .error (.missingIndexFile archive (directory.indexPath archive))

/-- The archives for which a master index has a live record. -/
def liveArchives (master : IndexFile) : List UInt8 :=
  ((List.range (min master.recordCount masterArchive.toNat)).filter master.isLive).map UInt8.ofNat

/-- Opens a cache directory. -/
def openStore (directory : Directory) : Except OpenError DiskStore := do
  if !directory.dataFile.isPresent then throw (.missingDataFile directory.dataPath)
  directory.requireIndex masterArchive
  let data ← directory.openData
  let master ← directory.openIndex masterArchive
  let indexes ← (liveArchives master).mapM fun archive => do
    directory.requireIndex archive
    directory.openIndex archive
  return ⟨data, master, indexes⟩

end Directory

namespace DiskStore

/-- The index file of an archive. -/
def index (disk : DiskStore) (archive : UInt8) : Except StoreError IndexFile :=
  if archive = masterArchive then .ok disk.master
  else match disk.indexes.find? fun index => index.archive == archive with
    | some index => .ok index
    | none => .error (.archiveNotFound archive)

/-- The ids of the groups that an archive has. -/
def list (disk : DiskStore) (archive : UInt8) : Except StoreError (List UInt32) := do
  let index ← disk.index archive
  return index.live.map UInt32.ofNat

/-- The stored bytes of a group. -/
def read (disk : DiskStore) (archive : UInt8) (group : UInt32) : Except StoreError Bytes := do
  let index ← disk.index archive
  let locator ← (index.locator group).mapError .index
  (disk.data.read ⟨archive, group⟩ locator).mapError .sector

/-- An opened directory as a store. -/
def toStore (disk : DiskStore) : Store where
  list := disk.list
  read := disk.read

end DiskStore

end SectorVault
