import SectorVault.ReferenceTable.Assembly

/-!
# Archives

An archive is a reference table with the stored bytes of its groups.  Files are read out of its
groups, and what is unpacked on the way is checked against the table as far as the options ask:

* the checksum of the container against the one listed for the group;
* the digest of the same bytes against the one listed, if the table lists one;
* the checksum of the data against the one listed, if the table lists any.

The checks come in this order, after the container is decoded and before its data is split, so a
group that fails a check and could not be split either fails the check.  Stored bytes that are no
container have no envelope that the first two could cover.

## The memo

Unpacking is costly, so an archive remembers the groups it has unpacked, each with the key that was
used.  What is remembered is only used again under that key, and a group whose unpacking fails is not
remembered.  When as many groups are remembered as the options allow, all are forgotten before the
next one is entered.  Every operation answers with the archive as it is afterwards; its result is the
one that unpacking afresh would give, whatever is remembered.
-/

namespace SectorVault

/-! ## Options -/

/-- How an archive is read. -/
structure Options where
  /-- Whether checksums are compared with the reference table. -/
  verifyChecksums : Bool := false
  /-- Whether digests are compared with the reference table. -/
  verifyDigests : Bool := false
  /-- The number of unpacked groups an archive remembers before it forgets them. -/
  unpackedCacheSize : Nat := 1024
  deriving DecidableEq, Repr

/-! ## Failures -/

/-- Why an archive does not give a file. -/
inductive ArchiveError where
  /-- The archive has no group of this id. -/
  | groupNotFound (archive : UInt8) (group : UInt32)
  /-- The archive has no group whose name has this hash. -/
  | namedGroupNotFound (archive : UInt8) (nameHash : Int32)
  /-- The group has no file of this id. -/
  | fileNotFound (archive : UInt8) (group file : UInt32)
  /-- The checksum of the container is not the one listed. -/
  | checksumMismatch (archive : UInt8) (group expected found : UInt32)
  /-- The checksum of the data is not the one listed. -/
  | uncompressedChecksumMismatch (archive : UInt8) (group expected found : UInt32)
  /-- The digest of the container is not the one listed. -/
  | digestMismatch (archive : UInt8) (group : UInt32)
  /-- The group does not unpack. -/
  | unpacking (error : GroupError)
  deriving DecidableEq, Repr

namespace ArchiveError

/-- What a failure is called. -/
def message : ArchiveError → String
  | .groupNotFound archive group => s!"group {group} not found in archive {archive}"
  | .namedGroupNotFound archive nameHash =>
    s!"group with name hash {nameHash} not found in archive {archive}"
  | .fileNotFound archive group file =>
    s!"file {file} not found in group {group} of archive {archive}"
  | .checksumMismatch archive group expected found =>
    s!"checksum mismatch in group {group} of archive {archive} " ++
      s!"(expected {hexWord expected}, found {hexWord found})"
  | .uncompressedChecksumMismatch archive group expected found =>
    s!"uncompressed checksum mismatch in group {group} of archive {archive} " ++
      s!"(expected {hexWord expected}, found {hexWord found})"
  | .digestMismatch archive group => s!"digest mismatch in group {group} of archive {archive}"
  | .unpacking error => s!"group error: {error.message}"

/-- The class of a failure. -/
def errorClass : ArchiveError → ErrorClass
  | .groupNotFound _ _ | .namedGroupNotFound _ _ | .fileNotFound _ _ _ => .notFound
  | .checksumMismatch _ _ _ _ | .uncompressedChecksumMismatch _ _ _ _
  | .digestMismatch _ _ => .corruption
  | .unpacking error => error.errorClass

end ArchiveError

/-! ## Archives -/

/-- An archive with what it remembers. -/
structure Archive where
  /-- The number of the archive. -/
  number : UInt8
  /-- The reference table. -/
  table : ReferenceTable
  /-- How the archive is read. -/
  options : Options
  /-- The unpacked groups that are remembered, by id. -/
  memo : Std.TreeMap UInt32 Unpacked

namespace Archive

/-- An archive that remembers nothing. -/
def fresh (number : UInt8) (table : ReferenceTable) (options : Options) : Archive :=
  ⟨number, table, options, ∅⟩

/-! ### Checks -/

/-- Checks a container of a group against the table. -/
def verifyCompressed (archive : Archive) (group : Group) (container : Container) :
    Except ArchiveError Unit :=
  if archive.options.verifyChecksums && container.crc != group.crc then
    .error (.checksumMismatch archive.number group.id group.crc container.crc)
  else if archive.options.verifyDigests then
    match group.digest with
    | none => .ok ()
    | some expected =>
      if whirlpool (group.raw.take container.packedLength) = expected then .ok ()
      else .error (.digestMismatch archive.number group.id)
  else .ok ()

/-- Checks the data of a group against the table. -/
def verifyUncompressed (archive : Archive) (group : Group) (data : Bytes) :
    Except ArchiveError Unit :=
  if archive.options.verifyChecksums && archive.table.flags.uncompressedCrcs then
    let found := crc32 data
    if found = group.uncompressedCrc then .ok ()
    else .error
      (.uncompressedChecksumMismatch archive.number group.id group.uncompressedCrc found)
  else .ok ()

/-- Checks the container of a group, if there is one, and its data. -/
def verify (archive : Archive) (group : Group) (container : Option Container) (data : Bytes) :
    Except ArchiveError Unit := do
  match container with
  | some container => archive.verifyCompressed group container
  | none => pure ()
  archive.verifyUncompressed group data

/-! ### Unpacking -/

/-- Unpacks a group afresh, with the checks that the options ask for. -/
def unpackFresh (archive : Archive) (group : UInt32) (key : Option Key) :
    Except ArchiveError Unpacked :=
  match archive.table.group? group with
  | none => .error (.groupNotFound archive.number group)
  | some found => found.unpackWith key .unpacking (archive.verify found)

/-- Remembers an unpacked group, after forgetting all others if they are too many. -/
def remember (archive : Archive) (group : UInt32) (unpacked : Unpacked) : Archive :=
  let memo := if archive.options.unpackedCacheSize ≤ archive.memo.size then ∅ else archive.memo
  { archive with memo := memo.insert group unpacked }

/-- The unpacked group that is remembered for an id and a key. -/
def remembered? (archive : Archive) (group : UInt32) (key : Option Key) : Option Unpacked :=
  match archive.memo[group]? with
  | some unpacked => if unpacked.key = key then some unpacked else none
  | none => none

/-- What is remembered of a group, under whatever key. -/
def lookUp (archive : Archive) (group : UInt32) : Except ArchiveError Unpacked :=
  match archive.memo[group]? with
  | some unpacked => .ok unpacked
  | none => .error (.groupNotFound archive.number group)

/-- Unpacks a group unless it is remembered under the key, and hands out what is remembered then. -/
def unpack (archive : Archive) (group : UInt32) (key : Option Key) :
    Except ArchiveError Unpacked × Archive :=
  match archive.remembered? group key with
  | some _ => (archive.lookUp group, archive)
  | none =>
    match archive.unpackFresh group key with
    | .ok unpacked =>
      let archive := archive.remember group unpacked
      (archive.lookUp group, archive)
    | .error error => (.error error, archive)

/-! ### Reading files -/

/-- The first file with an id in an unpacked group of the archive. -/
def select (archive : Archive) (group file : UInt32) (unpacked : Unpacked) :
    Except ArchiveError File :=
  match unpacked.file? file with
  | some found => .ok found
  | none => .error (.fileNotFound archive.number group file)

/-- A file of a group, by their ids. -/
def file (archive : Archive) (group file : UInt32) (key : Option Key) :
    Except ArchiveError File × Archive :=
  match archive.unpack group key with
  | (.ok unpacked, archive) => (archive.select group file unpacked, archive)
  | (.error error, archive) => (.error error, archive)

/-- The contents of a file, by the ids of the group and the file. -/
def read (archive : Archive) (group file : UInt32) (key : Option Key) :
    Except ArchiveError Bytes × Archive :=
  let (found, archive) := archive.file group file key
  (found.map File.data, archive)

/-- The contents of a file, by the hash of the group's name and the id of the file. -/
def readHashed (archive : Archive) (hash : Int32) (file : UInt32) (key : Option Key) :
    Except ArchiveError Bytes × Archive :=
  match archive.table.groupHashed? hash with
  | some group => archive.read group.id file key
  | none => (.error (.namedGroupNotFound archive.number hash), archive)

/-- One entry of a file that is said to hold `count` entries. -/
def readEntry (archive : Archive) (group file entry : UInt32) (count : UInt64) (key : Option Key) :
    Except ArchiveError Entry × Archive :=
  let (found, archive) := archive.file group file key
  (found.bind fun file => (file.entry entry count).mapError .unpacking, archive)

end Archive

end SectorVault
