import Mathlib
import SectorVault.Container.Seal
import SectorVault.ReferenceTable.Encoding
import SectorVault.Store.Image

/-!
# Writing caches

What a cache is about, apart from how it is stored: archives, their groups, and the files of these.
`CacheContents.directory` is the directory such contents are stored in.  The files of a group are
bundled in one row and sealed in a container that is not compressed, with the key of the group; the
reference table of an archive lists its groups with the checksums and the digest of what is stored,
and is itself sealed, without a key, and stored in the master archive.

Not everything can be stored.  `CacheContents.Storable` collects the limits: how long a container may
be, what the protocols of the tables can hold, and how many sectors can be pointed to.  Nothing keeps an
archive from having a group of the last id of all, but then its locators are one more than can be counted,
and none of its groups is found again (`ArchiveContents.Countable`).
-/

namespace SectorVault

/-! ## Contents -/

/-- A group with its files, in ascending order of their ids, and the key it is stored under.  The
stated lengths need not be those of what is stored, since nothing reads them. -/
structure GroupContents where
  id : UInt32
  nameHash : Int32
  key : Option Key
  length : UInt32
  uncompressedLength : UInt32
  revision : Int32
  files : List File
  nonempty : files ≠ []
  ascend : files.Pairwise fun file later => file.id < later.id

/-- An archive with its groups, in ascending order of their ids, and what its table says besides. -/
structure ArchiveContents where
  number : UInt8
  protocol : Protocol
  revision : Int32
  /-- The byte that says which optional columns the table has. -/
  flags : UInt8
  groups : List GroupContents
  /-- The archive is not the master archive. -/
  ordinary : number ≠ masterArchive
  ascend : groups.Pairwise fun group later => group.id < later.id

/-- The archives of a cache, in ascending order of their numbers. -/
structure CacheContents where
  archives : List ArchiveContents
  ascend : archives.Pairwise fun archive later => archive.number < later.number

/-! ## How contents are stored -/

namespace GroupContents

/-- The data of a group. -/
def packed (group : GroupContents) : Bytes :=
  Bundle.ofFiles (group.files.map File.data)

/-- The stored bytes of a group. -/
def stored (group : GroupContents) : Bytes :=
  Container.sealPlain group.packed group.key

/-- The group as its table lists it, with its stored bytes. -/
def listed (group : GroupContents) : Group where
  ordinal := 0
  id := group.id
  nameHash := group.nameHash
  crc := crc32 group.stored
  uncompressedCrc := crc32 group.packed
  digest := some (whirlpool group.stored)
  length := group.length
  uncompressedLength := group.uncompressedLength
  revision := group.revision
  files := group.files.map fun file => ⟨file.id, file.nameHash⟩
  raw := group.stored

end GroupContents

namespace ArchiveContents

/-- The table of an archive. -/
def table (archive : ArchiveContents) : Bytes :=
  ReferenceTable.encode archive.protocol archive.revision archive.flags
    (archive.groups.map GroupContents.listed)

/-- The stored bytes of the table of an archive. -/
def storedTable (archive : ArchiveContents) : Bytes :=
  Container.sealPlain archive.table none

/-- The records of the groups of an archive. -/
def records (archive : ArchiveContents) : List Record :=
  archive.groups.map fun group => ⟨⟨archive.number, group.id⟩, group.stored⟩

/-- The locators of an archive can be counted in a word: no group has the last id of all. -/
def Countable (archive : ArchiveContents) : Prop :=
  ∀ group ∈ archive.groups, group.id.toNat + 1 < 2 ^ 32

instance (archive : ArchiveContents) : Decidable archive.Countable :=
  inferInstanceAs (Decidable (∀ group ∈ archive.groups, group.id.toNat + 1 < 2 ^ 32))

/-- The record of the table of an archive. -/
def tableRecord (archive : ArchiveContents) : Record :=
  ⟨⟨masterArchive, archive.number.toUInt32⟩, archive.storedTable⟩

end ArchiveContents

namespace CacheContents

/-- The records of a cache; those of the master archive, the last one, come last. -/
def records (contents : CacheContents) : List Record :=
  contents.archives.flatMap ArchiveContents.records ++
    contents.archives.map ArchiveContents.tableRecord

/-- The directory that a cache is stored in. -/
def directory (contents : CacheContents) (path : String) : Directory :=
  Image.directory path contents.records

/-- The contents are within the limits of the formats they are stored in. -/
structure Storable (contents : CacheContents) : Prop where
  /-- The data of every group fits a container. -/
  packed : ∀ archive ∈ contents.archives, ∀ group ∈ archive.groups,
    group.packed.length ≤ 2000000
  /-- Every table fits a container. -/
  table : ∀ archive ∈ contents.archives, archive.table.length ≤ 2000000
  /-- The protocol of every table can hold its counts and its ids. -/
  encodable : ∀ archive ∈ contents.archives,
    ReferenceTable.Encodable archive.protocol (archive.groups.map GroupContents.listed)
  /-- Every sector can be pointed to. -/
  sectors : 1 + (contents.records.map Record.partCount).sum ≤ 2 ^ 24

end CacheContents

end SectorVault
