import Mathlib
import SectorVault.Store.Directory

/-!
# Writing cache directories

How a cache directory is written from the records it is to hold.  The records are placed in the data
file one behind the other, each in as many successive sectors as it has parts; the first sector of
the file is left empty, since a pointer to it means none.  Whatever a sector has left behind its part
is filled with zeros.  An empty record takes no sectors and is as good as none.

The index file of an archive reaches up to its greatest group, with zeros for the groups in between
that have no record.  There is an index file for the master archive, for every archive with a record
of its own, and for every archive that the master archive has a record of, which is empty if the
archive has no groups.  An index file that reaches up to the last id of all has one locator more than a
word can count, and is taken to have none.
-/

namespace SectorVault

/-- The stored bytes of a group. -/
structure Record where
  /-- Whose bytes these are. -/
  owner : Owner
  /-- The bytes. -/
  bytes : Bytes
  deriving DecidableEq, Repr

/-! ## Records in sectors -/

namespace Record

/-- The number of parts of a record. -/
def partCount (record : Record) : Nat :=
  DataFile.partCount record.owner record.bytes.length

/-- A part of a record. -/
def part (record : Record) (i : Nat) : Bytes :=
  (record.bytes.drop (i * record.owner.payloadSize)).take record.owner.payloadSize

/-- The sector with a part of a record that starts in the sector `first`. -/
def sector (record : Record) (first i : Nat) : Bytes :=
  let next := if i + 1 = record.partCount then 0 else first + i + 1
  let used := record.owner.encodeHeader (UInt16.ofNat i) next ++ record.part i
  used ++ List.replicate (Owner.sectorSize - used.length) 0

/-- The sectors of a record that starts in the sector `first`. -/
def sectors (record : Record) (first : Nat) : List Bytes :=
  (List.range record.partCount).map (record.sector first)

/-- The locator of a record that starts in the sector `first`. -/
def locator (record : Record) (first : Nat) : Locator :=
  if record.bytes.isEmpty then ⟨0, 0⟩ else ⟨first, record.bytes.length⟩

end Record

/-- The bytes of a locator. -/
def Locator.encode (locator : Locator) : Bytes :=
  toBigEndian 3 locator.byteLength ++ toBigEndian 3 locator.startSector

/-- The index file of an archive with a number of locators. -/
def IndexFile.ofLocators (archive : UInt8) (count : Nat) (locate : Nat → Locator) : IndexFile where
  archive := archive
  bytes := ((List.range count).map fun ordinal => (locate ordinal).encode).flatten.toArray

/-! ## Files -/

namespace Image

/-- Places records one behind the other, from the sector `first` on. -/
def place : Nat → List Record → List (Record × Nat)
  | _, [] => []
  | first, record :: records => (record, first) :: place (first + record.partCount) records

/-- The sectors of the data file. -/
def sectors (records : List Record) : List Bytes :=
  List.replicate Owner.sectorSize 0 ::
    (place 1 records).flatMap fun (record, first) => record.sectors first

/-- The data file. -/
def data (records : List Record) : DataFile where
  bytes := (sectors records).flatten.toArray

/-- The locator of a group, which is zero if there is no record of it. -/
def locator (records : List Record) (owner : Owner) : Locator :=
  match (place 1 records).find? fun (record, _) => record.owner == owner with
  | some (record, first) => record.locator first
  | none => ⟨0, 0⟩

/-- One more than the greatest group of an archive that there is a record of. -/
def groupBound (records : List Record) (archive : UInt8) : Nat :=
  ((records.filter fun record => record.owner.archive == archive).map fun record =>
    record.owner.group.toNat + 1).max?.getD 0

/-- The locators in the index file of an archive. -/
def locators (records : List Record) (archive : UInt8) : List Bytes :=
  (List.range (groupBound records archive)).map fun group =>
    (locator records ⟨archive, UInt32.ofNat group⟩).encode

/-- The index file of an archive. -/
def index (records : List Record) (archive : UInt8) : IndexFile where
  archive := archive
  bytes := (locators records archive).flatten.toArray

/-- The bytes that some records have for a group, which are none if there is no record of it. -/
def bytesOf (records : List Record) (owner : Owner) : Bytes :=
  match records.find? fun record => record.owner == owner with
  | some record => record.bytes
  | none => []

/-- The records can be written: the data file does not outgrow its numbers. -/
structure Fits (records : List Record) : Prop where
  /-- Every sector can be pointed to. -/
  sectors : 1 + (records.map Record.partCount).sum ≤ 2 ^ 24
  /-- The length of every record fits its locator. -/
  lengths : ∀ record ∈ records, record.bytes.length < 2 ^ 24

/-- Whether there is an index file for an archive. -/
def hasIndex (records : List Record) (archive : UInt8) : Bool :=
  archive == masterArchive || records.any (fun record => record.owner.archive == archive) ||
    (locator records ⟨masterArchive, archive.toUInt32⟩).startSector != 0

/-- The directory at a path. -/
def directory (path : String) (records : List Record) : Directory where
  path := path
  dataFile := .file (data records).bytes
  indexFile archive :=
    if hasIndex records archive then .file (index records archive).bytes else .missing

end Image

end SectorVault
