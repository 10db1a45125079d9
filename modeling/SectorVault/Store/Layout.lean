import Mathlib
import SectorVault.Store.Image

/-!
# Layouts of cache directories

Nothing asks for the records of a directory to lie one behind the other.  A layout gives every record
sectors of its own, in any order and anywhere in the data file, and says what was in the file before:
the records are written over that, each part with its header into its sector, and all other bytes stay
as they are, those behind the parts and those of the sectors that nobody has been given included.

The index file of an archive has a given number of locators, that of a group at the group's id, and
zeros everywhere else.  There may be more of them than a word can count; then it is not all of them that
the file is taken to have (`Layout.isCounted`), and the records behind those are lost to the reader.
-/

namespace SectorVault

/-! ## Writing over a file -/

/-- Bytes with the offset in a file at which they are. -/
structure Piece where
  /-- Where the bytes start. -/
  offset : Nat
  /-- The bytes. -/
  bytes : Bytes
  deriving DecidableEq, Repr

namespace Piece

/-- The offset behind a piece. -/
def stop (piece : Piece) : Nat := piece.offset + piece.bytes.length

/-- Writes a piece over the bytes of a file. -/
def writeOver (file : Bytes) (piece : Piece) : Bytes :=
  file.take piece.offset ++ piece.bytes ++ file.drop piece.stop

/-- Writes pieces over the bytes of a file, from first to last. -/
def writeAllOver (file : Bytes) (pieces : List Piece) : Bytes :=
  pieces.foldl writeOver file

/-- The pieces have no byte of the file in common. -/
def Apart (piece other : Piece) : Prop :=
  piece.stop ≤ other.offset ∨ other.stop ≤ piece.offset

end Piece

/-! ## Records in any sectors -/

/-- A record and the sectors that it has been given. -/
structure Placement where
  /-- The record. -/
  record : Record
  /-- The sectors, in the order of the parts; those behind the last part are not used. -/
  sectors : List Nat
  deriving DecidableEq, Repr

namespace Placement

/-- Whose record it is. -/
def owner (placement : Placement) : Owner := placement.record.owner

/-- The sectors that have a part of the record. -/
def chain (placement : Placement) : List Nat :=
  placement.sectors.take placement.record.partCount

/-- The bytes that are written into the sector with a part: its header, which points to the sector with
the next part or to none, and the part. -/
def used (placement : Placement) (i : Nat) : Bytes :=
  placement.owner.encodeHeader (UInt16.ofNat i) (placement.chain[i + 1]?.getD 0) ++
    placement.record.part i

/-- What is written into the data file. -/
def pieces (placement : Placement) : List Piece :=
  placement.chain.zipIdx.map fun (sector, i) => ⟨Owner.sectorSize * sector, placement.used i⟩

/-- Where the record is. -/
def locator (placement : Placement) : Locator :=
  ⟨placement.chain.headD 0, placement.record.bytes.length⟩

end Placement

/-! ## Layouts -/

/-- Where the records of a cache directory are. -/
structure Layout where
  /-- The records with their sectors. -/
  placements : List Placement
  /-- What is in the data file before the records are written. -/
  background : Bytes
  /-- The number of locators in the index file of each archive. -/
  counts : UInt8 → Nat

namespace Layout

/-- The data file. -/
def data (layout : Layout) : DataFile where
  bytes := (Piece.writeAllOver layout.background
    (layout.placements.flatMap Placement.pieces)).toArray

/-- The record of a group with its sectors. -/
def placement? (layout : Layout) (owner : Owner) : Option Placement :=
  layout.placements.find? fun placement => placement.owner == owner

/-- The locator of a group, which is zero if there is no record of it. -/
def locator (layout : Layout) (owner : Owner) : Locator :=
  match layout.placement? owner with
  | some placement => placement.locator
  | none => ⟨0, 0⟩

/-- The locator at a place in the index file of an archive, which is zero behind that of the last id. -/
def locatorAt (layout : Layout) (archive : UInt8) (ordinal : Nat) : Locator :=
  if ordinal < 2 ^ 32 then layout.locator ⟨archive, UInt32.ofNat ordinal⟩ else ⟨0, 0⟩

/-- The index file of an archive. -/
def index (layout : Layout) (archive : UInt8) : IndexFile :=
  .ofLocators archive (layout.counts archive) (layout.locatorAt archive)

/-- The bytes of a group, which are none if there is no record of it. -/
def bytesOf (layout : Layout) (owner : Owner) : Bytes :=
  match layout.placement? owner with
  | some placement => placement.record.bytes
  | none => []

/-- Whether an archive is the master archive, or one that the master archive has a record of. -/
def isListed (layout : Layout) (archive : UInt8) : Bool :=
  archive == masterArchive || (layout.placement? ⟨masterArchive, archive.toUInt32⟩).isSome

/-- Whether the locator of a group is among those that its index file is taken to have. -/
def isCounted (layout : Layout) (owner : Owner) : Bool :=
  owner.group.toNat < layout.counts owner.archive % 2 ^ 32

/-- Whether an archive is the master archive, or one that the reader finds a record of there. -/
def isOpened (layout : Layout) (archive : UInt8) : Bool :=
  layout.isListed archive &&
    (archive == masterArchive || layout.isCounted ⟨masterArchive, archive.toUInt32⟩)

/-- The directory at a path.  What is under the names of index files that are not needed does not
matter. -/
def directory (layout : Layout) (path : String) (others : UInt8 → DirectoryEntry) : Directory where
  path := path
  dataFile := .file layout.data.bytes
  indexFile archive :=
    if layout.isListed archive then .file (layout.index archive).bytes else others archive

/-- The records can be where the layout has them. -/
structure Fits (layout : Layout) : Prop where
  /-- No two records are of the same group. -/
  owners : (layout.placements.map Placement.owner).Nodup
  /-- No record is empty. -/
  present : ∀ placement ∈ layout.placements, placement.record.bytes ≠ []
  /-- The length of every record fits its locator. -/
  lengths : ∀ placement ∈ layout.placements, placement.record.bytes.length < 2 ^ 24
  /-- The archive of every record is listed. -/
  listed : ∀ placement ∈ layout.placements, layout.isListed placement.owner.archive = true
  /-- The index file of its archive reaches every group. -/
  counted : ∀ placement ∈ layout.placements,
    placement.owner.group.toNat < layout.counts placement.owner.archive
  /-- There are enough sectors for every record. -/
  enough : ∀ placement ∈ layout.placements, placement.record.partCount ≤ placement.sectors.length
  /-- The first sector of the file is not given away. -/
  usable : ∀ placement ∈ layout.placements, ∀ sector ∈ placement.sectors, sector ≠ 0
  /-- Every sector can be pointed to. -/
  narrow : ∀ placement ∈ layout.placements, ∀ sector ∈ placement.sectors, sector < 2 ^ 24
  /-- No record has been given a sector twice. -/
  distinct : ∀ placement ∈ layout.placements, placement.sectors.Nodup
  /-- No two records have been given the same sector. -/
  disjoint : layout.placements.Pairwise fun placement other =>
    placement.sectors.Disjoint other.sectors
  /-- The data file reaches behind the part in every sector. -/
  room : ∀ placement ∈ layout.placements, ∀ piece ∈ placement.pieces,
    piece.stop ≤ layout.background.length
  /-- The sectors of the data file can be counted in a word. -/
  countable : layout.background.length / Owner.sectorSize < 2 ^ 32

end Layout

end SectorVault
