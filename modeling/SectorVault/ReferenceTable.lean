import SectorVault.Group
import SectorVault.ReferenceTable.Protocol
import Std.Data.TreeMap

/-!
# Reference tables

The reference table of an archive lists its groups in ascending order of their ids, and for each
group what is needed to find, check and split it.  A table also says how it was itself stored, and
once it is assembled it holds the stored bytes of all its groups.

A group is found by its id with a binary search, which finds the first of equal ids, and by the hash
of its name in a map, into which the first of equal hashes is entered.  A table without names has an
empty map, so there the hash of an absent name finds nothing.

What is searched are not the groups but their ids, which a table keeps in an array of their own, and it
is the group at the same place that is answered with.
-/

namespace SectorVault

/-! ## Flags -/

/-- Which optional columns a table has. -/
structure TableFlags where
  /-- Whether groups and files have names. -/
  names : Bool
  /-- Whether groups have digests. -/
  digests : Bool
  /-- Whether groups state lengths. -/
  lengths : Bool
  /-- Whether groups have checksums of their data. -/
  uncompressedCrcs : Bool
  deriving DecidableEq, Repr

/-- The flags in a byte, whose other bits mean nothing. -/
def TableFlags.ofByte (byte : UInt8) : TableFlags where
  names := byte.toNat.testBit 0
  digests := byte.toNat.testBit 1
  lengths := byte.toNat.testBit 2
  uncompressedCrcs := byte.toNat.testBit 3

/-! ## Tables -/

/-- The reference table of an archive. -/
structure ReferenceTable where
  /-- The archive that the table is of. -/
  archive : UInt8
  /-- The checksum of the stored table. -/
  crc : UInt32
  /-- The digest of the stored table. -/
  digest : Digest
  /-- How the stored table was compressed. -/
  compression : Compression
  /-- The protocol of the table. -/
  protocol : Protocol
  /-- The revision of the table. -/
  revision : Int32
  /-- Which optional columns the table has. -/
  flags : TableFlags
  /-- The groups in the order of their ordinals. -/
  groups : Array Group
  /-- The ids to be searched. -/
  ids : Array UInt32 := groups.map Group.id
  /-- The ids to be searched are those of the groups. -/
  ids_eq : ids = groups.map Group.id := by rfl
  /-- The ordinal of the first group with each hash of a name. -/
  byName : Std.TreeMap Int32 Nat

namespace ReferenceTable

/-- The number of groups. -/
def size (table : ReferenceTable) : Nat := table.groups.size

/-- One more than the last id, as far as a word can hold it; zero without groups. -/
def capacity (table : ReferenceTable) : UInt32 :=
  match table.ids.back? with
  | none => 0
  | some id => if id = 0xFFFFFFFF then id else id + 1

/-- The table with other groups, and with their ids. -/
def withGroups (table : ReferenceTable) (groups : Array Group) : ReferenceTable :=
  { table with
    groups := groups
    ids := groups.map Group.id
    ids_eq := rfl }

@[simp] theorem groups_withGroups (table : ReferenceTable) (groups : Array Group) :
    (table.withGroups groups).groups = groups := rfl

@[simp] theorem byName_withGroups (table : ReferenceTable) (groups : Array Group) :
    (table.withGroups groups).byName = table.byName := rfl

/-! ### Looking groups up -/

/-- Searches the ordinals from `low` up to `high` for the first id that is not below `id`. -/
def searchFrom (ids : Array UInt32) (id : UInt32) (low high : Nat) : Nat :=
  if low < high then
    let middle := (low + high) / 2
    match ids[middle]? with
    | some found =>
      if found < id then searchFrom ids id (middle + 1) high
      else searchFrom ids id low middle
    | none => searchFrom ids id low middle
  else low
  termination_by high - low

/-- The first group with an id. -/
def group? (table : ReferenceTable) (id : UInt32) : Option Group :=
  let ordinal := searchFrom table.ids id 0 table.ids.size
  match table.ids[ordinal]? with
  | some found => if found = id then table.groups[ordinal]? else none
  | none => none

/-- The first group whose name has a hash. -/
def groupHashed? (table : ReferenceTable) (hash : Int32) : Option Group :=
  match table.byName[hash]? with
  | some ordinal => table.groups[ordinal]?
  | none => none

/-- The first group with a name. -/
def groupNamed? (table : ReferenceTable) (name : String) : Option Group :=
  table.groupHashed? (nameHash name)

/-- The group at an ordinal. -/
def groupAt? (table : ReferenceTable) (ordinal : Nat) : Option Group :=
  table.groups[ordinal]?

end ReferenceTable

end SectorVault
