import SectorVault.Checksum.Whirlpool
import SectorVault.Group.Nested

/-!
# Groups

A group is the unit of storage: the bytes of one record, which hold one or more files.  What is known
of a group besides its bytes comes from the reference table of its archive: ids, hashes of names,
checksums, and the labels of its files.

Unpacking a group decodes its bytes and splits the result along the group's own labels.  Between the
two a check of the caller's choice is run; it sees the container, if the bytes were one, and the
data.  Files are found by id or by name, and where ids or names repeat, the first file in the order
of ordinals is meant.
-/

namespace SectorVault

/-- What a reference table says of one file. -/
structure FileLabel where
  /-- The file's id within its group. -/
  id : UInt32
  /-- The hash of the file's name. -/
  nameHash : Int32
  deriving DecidableEq, Repr

/-- What a reference table says of one group, and the group's stored bytes. -/
structure Group where
  /-- The place of the group in its table. -/
  ordinal : Nat
  /-- The group's id within its archive. -/
  id : UInt32
  /-- The hash of the group's name. -/
  nameHash : Int32
  /-- The checksum of the stored bytes. -/
  crc : UInt32
  /-- The checksum of the data before it was put into a container. -/
  uncompressedCrc : UInt32
  /-- The digest of the stored bytes, if there is one. -/
  digest : Option Digest
  /-- The stated length of the stored bytes. -/
  length : UInt32
  /-- The stated length of the data. -/
  uncompressedLength : UInt32
  /-- The revision of the group. -/
  revision : Int32
  /-- The labels of the files. -/
  files : List FileLabel
  /-- The stored bytes. -/
  raw : Bytes

/-- The files of a group once they are unpacked. -/
structure Unpacked where
  /-- The id of the group. -/
  group : UInt32
  /-- The key the group was unpacked with. -/
  key : Option Key
  /-- The files in the order of their ordinals. -/
  files : List File
  deriving DecidableEq, Repr

namespace Unpacked

/-- The first file with an id. -/
def file? (unpacked : Unpacked) (id : UInt32) : Option File :=
  unpacked.files.find? fun file => file.id == id

/-- The first file whose name has a hash. -/
def fileHashed? (unpacked : Unpacked) (hash : Int32) : Option File :=
  unpacked.files.find? fun file => file.nameHash == hash

/-- The first file with a name. -/
def fileNamed? (unpacked : Unpacked) (name : String) : Option File :=
  unpacked.fileHashed? (nameHash name)

/-- The file at an ordinal. -/
def fileAt? (unpacked : Unpacked) (ordinal : Nat) : Option File :=
  unpacked.files[ordinal]?

end Unpacked

namespace Group

/-- A group of which only the place and the id are known. -/
def blank (ordinal : Nat) (id : UInt32) : Group where
  ordinal := ordinal
  id := id
  nameHash := unnamed
  crc := 0
  uncompressedCrc := 0
  digest := none
  length := 0
  uncompressedLength := 0
  revision := 0
  files := []
  raw := []

/-- Splits the data of a group along its labels. -/
def split (group : Group) (data : Bytes) : Except GroupError (List File) :=
  let ids := (group.files.map FileLabel.id).toArray
  let nameHashes := (group.files.map FileLabel.nameHash).toArray
  Splitter.split data ids nameHashes (UInt64.ofNat group.files.length)

/-- Unpacks a group.  Before its data is split, `verify` sees the container, if the stored bytes are
one, and the data; `lift` turns the failures of unpacking into those of the check. -/
def unpackWith {ε : Type} (group : Group) (key : Option Key) (lift : GroupError → ε)
    (verify : Option Container → Bytes → Except ε Unit) : Except ε Unpacked := do
  let container ← (openStored group.raw key).mapError lift
  let data := match container with
    | some container => container.data
    | none => group.raw
  verify container data
  let files ← (group.split data).mapError lift
  return ⟨group.id, key, files⟩

/-- Unpacks a group without any check. -/
def unpack (group : Group) (key : Option Key) : Except GroupError Unpacked :=
  group.unpackWith key (fun error => error) fun _ _ => .ok ()

/-- The first file with an id. -/
def file (group : Group) (id : UInt32) (key : Option Key) : Except GroupError File := do
  match (← group.unpack key).file? id with
  | some file => return file
  | none => throw (.fileNotFound group.id id)

/-- The first file with a name. -/
def fileNamed (group : Group) (name : String) (key : Option Key) : Except GroupError File := do
  match (← group.unpack key).fileNamed? name with
  | some file => return file
  | none => throw (.namedFileNotFound group.id (SectorVault.nameHash name))

end Group

end SectorVault
