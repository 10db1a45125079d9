import SectorVault.ReferenceTable.Columns

/-!
# Writing reference tables

How a reference table is written: the same columns in the same order as they are read.  A column that
the flags leave out is not written, whatever the groups say, and reads back as its default.  The
groups, and the files of each group, have to be in ascending order of ids, since only differences are
written, and counts and differences have to be within what the protocol can hold.
-/

namespace SectorVault

/-- What a protocol can hold as a count, or as a difference of ids. -/
def Protocol.Fits (protocol : Protocol) (n : Nat) : Prop :=
  match protocol with
  | .unversioned | .versioned => n ≤ 0xFFFF
  | .variableWidth => n < 0x80000000

instance (protocol : Protocol) (n : Nat) : Decidable (protocol.Fits n) :=
  match protocol with
  | .unversioned | .versioned => inferInstanceAs (Decidable (n ≤ 0xFFFF))
  | .variableWidth => inferInstanceAs (Decidable (n < 0x80000000))

namespace ReferenceTable

/-- The ids of a list do not descend from `last` on, and their differences can be held. -/
def Ascends (protocol : Protocol) : Nat → List UInt32 → Prop
  | _, [] => True
  | last, id :: ids =>
    last ≤ id.toNat ∧ protocol.Fits (id.toNat - last) ∧ Ascends protocol id.toNat ids

instance decidableAscends (protocol : Protocol) :
    ∀ last ids, Decidable (Ascends protocol last ids)
  | _, [] => isTrue trivial
  | last, id :: ids =>
    have := decidableAscends protocol id.toNat ids
    inferInstanceAs (Decidable (last ≤ id.toNat ∧ protocol.Fits (id.toNat - last) ∧
      Ascends protocol id.toNat ids))

/-- The groups can be written as a table. -/
structure Encodable (protocol : Protocol) (groups : List Group) : Prop where
  /-- The number of groups can be held. -/
  count : protocol.Fits groups.length
  /-- The ids of the groups can be written. -/
  ids : Ascends protocol 0 (groups.map Group.id)
  /-- The number of files of every group can be held. -/
  fileCount : ∀ group ∈ groups, protocol.Fits group.files.length
  /-- The ids of the files of every group can be written. -/
  fileIds : ∀ group ∈ groups, Ascends protocol 0 (group.files.map FileLabel.id)

/-- The ids of a list, each as the difference to the one before, the first one to `last`. -/
def encodeIds (protocol : Protocol) : Nat → List UInt32 → Bytes
  | _, [] => []
  | last, id :: ids => protocol.encodeField (id.toNat - last) ++ encodeIds protocol id.toNat ids

/-- A column if it is there. -/
def encodeColumn (present : Bool) (field : Group → Bytes) (groups : List Group) : Bytes :=
  if present then groups.flatMap field else []

/-- The revision of a table, if tables of the protocol have one. -/
def encodeRevision (protocol : Protocol) (revision : Int32) : Bytes :=
  if protocol.hasRevision then ofSigned revision else []

/-- A digest; one that is lacking is written as zeros. -/
def encodeDigest (digest : Option Digest) : Bytes :=
  (digest.getD Digest.zero).toList

/-- The bytes of a table with the given groups, where `flags` is the byte of flags. -/
def encode (protocol : Protocol) (revision : Int32) (flags : UInt8) (groups : List Group) : Bytes :=
  let present := TableFlags.ofByte flags
  [protocol.number] ++ encodeRevision protocol revision ++ [flags] ++
    protocol.encodeField groups.length ++
    encodeIds protocol 0 (groups.map Group.id) ++
    encodeColumn present.names (fun group => ofSigned group.nameHash) groups ++
    encodeColumn true (fun group => ofWord group.crc) groups ++
    encodeColumn present.uncompressedCrcs (fun group => ofWord group.uncompressedCrc) groups ++
    encodeColumn present.digests (fun group => encodeDigest group.digest) groups ++
    encodeColumn present.lengths
      (fun group => ofWord group.length ++ ofWord group.uncompressedLength) groups ++
    encodeColumn true (fun group => ofSigned group.revision) groups ++
    encodeColumn true (fun group => protocol.encodeField group.files.length) groups ++
    encodeColumn true (fun group => encodeIds protocol 0 (group.files.map FileLabel.id)) groups ++
    encodeColumn present.names
      (fun group => group.files.flatMap fun file => ofSigned file.nameHash) groups

end ReferenceTable

end SectorVault
