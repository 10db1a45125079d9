import SectorVault.ReferenceTable

/-!
# Reading reference tables

A reference table is stored by columns.  After the protocol, the revision, a byte of flags and the
number of groups come

* the ids, each as the difference to the one before,
* the hashes of names, if the flags say so,
* the checksums of the stored groups,
* the checksums of their data, if the flags say so,
* the digests, if the flags say so,
* the lengths, stored and of the data, if the flags say so,
* the revisions,
* the numbers of files,
* the ids of the files of each group, as differences that start afresh in every group,
* the hashes of the names of the files, if the flags say so.

So reading a table is one pass over the groups for each column (`column`), and a column that is not
there leaves the groups as they are.

## Ids

Ids are sums of differences, which are never negative, so they ascend; two groups, or two files of a
group, may still have the same one.  A sum beyond the range of ids is an error, which names the
group.
-/

namespace SectorVault

namespace ReferenceTable

/-! ## Ids -/

/-- The number of values that an id can have. -/
def idRange : Nat := UInt32.size

/-- Reads `count` more ids, each as the difference to the one before, which is `last`.  The ids are
those of groups from ordinal `ordinal` on, or those of the files of one group; `step` is accordingly
one or zero.  `done` holds the ids already read, the last one first. -/
def idsFrom (protocol : Protocol) (step : Nat) :
    Nat → Nat → Nat → List UInt32 → Bytes → Except TableError (List UInt32 × Bytes)
  | 0, _, _, done, bytes => .ok (done.reverse, bytes)
  | count + 1, ordinal, last, done, bytes =>
    match protocol.field bytes with
    | .error error => .error error
    | .ok (difference, rest) =>
      let id := last + difference
      if id < idRange then
        idsFrom protocol step count (ordinal + step) id (UInt32.ofNat id :: done) rest
      else .error (.idOverflow ordinal)

/-- Reads the ids of `count` groups. -/
def groupIds (protocol : Protocol) (count : Nat) : TableReader (List UInt32) :=
  fun bytes => idsFrom protocol 1 count 0 0 [] bytes

/-- Reads the ids of the `count` files of the group at an ordinal. -/
def fileIds (protocol : Protocol) (ordinal count : Nat) : TableReader (List UInt32) :=
  fun bytes => idsFrom protocol 0 count ordinal 0 [] bytes

/-! ## Columns -/

/-- Takes a digest. -/
def takeDigest : TableReader Digest := fun bytes =>
  if h : (bytes.take 64).length = 64 then
    .ok (⟨(bytes.take 64).toArray, by simpa using h⟩, bytes.drop 64)
  else .error .truncated

/-- Reads a column: for every group what `read` reads is entered by `enter`. -/
def column {α : Type} (read : TableReader α) (enter : Group → α → Group) (groups : List Group) :
    TableReader (List Group) :=
  TableReader.each groups fun group => do
    return enter group (← read)

/-- Reads a column if it is there. -/
def columnIf {α : Type} (present : Bool) (read : TableReader α) (enter : Group → α → Group)
    (groups : List Group) : TableReader (List Group) :=
  if present then column read enter groups else pure groups

/-- Reads the numbers of files of all groups, and then their ids. -/
def fileColumn (protocol : Protocol) (groups : List Group) : TableReader (List Group) := do
  let counts ← TableReader.each groups fun _ => protocol.field
  TableReader.each (groups.zip counts) fun (group, count) => do
    let ids ← fileIds protocol group.ordinal count
    return { group with files := ids.map fun id => ⟨id, unnamed⟩ }

/-- Reads the hashes of the names of a group's files. -/
def fileNames (group : Group) : TableReader Group := do
  let files ← TableReader.each group.files fun file => do
    return { file with nameHash := ← TableReader.signed }
  return { group with files := files }

/-- Reads all columns of a table of `count` groups. -/
def readGroups (protocol : Protocol) (flags : TableFlags) (count : Nat) :
    TableReader (List Group) := do
  let ids ← groupIds protocol count
  let groups := ids.zipIdx.map fun (id, ordinal) => Group.blank ordinal id
  let groups ← columnIf flags.names TableReader.signed
    (fun group hash => { group with nameHash := hash }) groups
  let groups ← column TableReader.word
    (fun group crc => { group with crc := crc }) groups
  let groups ← columnIf flags.uncompressedCrcs TableReader.word
    (fun group crc => { group with uncompressedCrc := crc }) groups
  let groups ← columnIf flags.digests takeDigest
    (fun group digest => { group with digest := some digest }) groups
  let groups ← columnIf flags.lengths (do return (← TableReader.word, ← TableReader.word))
    (fun group (stored, plain) => { group with length := stored, uncompressedLength := plain })
    groups
  let groups ← column TableReader.signed
    (fun group revision => { group with revision := revision }) groups
  let groups ← fileColumn protocol groups
  if flags.names then TableReader.each groups fileNames else pure groups

/-! ## Tables -/

/-- Enters groups into a map from hashes of names to ordinals, where the first entry stands. -/
def enterNames (groups : List Group) : Std.TreeMap Int32 Nat :=
  groups.foldl (fun names group => names.insertIfNew group.nameHash group.ordinal) ∅

/-- Reads the revision of a table, which is zero if tables of the protocol have none. -/
def tableRevision (protocol : Protocol) : TableReader Int32 :=
  if protocol.hasRevision then TableReader.signed else pure 0

/-- Reads a table.  What is known of its stored form only is left open. -/
def reader : TableReader ReferenceTable := do
  let number ← TableReader.byte
  let protocol ← liftM (Protocol.ofNumber number)
  let revision ← tableRevision protocol
  let flags := TableFlags.ofByte (← TableReader.byte)
  let count ← protocol.field
  let groups ← readGroups protocol flags count
  return {
    archive := 0
    crc := 0
    digest := Digest.zero
    compression := .none
    protocol := protocol
    revision := revision
    flags := flags
    groups := groups.toArray
    byName := if flags.names then enterNames groups else ∅ }

/-- The table a byte string starts with. -/
def read (bytes : Bytes) : Except TableError ReferenceTable :=
  (reader.run bytes).map Prod.fst

end ReferenceTable

end SectorVault
