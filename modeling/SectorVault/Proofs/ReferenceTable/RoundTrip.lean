import Mathlib
import SectorVault.Proofs.ReferenceTable.Reading

/-!
# Reading undoes writing of reference tables

A table is written by columns, and reading passes over the groups once for each of them.  After every
pass the groups are filled in a little further, and the passes are followed with the groups as they
are to be written in hand: a column of a list of groups is read as a column of the items the list is
made from (`reads_column`), so what a group has been filled with so far and what is still to come are
both functions of the same item.

What comes out is not quite what went in.  A column that the flags leave out is lost, the stored bytes
are not part of a table, and the ordinals are counted afresh; `TableFlags.keep` is the group that is
left.  With that said, every table that can be written reads back, whatever follows it
(`reads_reader`).
-/

namespace SectorVault

/-! ## What a table keeps -/

/-- A group as a table with these flags keeps it, at an ordinal. -/
def TableFlags.keep (flags : TableFlags) (group : Group) (ordinal : Nat) : Group where
  ordinal := ordinal
  id := group.id
  nameHash := if flags.names then group.nameHash else unnamed
  crc := group.crc
  uncompressedCrc := if flags.uncompressedCrcs then group.uncompressedCrc else 0
  digest := if flags.digests then some (group.digest.getD Digest.zero) else none
  length := if flags.lengths then group.length else 0
  uncompressedLength := if flags.lengths then group.uncompressedLength else 0
  revision := group.revision
  files := group.files.map fun file =>
    ⟨file.id, if flags.names then file.nameHash else unnamed⟩
  raw := []

namespace ReferenceTable

/-- The groups as a table with some flags keeps them. -/
def keptGroups (flags : TableFlags) (groups : List Group) : List Group :=
  groups.zipIdx.map fun (group, ordinal) => flags.keep group ordinal

/-- The table that some groups are written as, as it reads back. -/
def ofGroups (protocol : Protocol) (revision : Int32) (flags : UInt8) (groups : List Group) :
    ReferenceTable :=
  let kept := keptGroups (TableFlags.ofByte flags) groups
  { archive := 0
    crc := 0
    digest := Digest.zero
    compression := .none
    protocol := protocol
    revision := if protocol.hasRevision then revision else 0
    flags := TableFlags.ofByte flags
    groups := kept.toArray
    byName := if (TableFlags.ofByte flags).names then enterNames kept else ∅ }

/-! ## Ids -/

theorem reads_idsFrom {protocol : Protocol} {last : Nat} {ids : List UInt32}
    (ascends : Ascends protocol last ids) (step ordinal : Nat) (done : List UInt32) :
    Reads (fun bytes => idsFrom protocol step ids.length ordinal last done bytes)
      (encodeIds protocol last ids) (done.reverse ++ ids) := by
  induction ids generalizing last ordinal done with
  | nil =>
    intro rest
    simp [idsFrom, encodeIds]
  | cons id ids ih =>
    intro rest
    obtain ⟨le, fits, ascends⟩ := ascends
    have field := Protocol.reads_field fits (encodeIds protocol id.toNat ids ++ rest)
    have sum : last + (id.toNat - last) = id.toNat := by omega
    have small : id.toNat < idRange := id.toNat_lt
    rw [List.length_cons, encodeIds, List.append_assoc]
    simp only [idsFrom, field, sum, small, if_true, UInt32.ofNat_toNat]
    have others := ih ascends (ordinal + step) (id :: done) rest
    simp only [others, List.reverse_cons, List.append_assoc, List.singleton_append]

theorem reads_groupIds {protocol : Protocol} {ids : List UInt32}
    (ascends : Ascends protocol 0 ids) :
    Reads (groupIds protocol ids.length) (encodeIds protocol 0 ids) ids :=
  reads_idsFrom ascends 1 0 []

theorem reads_fileIds {protocol : Protocol} {ids : List UInt32}
    (ascends : Ascends protocol 0 ids) (ordinal : Nat) :
    Reads (fileIds protocol ordinal ids.length) (encodeIds protocol 0 ids) ids :=
  reads_idsFrom ascends 0 ordinal []

/-! ## Columns -/

section Columns

variable {ι α : Type} (items : List ι) (current : ι → Group) {read : TableReader α}
  {bytes : ι → Bytes} {value : ι → α}

/-- A column is read as one of the items that the groups are made from.  What the groups are after the
column is given by an equation of its own, so that a group stays small however many columns have been
read. -/
theorem reads_column (enter : Group → α → Group)
    (reads : ∀ item ∈ items, Reads read (bytes item) (value item)) :
    ∃ after : ι → Group, (∀ item, after item = enter (current item) (value item)) ∧
      Reads (column read enter (items.map current)) (items.flatMap bytes) (items.map after) :=
  ⟨_, fun _ => rfl,
    TableReader.reads_each fun item h => (reads item h).map (enter (current item))⟩

theorem reads_columnIf (present : Bool) (enter : Group → α → Group)
    (reads : ∀ item ∈ items, Reads read (bytes item) (value item)) :
    ∃ after : ι → Group,
      (∀ item, after item =
        if present then enter (current item) (value item) else current item) ∧
      Reads (columnIf present read enter (items.map current))
        (if present then items.flatMap bytes else []) (items.map after) := by
  cases present with
  | false => exact ⟨current, fun _ => rfl, Reads.pure (items.map current)⟩
  | true => exact reads_column items current enter reads

end Columns

theorem reads_takeDigest (digest : Digest) : Reads takeDigest digest.toList digest := by
  intro rest
  have length : digest.toList.length = 64 := by simp
  have front : (digest.toList ++ rest).take 64 = digest.toList := List.take_left' length
  have back : (digest.toList ++ rest).drop 64 = rest := List.drop_left' length
  unfold takeDigest
  simp only [front, back, length, dite_true]
  congr 2

theorem reads_lengths (stored plain : UInt32) :
    Reads (do return (← TableReader.word, ← TableReader.word)) (ofWord stored ++ ofWord plain)
      (stored, plain) := by
  refine (TableReader.reads_word stored).bind ?_
  exact (TableReader.reads_word plain).map fun plain => (stored, plain)

section Files

variable {ι : Type} (items : List ι) (current : ι → Group)

theorem reads_fileColumn {protocol : Protocol} (ids : ι → List UInt32)
    (count : ∀ item ∈ items, protocol.Fits (ids item).length)
    (ascends : ∀ item ∈ items, Ascends protocol 0 (ids item)) :
    ∃ after : ι → Group,
      (∀ item, after item =
        { current item with files := (ids item).map fun id => ⟨id, unnamed⟩ }) ∧
      Reads (fileColumn protocol (items.map current))
        (items.flatMap (fun item => protocol.encodeField (ids item).length) ++
          items.flatMap fun item => encodeIds protocol 0 (ids item))
        (items.map after) := by
  refine ⟨_, fun _ => rfl, ?_⟩
  have counts : Reads (TableReader.each (items.map current) fun _ => protocol.field)
      (items.flatMap fun item => protocol.encodeField (ids item).length)
      (items.map fun item => (ids item).length) :=
    TableReader.reads_each fun item h => Protocol.reads_field (count item h)
  refine counts.bind ?_
  rw [List.zip_map']
  exact TableReader.reads_each fun item h =>
    (reads_fileIds (ascends item h) (current item).ordinal).map fun ids =>
      { current item with files := ids.map fun id => ⟨id, unnamed⟩ }

theorem reads_fileNames (group : Group) (files : List FileLabel)
    (ids : group.files = files.map fun file => ⟨file.id, unnamed⟩) :
    Reads (fileNames group) (files.flatMap fun file => ofSigned file.nameHash)
      { group with files := files } := by
  have names : Reads (TableReader.each group.files fun file => do
      return { file with nameHash := ← TableReader.signed })
      (files.flatMap fun file => ofSigned file.nameHash) (files.map fun file => file) := by
    rw [ids]
    exact TableReader.reads_each fun file _ =>
      (TableReader.reads_signed file.nameHash).map fun hash => (⟨file.id, hash⟩ : FileLabel)
  rw [List.map_id'] at names
  exact names.map fun files => { group with files := files }

theorem reads_fileNamesIf (present : Bool) (files : ι → List FileLabel)
    (ids : ∀ item ∈ items, (current item).files = (files item).map fun file => ⟨file.id, unnamed⟩) :
    ∃ after : ι → Group,
      (∀ item, after item =
        if present then { current item with files := files item } else current item) ∧
      Reads (if present then TableReader.each (items.map current) fileNames
          else pure (items.map current))
        (if present then
          items.flatMap fun item => (files item).flatMap fun file => ofSigned file.nameHash
          else [])
        (items.map after) := by
  cases present with
  | false => exact ⟨current, fun _ => rfl, Reads.pure (items.map current)⟩
  | true =>
    exact ⟨_, fun _ => rfl, TableReader.reads_each fun item h =>
      reads_fileNames (current item) (files item) (ids item h)⟩

end Files

/-! ## Whole tables -/

/-- A column of groups is one of the groups with their ordinals. -/
theorem flatMap_zipIdx (field : Group → Bytes) (groups : List Group) :
    groups.zipIdx.flatMap (fun item => field item.1) = groups.flatMap field := by
  have fst : groups.zipIdx.map Prod.fst = groups := List.zipIdx_map_fst 0 groups
  conv_rhs => rw [← fst, List.flatMap_map]

theorem reads_readGroups {protocol : Protocol} {groups : List Group} (flags : TableFlags)
    (encodable : Encodable protocol groups) :
    Reads (readGroups protocol flags groups.length)
      (encodeIds protocol 0 (groups.map Group.id) ++
        (encodeColumn flags.names (fun group => ofSigned group.nameHash) groups ++
        (encodeColumn true (fun group => ofWord group.crc) groups ++
        (encodeColumn flags.uncompressedCrcs (fun group => ofWord group.uncompressedCrc) groups ++
        (encodeColumn flags.digests (fun group => encodeDigest group.digest) groups ++
        (encodeColumn flags.lengths
          (fun group => ofWord group.length ++ ofWord group.uncompressedLength) groups ++
        (encodeColumn true (fun group => ofSigned group.revision) groups ++
        ((encodeColumn true (fun group => protocol.encodeField group.files.length) groups ++
          encodeColumn true
            (fun group => encodeIds protocol 0 (group.files.map FileLabel.id)) groups) ++
        encodeColumn flags.names
          (fun group => group.files.flatMap fun file => ofSigned file.nameHash) groups))))))))
      (keptGroups flags groups) := by
  have ids := reads_groupIds encodable.ids
  rw [List.length_map] at ids
  have mem : ∀ item ∈ groups.zipIdx, item.1 ∈ groups := fun item h => List.fst_mem_of_mem_zipIdx h
  -- the columns in turn, each over the groups as the one before has left them
  obtain ⟨g1, h1, names⟩ := reads_columnIf groups.zipIdx
    (fun item => Group.blank item.2 item.1.id) flags.names
    (fun group hash => { group with nameHash := hash })
    (fun item _ => TableReader.reads_signed item.1.nameHash)
  obtain ⟨g2, h2, crcs⟩ := reads_column groups.zipIdx g1
    (fun group crc => { group with crc := crc })
    (fun item _ => TableReader.reads_word item.1.crc)
  obtain ⟨g3, h3, plainCrcs⟩ := reads_columnIf groups.zipIdx g2 flags.uncompressedCrcs
    (fun group crc => { group with uncompressedCrc := crc })
    (fun item _ => TableReader.reads_word item.1.uncompressedCrc)
  obtain ⟨g4, h4, digests⟩ := reads_columnIf groups.zipIdx g3 flags.digests
    (fun group digest => { group with digest := some digest })
    (fun item _ => reads_takeDigest (item.1.digest.getD Digest.zero))
  obtain ⟨g5, h5, lengths⟩ := reads_columnIf groups.zipIdx g4 flags.lengths
    (fun group both => { group with length := both.1, uncompressedLength := both.2 })
    (fun item _ => reads_lengths item.1.length item.1.uncompressedLength)
  obtain ⟨g6, h6, revisions⟩ := reads_column groups.zipIdx g5
    (fun group revision => { group with revision := revision })
    (fun item _ => TableReader.reads_signed item.1.revision)
  obtain ⟨g7, h7, fileIds⟩ := reads_fileColumn groups.zipIdx g6
    (fun item => item.1.files.map FileLabel.id)
    (fun item h => by simpa using encodable.fileCount item.1 (mem item h))
    (fun item h => encodable.fileIds item.1 (mem item h))
  obtain ⟨g8, h8, fileNames⟩ := reads_fileNamesIf groups.zipIdx g7 flags.names
    (fun item => item.1.files) (fun item _ => by rw [h7, List.map_map]; rfl)
  have kept : groups.zipIdx.map g8 = keptGroups flags groups := by
    refine List.map_congr_left ?_
    rintro ⟨group, ordinal⟩ -
    obtain ⟨n, d, l, u⟩ := flags
    have s1 : g1 (group, ordinal) = { Group.blank ordinal group.id with
        nameHash := if n then group.nameHash else unnamed } := by
      rw [h1]
      cases n <;> rfl
    have s3 : g3 (group, ordinal) = { g1 (group, ordinal) with
        crc := group.crc
        uncompressedCrc := if u then group.uncompressedCrc else 0 } := by
      rw [h3, h2, s1]
      cases u <;> rfl
    have s4 : g4 (group, ordinal) = { g3 (group, ordinal) with
        digest := if d then some (group.digest.getD Digest.zero) else none } := by
      rw [h4, s3, s1]
      cases d <;> rfl
    have s6 : g6 (group, ordinal) = { g4 (group, ordinal) with
        length := if l then group.length else 0
        uncompressedLength := if l then group.uncompressedLength else 0
        revision := group.revision } := by
      rw [h6, h5, s4, s3, s1]
      cases l <;> rfl
    rw [h8, h7, s6, s4, s3, s1]
    cases n <;> simp [TableFlags.keep, Group.blank]
  simp only [List.length_map] at fileIds
  simp only [encodeColumn, ← flatMap_zipIdx, if_true]
  refine (ids.bind ?_).of_eq rfl kept
  simp only [List.zipIdx_map, List.map_map]
  exact names.bind (crcs.bind (plainCrcs.bind (digests.bind (lengths.bind
    (revisions.bind (fileIds.bind fileNames))))))

theorem reads_reader {protocol : Protocol} {groups : List Group} (revision : Int32) (flags : UInt8)
    (encodable : Encodable protocol groups) :
    Reads reader (encode protocol revision flags groups)
      (ofGroups protocol revision flags groups) := by
  have number : Reads (liftM (Protocol.ofNumber protocol.number)) [] protocol := by
    cases protocol <;> exact Reads.pure _
  have revisions : Reads (tableRevision protocol) (encodeRevision protocol revision)
      (if protocol.hasRevision then revision else 0) := by
    unfold tableRevision encodeRevision
    cases protocol.hasRevision with
    | false => exact Reads.pure 0
    | true => exact TableReader.reads_signed revision
  have count := Protocol.reads_field encodable.count
  have columns := reads_readGroups (TableFlags.ofByte flags) encodable
  unfold reader
  refine ((TableReader.reads_byte protocol.number).bind (number.bind (revisions.bind
    ((TableReader.reads_byte flags).bind (count.bind (columns.map _)))))).of_eq ?_ rfl
  simp only [encode, List.append_assoc, List.nil_append]

/-- Reading a table takes no notice of what follows it. -/
theorem read_encode {protocol : Protocol} {groups : List Group} (revision : Int32) (flags : UInt8)
    (encodable : Encodable protocol groups) (rest : Bytes) :
    read (encode protocol revision flags groups ++ rest) =
      .ok (ofGroups protocol revision flags groups) := by
  have taken := reads_reader revision flags encodable rest
  unfold read
  rw [StateT.run, taken]
  rfl

/-- **Reading undoes writing of reference tables**, column by column: what the flags leave out reads as if
nothing were known of it, and all the rest reads as it was written. -/
theorem read_written_columns {protocol : Protocol} {groups : List Group}
    (encodable : Encodable protocol groups) (revision : Int32) (flags : UInt8) (rest : Bytes) :
    ∃ table, read (encode protocol revision flags groups ++ rest) = .ok table ∧
      table.protocol = protocol ∧
      table.revision = (if protocol = .unversioned then 0 else revision) ∧
      table.flags.names = flags.toNat.testBit 0 ∧
      table.flags.digests = flags.toNat.testBit 1 ∧
      table.flags.lengths = flags.toNat.testBit 2 ∧
      table.flags.uncompressedCrcs = flags.toNat.testBit 3 ∧
      table.groups.toList = groups.zipIdx.map fun (group, ordinal) => {
        ordinal := ordinal
        id := group.id
        nameHash := if flags.toNat.testBit 0 then group.nameHash else -1
        crc := group.crc
        uncompressedCrc := if flags.toNat.testBit 3 then group.uncompressedCrc else 0
        digest := if flags.toNat.testBit 1 then some (group.digest.getD Digest.zero) else none
        length := if flags.toNat.testBit 2 then group.length else 0
        uncompressedLength := if flags.toNat.testBit 2 then group.uncompressedLength else 0
        revision := group.revision
        files := group.files.map fun file =>
          ⟨file.id, if flags.toNat.testBit 0 then file.nameHash else -1⟩
        raw := [] } := by
  refine ⟨_, read_encode revision flags encodable rest, rfl, ?_, rfl, rfl, rfl, rfl, rfl⟩
  cases protocol with
  | unversioned => rfl
  | versioned => rfl
  | variableWidth => rfl

/-- Two groups with two ids far apart, the second of them with two files of one id. -/
def distantGroups : List Group :=
  [{ Group.blank 0 3 with nameHash := 9, crc := 1, length := 40, files := [⟨70000, 5⟩] },
    { Group.blank 0 90000 with revision := -2, uncompressedCrc := 8, files := [⟨1, 6⟩, ⟨1, 7⟩] }]

theorem read_written_distantGroups :
    Encodable .variableWidth distantGroups ∧
      ∃ table, read (encode .variableWidth (-3) 0xA5 distantGroups ++ [1, 2, 3]) = .ok table ∧
        table.revision = -3 ∧ table.flags = ⟨true, false, true, false⟩ ∧
        table.groups.toList.map Group.nameHash = [9, -1] ∧
        table.groups.toList.map Group.uncompressedCrc = [0, 0] ∧
        table.groups.toList.map Group.files = [[⟨70000, 5⟩], [⟨1, 6⟩, ⟨1, 7⟩]] := by
  have encodable : Encodable .variableWidth distantGroups :=
    ⟨by decide, by decide, by decide, by decide⟩
  obtain ⟨table, ok, -, revision, names, digests, lengths, plainCrcs, groups⟩ :=
    read_written_columns encodable (-3) 0xA5 [1, 2, 3]
  refine ⟨encodable, table, ok, revision, ?_, ?_, ?_, ?_⟩
  · rw [TableFlags.mk.injEq, names, digests, lengths, plainCrcs]
    decide
  · rw [groups]
    rfl
  · rw [groups]
    rfl
  · rw [groups]
    rfl

/-! ## The length of a table -/

theorem length_encodeField_le (protocol : Protocol) (n : Nat) :
    (protocol.encodeField n).length ≤ 4 := by
  unfold Protocol.encodeField
  cases protocol with
  | unversioned | versioned => simp
  | variableWidth => simp only; split <;> simp

theorem length_encodeIds_le (protocol : Protocol) (last : Nat) (ids : List UInt32) :
    (encodeIds protocol last ids).length ≤ 4 * ids.length := by
  induction ids generalizing last with
  | nil => simp [encodeIds]
  | cons id ids ih =>
    have field := length_encodeField_le protocol (id.toNat - last)
    have others := ih id.toNat
    rw [encodeIds, List.length_append, List.length_cons]
    omega

/-- A column is no longer than its fields may be together. -/
theorem length_encodeColumn_le (present : Bool) {field : Group → Bytes} {bound : Group → Nat}
    {groups : List Group} (short : ∀ group, (field group).length ≤ bound group) :
    (encodeColumn present field groups).length ≤ (groups.map bound).sum := by
  cases present with
  | false => simp [encodeColumn]
  | true =>
    rw [encodeColumn, if_pos rfl, List.length_flatMap]
    exact List.sum_le_sum fun group _ => short group

/-- A table takes at most 96 bytes for a group, 8 for a file, and 10 for itself. -/
theorem length_encode_le (protocol : Protocol) (revision : Int32) (flags : UInt8)
    (groups : List Group) :
    (encode protocol revision flags groups).length ≤
      10 + 96 * groups.length + 8 * (groups.map fun group => group.files.length).sum := by
  have head : (encodeRevision protocol revision).length ≤ 4 := by
    unfold encodeRevision
    split <;> simp
  have count := length_encodeField_le protocol groups.length
  have ids := length_encodeIds_le protocol 0 (groups.map Group.id)
  have fixed : ∀ (present : Bool) (field : Group → Bytes) (size : Nat),
      (∀ group, (field group).length ≤ size) →
        (encodeColumn present field groups).length ≤ size * groups.length := by
    intro present field size short
    have sum : (encodeColumn present field groups).length ≤ _ :=
      length_encodeColumn_le present short
    rwa [List.map_const', List.sum_replicate, smul_eq_mul, Nat.mul_comm] at sum
  have perFile : ∀ (present : Bool) (field : Group → Bytes),
      (∀ group, (field group).length ≤ 4 * group.files.length) →
        (encodeColumn present field groups).length ≤
          4 * (groups.map fun group => group.files.length).sum := by
    intro present field short
    have sum : (encodeColumn present field groups).length ≤ _ :=
      length_encodeColumn_le present short
    rwa [List.sum_map_mul_left] at sum
  have names := fixed (TableFlags.ofByte flags).names
    (fun group => ofSigned group.nameHash) 4 (by simp)
  have crcs := fixed true (fun group => ofWord group.crc) 4 (by simp)
  have plainCrcs := fixed (TableFlags.ofByte flags).uncompressedCrcs
    (fun group => ofWord group.uncompressedCrc) 4 (by simp)
  have digests := fixed (TableFlags.ofByte flags).digests
    (fun group => encodeDigest group.digest) 64 (by simp [encodeDigest])
  have lengths := fixed (TableFlags.ofByte flags).lengths
    (fun group => ofWord group.length ++ ofWord group.uncompressedLength) 8 (by simp)
  have revisions := fixed true (fun group => ofSigned group.revision) 4 (by simp)
  have counts := fixed true (fun group => protocol.encodeField group.files.length) 4
    fun group => length_encodeField_le protocol _
  have fileIds := perFile true (fun group => encodeIds protocol 0 (group.files.map FileLabel.id))
    fun group => by
      have := length_encodeIds_le protocol 0 (group.files.map FileLabel.id)
      rwa [List.length_map] at this
  have fileNames := perFile (TableFlags.ofByte flags).names
    (fun group => group.files.flatMap fun file => ofSigned file.nameHash)
    fun group => by simp [List.length_flatMap, Nat.mul_comm]
  rw [List.length_map] at ids
  simp only [encode, List.length_append, List.length_singleton]
  omega

end ReferenceTable
end SectorVault
