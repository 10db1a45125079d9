import Mathlib
import SectorVault.Proofs.Archive.Verification
import SectorVault.Proofs.Keys
import SectorVault.Proofs.ReferenceTable.Accepted
import SectorVault.Proofs.ReferenceTable.RoundTrip

/-!
# Reading by name

A name leads to a group, the group has an id, and what is read is the group which that id leads to.  The
two groups are the same unless an earlier group of the table has the same id, and nothing in a table
rules that out: a difference of ids may be zero.  So reading by name reads the first group with the id of
the named one (`readHashed_unchecked_iff`).

For a table that was read, whatever the stored bytes of its groups are, that comes to reading the named
group itself if and only if the named group is the first one of its id (`readHashed_named_iff`).  The
converse needs stored bytes that tell the two groups apart: if all but the named group are stored as a
container that is cut off, the named group reads as empty, and reading by name fails.
-/

namespace SectorVault

/-! ## Tables with stored bytes -/

namespace ReferenceTable

/-- A group with stored bytes from a source that goes by ordinals. -/
def storeGroup (stored : Nat → Bytes) (group : Group) : Group :=
  { group with raw := stored group.ordinal }

/-- A table whose groups have stored bytes from a source that goes by ordinals. -/
def storing (table : ReferenceTable) (stored : Nat → Bytes) : ReferenceTable :=
  table.withGroups (table.groups.map (storeGroup stored))

variable {table : ReferenceTable} (stored : Nat → Bytes)

@[simp] theorem id_storeGroup (group : Group) : (storeGroup stored group).id = group.id := rfl

theorem idsAscend_storing (ascend : IdsAscend table.groups.toList) :
    IdsAscend (table.storing stored).groups.toList := by
  rw [storing, groups_withGroups, Array.toList_map]
  exact List.pairwise_map.2 ascend

theorem group?_storing (ascend : IdsAscend table.groups.toList) (id : UInt32) :
    (table.storing stored).group? id = (table.group? id).map (storeGroup stored) := by
  rw [group?_eq_find? (idsAscend_storing stored ascend), group?_eq_find? ascend, storing,
    groups_withGroups, Array.toList_map, List.find?_map]
  rfl

theorem groupHashed?_storing (hash : Int32) :
    (table.storing stored).groupHashed? hash =
      (table.groupHashed? hash).map (storeGroup stored) := by
  unfold groupHashed? storing
  rw [byName_withGroups]
  cases table.byName[hash]? with
  | none => rfl
  | some ordinal => simp

theorem mem_of_groupHashed? {hash : Int32} {group : Group}
    (found : table.groupHashed? hash = some group) : group ∈ table.groups.toList := by
  unfold groupHashed? at found
  split at found
  · exact List.mem_of_getElem? (by simpa using found)
  · cases found

theorem mem_of_group? (ascend : IdsAscend table.groups.toList) {id : UInt32} {group : Group}
    (found : table.group? id = some group) : group ∈ table.groups.toList := by
  rw [group?_eq_find? ascend] at found
  exact List.mem_of_find?_eq_some found

theorem exists_group?_of_mem (ascend : IdsAscend table.groups.toList) {group : Group}
    (mem : group ∈ table.groups.toList) : ∃ first, table.group? group.id = some first := by
  rw [group?_eq_find? ascend, ← Option.isSome_iff_exists, List.find?_isSome]
  exact ⟨group, mem, by simp⟩

/-- Groups that are in order are told apart by their ordinals. -/
theorem InOrder.eq_of_ordinal_eq {groups : List Group} (inOrder : InOrder groups) {group other : Group}
    (mem : group ∈ groups) (mem' : other ∈ groups) (same : group.ordinal = other.ordinal) :
    group = other := by
  have ordered : (groups.map Group.ordinal).Pairwise (· < ·) := by
    rw [inOrder.ordinal_eq]
    exact List.pairwise_lt_range
  exact eq_of_key_eq Group.ordinal (fun _ => Nat.lt_irrefl _) (List.pairwise_map.1 ordered) mem mem'
    same

end ReferenceTable

/-! ## Two ways to be stored -/

namespace Group

variable {group : Group}

/-- A group that is stored as nothing has an empty file. -/
theorem exists_file_of_raw_eq_nil (empty : group.raw = []) (key : Option Key) :
    ∃ id found, group.file id key = .ok found ∧ found.data = [] := by
  have opened : openStored group.raw key = .ok none := by
    rw [empty]
    rfl
  let lone := Bundle.label (group.files.map FileLabel.id).toArray
    (group.files.map FileLabel.nameHash).toArray 0 []
  have split : group.split (group.dataOf none) = .ok [lone] := congrArg group.split empty
  have unpacks : group.unpack key = .ok ⟨group.id, key, [lone]⟩ :=
    unpack_eq_ok_iff.2 ⟨none, [lone], opened, split, rfl⟩
  refine ⟨lone.id, lone, file_eq_ok_iff.2 ⟨_, unpacks, ?_⟩, rfl⟩
  simp [Unpacked.file?]

/-- A container that is cut off. -/
def cutOff : Bytes := [0, 0, 0, 0, 1]

theorem file_ne_ok_of_cutOff (raw : group.raw = cutOff) (id : UInt32) (key : Option Key)
    (found : File) : group.file id key ≠ .ok found := by
  intro file
  obtain ⟨unpacked, unpacks, -⟩ := file_eq_ok_iff.1 file
  obtain ⟨container, files, opened, -⟩ := unpack_eq_ok_iff.1 unpacks
  have fails : openStored cutOff key = .error (.container (.truncated 1 0)) := rfl
  rw [raw, fails] at opened
  cases opened

end Group

/-- For two groups of a table there are stored bytes with which the one reads and the other does not. -/
theorem ReferenceTable.InOrder.exists_stored {groups : List Group}
    (inOrder : ReferenceTable.InOrder groups) {group other : Group} (mem : group ∈ groups)
    (mem' : other ∈ groups) (different : other ≠ group) :
    ∃ stored id found, (ReferenceTable.storeGroup stored group).file id none = .ok found ∧
      ∀ read, (ReferenceTable.storeGroup stored other).file id none ≠ .ok read := by
  have apart : other.ordinal ≠ group.ordinal := fun same =>
    different (inOrder.eq_of_ordinal_eq mem' mem same)
  let stored : Nat → Bytes := fun ordinal => if ordinal = group.ordinal then [] else Group.cutOff
  have empty : (ReferenceTable.storeGroup stored group).raw = [] := if_pos rfl
  obtain ⟨id, found, reads, -⟩ := Group.exists_file_of_raw_eq_nil empty none
  exact ⟨stored, id, found, reads, Group.file_ne_ok_of_cutOff (if_neg apart) id none⟩

/-! ## Reading by name -/

namespace Archive

open ReferenceTable

/-- Without checks, a group unpacks if its stored bytes do. -/
theorem unpackFresh_unchecked_iff {number : UInt8} {table : ReferenceTable} {id : UInt32}
    {key : Option Key} {unpacked : Unpacked} :
    (fresh number table {}).unpackFresh id key = .ok unpacked ↔
      ∃ group, table.group? id = some group ∧ group.unpack key = .ok unpacked := by
  rw [unpackFresh_eq_ok_iff]
  constructor
  · rintro ⟨group, container, listed, opened, -, split, group_eq, key_eq⟩
    refine ⟨group, listed, Group.unpack_eq_ok_iff.2 ⟨container, unpacked.files, opened, split, ?_⟩⟩
    rw [← group_eq, ← key_eq]
  · rintro ⟨group, listed, unpacks⟩
    obtain ⟨container, files, opened, split, rfl⟩ := Group.unpack_eq_ok_iff.1 unpacks
    exact ⟨group, container, listed, opened, ⟨nofun, nofun, nofun⟩, split, rfl, rfl⟩

theorem readHashed_unchecked_iff (number : UInt8) (table : ReferenceTable) (requests : List Request)
    (hash : Int32) (file : UInt32) (key : Option Key) (data : Bytes) :
    (((fresh number table {}).after requests).readHashed hash file key).1 = .ok data ↔
      ∃ named first found, table.groupHashed? hash = some named ∧
        table.group? named.id = some first ∧ first.file file key = .ok found ∧
        found.data = data := by
  rw [readHashed_after_eq_ok_iff]
  simp only [unpackFresh_unchecked_iff, Group.file_eq_ok_iff]
  constructor
  · rintro ⟨named, listed, unpacked, ⟨first, lookup, unpacks⟩, found, here, same⟩
    exact ⟨named, first, found, listed, lookup, ⟨unpacked, unpacks, here⟩, same⟩
  · rintro ⟨named, first, found, listed, lookup, ⟨unpacked, unpacks, here⟩, same⟩
    exact ⟨named, listed, unpacked, ⟨first, lookup, unpacks⟩, found, here, same⟩

/-- **When reading by name reads the named group.**  An archive over a table that was read, with any
stored bytes and whatever it has been asked for, reads by name the first group that has the id of the named
one.  That is always the named group itself exactly if no earlier group has its id. -/
theorem readHashed_named_iff {bytes : Bytes} {table : ReferenceTable}
    (accepted : ReferenceTable.read bytes = .ok table) (hash : Int32) :
    (∀ stored number requests file key data,
      (((fresh number (table.storing stored) {}).after requests).readHashed hash file key).1 =
          .ok data ↔
        ∃ named first found, (table.storing stored).groupHashed? hash = some named ∧
          (table.storing stored).group? named.id = some first ∧ first.file file key = .ok found ∧
          found.data = data) ∧
    ((∀ stored number requests file key data,
      (((fresh number (table.storing stored) {}).after requests).readHashed hash file key).1 =
          .ok data ↔
        ∃ named found, (table.storing stored).groupHashed? hash = some named ∧
          named.file file key = .ok found ∧ found.data = data) ↔
      ∀ named, table.groupHashed? hash = some named → table.group? named.id = some named) := by
  have inOrder := inOrder_of_read accepted
  refine ⟨fun stored number requests file key data =>
    readHashed_unchecked_iff number (table.storing stored) requests hash file key data, ?_⟩
  simp only [readHashed_unchecked_iff, groupHashed?_storing, Option.map_eq_some_iff]
  constructor
  · intro reads named listed
    have mem := mem_of_groupHashed? listed
    obtain ⟨first, lookup⟩ := exists_group?_of_mem inOrder.ascend mem
    rw [lookup]
    by_contra other
    have mem' := mem_of_group? inOrder.ascend lookup
    obtain ⟨stored, file, found, own, fails⟩ :=
      inOrder.exists_stored mem mem' fun same => other (congrArg some same)
    obtain ⟨_, _, served, ⟨named', listed', rfl⟩, lookup', serves, -⟩ :=
      (reads stored 0 [] file none found.data).2 ⟨_, found, ⟨named, listed, rfl⟩, own, rfl⟩
    obtain rfl : named = named' := Option.some.inj (listed.symm.trans listed')
    rw [group?_storing stored inOrder.ascend, id_storeGroup, lookup] at lookup'
    obtain rfl := Option.some.inj lookup'
    exact fails served serves
  · intro first stored number requests file key data
    have own : ∀ named, table.groupHashed? hash = some named →
        (table.storing stored).group? named.id = some (storeGroup stored named) := by
      intro named listed
      rw [group?_storing stored inOrder.ascend, first named listed]
      rfl
    constructor
    · rintro ⟨_, read, found, ⟨named, listed, rfl⟩, lookup, serves, same⟩
      obtain rfl := Option.some.inj ((own named listed).symm.trans lookup)
      exact ⟨_, found, ⟨named, listed, rfl⟩, serves, same⟩
    · rintro ⟨_, found, ⟨named, listed, rfl⟩, serves, same⟩
      exact ⟨_, _, found, ⟨named, listed, rfl⟩, own named listed, serves, same⟩

/-! ## Two groups and their ids -/

/-- Two groups with names of the hashes 1 and 2, of which the second one has a file 5 and a given id. -/
def namedPair (id : UInt32) : List Group :=
  [{ Group.blank 0 0 with nameHash := 1, files := [⟨0, unnamed⟩] },
    { Group.blank 1 id with nameHash := 2, files := [⟨5, unnamed⟩] }]

/-- The table of both groups. -/
def pairTable (id : UInt32) : ReferenceTable := ofGroups .unversioned 0 1 (namedPair id)

/-- The stored bytes of both groups, a container of the data `m0`. -/
def pairBytes : Bytes := [0, 0, 0, 0, 2, 0x6D, 0x30]

theorem read_namedPair {id : UInt32} (small : id.toNat ≤ 0xFFFF) :
    ReferenceTable.read (encode .unversioned 0 1 (namedPair id)) = .ok (pairTable id) := by
  have encodable : Encodable .unversioned (namedPair id) := by
    refine ⟨by simp [namedPair, Protocol.Fits], ?_, by simp [namedPair, Protocol.Fits],
      by simp [namedPair, Ascends, Protocol.Fits]⟩
    simpa [namedPair, Ascends, Protocol.Fits, Group.blank] using small
  have read := read_encode 0 1 encodable []
  rwa [List.append_nil] at read

theorem opened_pairBytes : openStored pairBytes none =
    .ok (some ⟨[0x6D, 0x30], .none, -1, crc32 pairBytes, 7⟩) := by
  decide +kernel

theorem unpack_of_pairBytes (group : Group) {label : FileLabel} (raw : group.raw = pairBytes)
    (lone : group.files = [label]) :
    group.unpack none = .ok ⟨group.id, none, [⟨label.id, label.nameHash, [0x6D, 0x30]⟩]⟩ := by
  have split : group.split [0x6D, 0x30] = .ok [⟨label.id, label.nameHash, [0x6D, 0x30]⟩] := by
    rw [Group.split, lone]
    rfl
  have opened := opened_pairBytes
  rw [← raw] at opened
  exact Group.unpack_eq_ok_iff.2 ⟨_, _, opened, split, rfl⟩

theorem groupHashed?_pairTable (id : UInt32) : (pairTable id).groupHashed? 2 =
    some { Group.blank 1 id with nameHash := 2, files := [⟨5, unnamed⟩] } := rfl

theorem group?_pairTable (id other : UInt32) :
    (pairTable id).group? other = (namedPair id).find? fun group => group.id == other := by
  have ascend : IdsAscend (pairTable id).groups.toList := by
    have zero : (0 : UInt32) ≤ id := UInt32.zero_le
    simpa [pairTable, ofGroups, keptGroups, namedPair, IdsAscend]
  rw [group?_eq_find? ascend]
  rfl

theorem file_pairTable (id : UInt32) : ∃ named,
    ((pairTable id).storing fun _ => pairBytes).groupHashed? 2 = some named ∧
      named.file 5 none = .ok ⟨5, unnamed, [0x6D, 0x30]⟩ := by
  rw [groupHashed?_storing, groupHashed?_pairTable]
  refine ⟨_, rfl, Group.file_eq_ok_iff.2 ⟨_, unpack_of_pairBytes _ rfl rfl, ?_⟩⟩
  rfl

/-- Two groups with different ids: the second one is read by its name. -/
theorem readHashed_of_distinct_ids :
    ReferenceTable.read (encode .unversioned 0 1 (namedPair 1)) = .ok (pairTable 1) ∧
      ((fresh 0 ((pairTable 1).storing fun _ => pairBytes) {}).readHashed 2 5 none).1 =
        .ok [0x6D, 0x30] := by
  have accepted : ReferenceTable.read (encode .unversioned 0 1 (namedPair 1)) = .ok (pairTable 1) :=
    read_namedPair (by decide)
  have first : ∀ named, (pairTable 1).groupHashed? 2 = some named →
      (pairTable 1).group? named.id = some named := by
    intro named listed
    obtain rfl := Option.some.inj ((groupHashed?_pairTable 1).symm.trans listed)
    rw [group?_pairTable]
    rfl
  obtain ⟨named, listed, serves⟩ := file_pairTable 1
  exact ⟨accepted, ((readHashed_named_iff accepted 2).2.2 first _ 0 [] 5 none _).2
    ⟨named, _, listed, serves, rfl⟩⟩

/-- Two groups with the same id: the name of the second one leads to the first one, which has no file 5. -/
theorem readHashed_of_repeated_id :
    ReferenceTable.read (encode .unversioned 0 1 (namedPair 0)) = .ok (pairTable 0) ∧
      ((fresh 0 ((pairTable 0).storing fun _ => pairBytes) {}).readHashed 2 5 none).1 =
        .error (.fileNotFound 0 0 5) ∧
      ∃ named, ((pairTable 0).storing fun _ => pairBytes).groupHashed? 2 = some named ∧
        named.file 5 none = .ok ⟨5, unnamed, [0x6D, 0x30]⟩ := by
  refine ⟨read_namedPair (by decide), ?_, file_pairTable 0⟩
  let first := storeGroup (fun _ => pairBytes) (namedPair 0)[0]
  let archive := fresh 0 ((pairTable 0).storing fun _ => pairBytes) {}
  have ascend := (inOrder_of_read (read_namedPair (by decide : (0 : UInt32).toNat ≤ 0xFFFF))).ascend
  have lookup : archive.table.group? 0 = some first := by
    refine (group?_storing _ ascend 0).trans ?_
    rw [group?_pairTable]
    rfl
  have unpacks : archive.unpackFresh 0 none = .ok ⟨0, none, [⟨0, unnamed, [0x6D, 0x30]⟩]⟩ :=
    unpackFresh_unchecked_iff.2 ⟨first, lookup, unpack_of_pairBytes first rfl rfl⟩
  have listed : archive.table.groupHashed? 2 = _ :=
    (groupHashed?_storing _ 2).trans (congrArg _ (groupHashed?_pairTable 0))
  rw [readHashed_of_listed listed, read_fst, file_eq, unpack_fst (memoSound_fresh _ _ _)]
  exact congrArg (fun answer => (answer.bind (archive.select 0 5)).map File.data) unpacks

end Archive
end SectorVault
