import Mathlib
import SectorVault.Proofs.ReferenceTable.Accepted
import SectorVault.ReferenceTable.Assembly

/-!
# Lookups are scans

A table is searched in three ways: by the place of a group, by its id with a binary search, and by the hash of
its name in a map.  All three find what going through the groups from first to last would find, in every
table that is read or assembled, whether or not ids and hashes repeat.

Nothing checks that the table is fit for being searched.  It is fit because of how it is read (`Searchable`):
the ids are running sums, so neither those of the groups nor those of the files of one group descend; the
groups are numbered as they come; and the map is filled with the groups from first to last, where a hash that
is there already stays with the group that it was entered for (`getElem?_enterNames`).  Assembling changes
nothing but the stored bytes of the groups, and no lookup looks at these.
-/

namespace SectorVault
namespace ReferenceTable

variable {groups : List Group}

/-! ## Names -/

theorem getElem?_foldl_enterName (groups : List Group) (names : Std.TreeMap Int32 Nat) (hash : Int32) :
    (groups.foldl (fun names group => names.insertIfNew group.nameHash group.ordinal) names)[hash]? =
      names[hash]?.or ((groups.find? fun group => group.nameHash == hash).map Group.ordinal) := by
  induction groups generalizing names with
  | nil => simp
  | cons group groups ih =>
    rw [List.foldl_cons, ih, Std.TreeMap.getElem?_insertIfNew, List.find?_cons]
    by_cases same : group.nameHash = hash
    · subst same
      by_cases known : group.nameHash ∈ names
      · simp [known]
      · simp [known]
    · have other : (group.nameHash == hash) = false := beq_false_of_ne same
      simp [same, other]

/-- The map leads from a hash to the first group whose name has it. -/
theorem getElem?_enterNames (groups : List Group) (hash : Int32) :
    (enterNames groups)[hash]? =
      (groups.find? fun group => group.nameHash == hash).map Group.ordinal := by
  rw [enterNames, getElem?_foldl_enterName]
  simp

/-- Only hashes and ordinals are entered. -/
theorem enterNames_congr {groups' : List Group}
    (same : groups'.map (fun group => (group.nameHash, group.ordinal)) =
      groups.map fun group => (group.nameHash, group.ordinal)) :
    enterNames groups' = enterNames groups := by
  have entries : ∀ groups : List Group, enterNames groups =
      (groups.map fun group => (group.nameHash, group.ordinal)).foldl
        (fun names entry => names.insertIfNew entry.1 entry.2) ∅ := by
    intro groups
    rw [enterNames, List.foldl_map]
  rw [entries, same, ← entries]

/-- Groups that are in order are found at their ordinals. -/
theorem InOrder.getElem?_ordinal (inOrder : InOrder groups) {group : Group} (mem : group ∈ groups) :
    groups[group.ordinal]? = some group := by
  obtain ⟨before, behind, rfl⟩ := List.append_of_mem mem
  rw [inOrder.ordinal_of_append]
  simp

theorem InOrder.ordinal_getElem (inOrder : InOrder groups) {ordinal : Nat}
    (inside : ordinal < groups.length) : groups[ordinal].ordinal = ordinal := by
  have numbered := congrArg (fun ordinals => ordinals[ordinal]?) inOrder.ordinal_eq
  simpa [inside] using numbered

/-! ## Files -/

/-- The ids of the files of a group do not descend. -/
def FilesAscend (group : Group) : Prop :=
  group.files.Pairwise fun file later => file.id ≤ later.id

theorem filesAscend_iff {group : Group} :
    FilesAscend group ↔ (group.files.map FileLabel.id).Pairwise (· ≤ ·) :=
  List.pairwise_map.symm

theorem ensures_fileIds (protocol : Protocol) (ordinal count : Nat) :
    Ensures (fileIds protocol ordinal count) fun ids => ids.Pairwise (· ≤ ·) := by
  intro bytes ids rest read
  obtain ⟨more, rfl, -, ascend, -⟩ := ensures_idsFrom read
  exact ascend

theorem ensures_filesAscend_fileColumn (protocol : Protocol) :
    Ensures (fileColumn protocol groups) fun listed => ∀ group ∈ listed, FilesAscend group := by
  refine (Ensures.trivial _).bind fun counts _ => Ensures.forall_each fun item _ => ?_
  refine (ensures_fileIds protocol item.1.ordinal item.2).bind fun ids ascend => .pure ?_
  rw [filesAscend_iff, List.map_map]
  simpa [Function.comp_def] using ascend

theorem ensures_filesAscend_fileNames {group : Group} (ascend : FilesAscend group) :
    Ensures (fileNames group) FilesAscend := by
  refine (ensures_ids_fileNames group).mono fun named same => ?_
  rw [filesAscend_iff] at ascend ⊢
  exact same ▸ ascend

theorem ensures_filesAscend_readGroups (protocol : Protocol) (flags : TableFlags) (count : Nat) :
    Ensures (readGroups protocol flags count) fun groups => ∀ group ∈ groups, FilesAscend group := by
  refine ensures_readGroups_of_fileColumn (fun groups => ensures_filesAscend_fileColumn protocol)
    (fun _ groups ascend => ?_) count
  exact Ensures.forall_each fun group mem => ensures_filesAscend_fileNames (ascend group mem)

/-! ## Tables -/

/-- A table is fit for being searched. -/
structure Searchable (table : ReferenceTable) : Prop where
  /-- The groups are at their ordinals, in ascending order of ids. -/
  inOrder : InOrder table.groups.toList
  /-- The ids of the files of each group do not descend. -/
  files : ∀ group ∈ table.groups.toList, FilesAscend group
  /-- The names are those of the groups, if there are names. -/
  names : table.byName = if table.flags.names then enterNames table.groups.toList else ∅

theorem searchable_of_read {bytes : Bytes} {table : ReferenceTable}
    (accepted : read bytes = .ok table) : Searchable table := by
  refine holds_of_read (fun protocol flags count => ?_) accepted
  have groups := (ensures_readGroups protocol flags count).and
    (ensures_filesAscend_readGroups protocol flags count)
  refine groups.mono ?_
  rintro _ ⟨inOrder, files⟩ table rfl rfl names
  exact ⟨inOrder, files, names⟩

/-! ### Assembling -/

/-- A group as it is listed, without its stored bytes. -/
def unstored (group : Group) : Group := { group with raw := [] }

/-- Fetching enters nothing but stored bytes. -/
theorem map_unstored_of_fetchFrom {σ ε : Type} {source : Nat → UInt32 → σ → Except ε Bytes × σ}
    {done fetched : List Group} {state : σ}
    (all : (fetchFrom source groups done state).1 = .ok fetched) :
    fetched.map unstored = done.reverse.map unstored ++ groups.map unstored := by
  induction groups generalizing done state with
  | nil =>
    cases all
    simp
  | cons group groups ih =>
    unfold fetchFrom at all
    split at all
    · rw [ih all]
      simp [unstored]
    · cases all

theorem Searchable.of_unstored {table table' : ReferenceTable} (searchable : Searchable table)
    (same : table'.groups.toList.map unstored = table.groups.toList.map unstored)
    (flags : table'.flags = table.flags) (names : table'.byName = table.byName) :
    Searchable table' := by
  have frames := congrArg (List.map frame) same
  have entries := congrArg (List.map fun group => (group.nameHash, group.ordinal)) same
  simp only [List.map_map] at frames entries
  refine ⟨searchable.inOrder.of_frames frames, fun group mem => ?_, ?_⟩
  · -- the group is one of the other table's but for its stored bytes
    have mem' : unstored group ∈ table.groups.toList.map unstored :=
      same ▸ List.mem_map_of_mem mem
    obtain ⟨listed, listed_mem, eq⟩ := List.mem_map.1 mem'
    have files : (unstored listed).files = (unstored group).files := congrArg Group.files eq
    unfold FilesAscend
    exact (show listed.files = group.files from files) ▸ searchable.files listed listed_mem
  · rw [names, searchable.names, flags, enterNames_congr entries]

/-- The tables that there are: those that are read, and those that are assembled. -/
inductive Built (table : ReferenceTable) : Prop
  | read (bytes : Bytes) (accepted : ReferenceTable.read bytes = .ok table)
  | assembled {σ ε : Type} (archive : UInt8) (container : Container) (digest : Digest)
    (lift : TableError → ε) (source : Nat → UInt32 → σ → Except ε Bytes × σ) (state : σ)
    (assembled : (assemble archive container digest lift source state).1 = .ok table)

theorem Built.searchable {table : ReferenceTable} (built : Built table) : Searchable table := by
  cases built with
  | read bytes accepted => exact searchable_of_read accepted
  | assembled archive container digest lift source state assembled =>
    unfold assemble at assembled
    split at assembled
    · cases assembled
    · next listed accepted =>
      split at assembled
      · cases assembled
      · next groups state' fetched =>
        cases assembled
        have all : (fetchFrom source listed.groups.toList [] state).1 = .ok groups := by
          rw [fetched]
        exact (searchable_of_read accepted).of_unstored (map_unstored_of_fetchFrom all) rfl rfl

/-! ### Lookups -/

theorem Searchable.groupHashed?_eq {table : ReferenceTable} (searchable : Searchable table)
    (hash : Int32) :
    table.groupHashed? hash =
      if table.flags.names then table.groups.toList.find? fun group => group.nameHash == hash
      else none := by
  unfold groupHashed?
  rw [searchable.names]
  cases table.flags.names with
  | false => simp
  | true =>
    rw [if_pos rfl, if_pos rfl, getElem?_enterNames]
    cases found : table.groups.toList.find? fun group => group.nameHash == hash with
    | none => rfl
    | some group =>
      have here := searchable.inOrder.getElem?_ordinal (List.mem_of_find?_eq_some found)
      simpa using here

/-- **Lookups are scans.**  In every table that is read or assembled, neither the ids of the groups nor those
of the files of a group descend; the group at an ordinal is the one that was numbered so, as long as there
are groups; and the group that is found by an id, or by the hash of a name, is the first one that has it, if
one has.  Without names, no hash finds a group. -/
theorem lookups_eq_scans {table : ReferenceTable} (built : Built table) :
    (table.groups.toList.Pairwise fun group later => group.id ≤ later.id) ∧
    (∀ group ∈ table.groups.toList, group.files.Pairwise fun file later => file.id ≤ later.id) ∧
    (∀ ordinal, (ordinal < table.size →
        ∃ group, table.groupAt? ordinal = some group ∧ group.ordinal = ordinal) ∧
      (table.size ≤ ordinal → table.groupAt? ordinal = none)) ∧
    (∀ id, table.group? id = table.groups.toList.find? fun group => group.id == id) ∧
    (∀ hash, table.groupHashed? hash =
      if table.flags.names then table.groups.toList.find? fun group => group.nameHash == hash
      else none) := by
  have searchable := built.searchable
  refine ⟨searchable.inOrder.ascend, searchable.files, fun ordinal => ⟨fun inside => ?_, fun behind => ?_⟩,
    group?_eq_find? searchable.inOrder.ascend, searchable.groupHashed?_eq⟩
  · have here : table.groupAt? ordinal = some table.groups[ordinal] := Array.getElem?_eq_getElem inside
    have listed : ordinal < table.groups.toList.length := inside
    exact ⟨_, here, searchable.inOrder.ordinal_getElem listed⟩
  · exact Array.getElem?_eq_none behind

/-- A table of three groups with the ids 4, 4 and 9, whose names have the hashes 7, 8 and 8. -/
def repeatingTable : Bytes :=
  [5, 1, 0, 3, 0, 4, 0, 0, 0, 5] ++ [0, 0, 0, 7, 0, 0, 0, 8, 0, 0, 0, 8] ++ List.replicate 24 0 ++
    [0, 1, 0, 1, 0, 1] ++ [0, 2, 0, 2, 0, 2] ++ List.replicate 12 0

/-- Of two groups with one id, and of two whose names have one hash, the first one is found; an id between
those that are there is not. -/
theorem lookups_eq_scans_repeating :
    let source := fun (ordinal : Nat) (_ : UInt32) (asked : Nat) =>
      ((.ok [UInt8.ofNat ordinal], asked + 1) : Except TableError Bytes × Nat)
    ∃ table, (assemble 3 ⟨repeatingTable, .none, -1, 0, 0⟩ Digest.zero id source 0).1 = .ok table ∧
      (table.group? 4).map Group.raw = some [0] ∧ (table.group? 5).map Group.raw = none ∧
      (table.groupHashed? 8).map Group.raw = some [1] ∧
      (table.groupHashed? 9).map Group.raw = none := by
  intro source
  obtain ⟨table, assembled⟩ :
      ∃ table, (assemble 3 ⟨repeatingTable, .none, -1, 0, 0⟩ Digest.zero id source 0).1 = .ok table :=
    ⟨_, rfl⟩
  obtain ⟨-, -, -, byId, byName⟩ := lookups_eq_scans (.assembled _ _ _ _ _ _ assembled)
  refine ⟨table, assembled, ?_⟩
  rw [byId, byId, byName, byName]
  cases assembled
  exact ⟨rfl, rfl, rfl, rfl⟩

end ReferenceTable
end SectorVault
