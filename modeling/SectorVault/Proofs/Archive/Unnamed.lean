import Mathlib
import SectorVault.Proofs.Archive.Nesting
import SectorVault.Proofs.Group.Entries
import SectorVault.Proofs.ReferenceTable.Scanning

/-!
# Tables without names

A table without names enters no group into its map of names, so no name leads to a group.  For the files of
a group there is no such map.  Their labels hold the hash that stands for the absence of a name, and so do
the files that a group is unpacked to (`Group.nameHash_of_unpack`).  A search by name compares hashes and
nothing else, and that hash is one that names can have: to such a name every file answers, and the first one
is found.  For all other names there is none (`Unpacked.fileNamed?_of_unnamed`).
-/

namespace SectorVault

/-- The files of a group have no names. -/
def Group.Unnamed (group : Group) : Prop :=
  ∀ label ∈ group.files, label.nameHash = unnamed

/-! ## Tables -/

namespace ReferenceTable

/-- The ids of files are entered without names. -/
theorem ensures_unnamed_fileColumn (protocol : Protocol) (groups : List Group) :
    Ensures (fileColumn protocol groups) fun listed => ∀ group ∈ listed, group.Unnamed := by
  refine (Ensures.trivial _).bind fun counts _ => Ensures.forall_each fun item _ => ?_
  refine (Ensures.trivial _).bind fun ids _ => .pure fun label mem => ?_
  obtain ⟨id, -, rfl⟩ := List.mem_map.1 mem
  rfl

theorem unnamed_of_read {bytes : Bytes} {table : ReferenceTable} (accepted : read bytes = .ok table)
    (noNames : table.flags.names = false) : ∀ group ∈ table.groups, group.Unnamed := by
  have unless_named : table.flags.names = false → ∀ group ∈ table.groups.toList, group.Unnamed := by
    refine holds_of_read (P := fun table => table.flags.names = false →
      ∀ group ∈ table.groups.toList, group.Unnamed) (fun protocol flags count => ?_) accepted
    cases names : flags.names with
    | true =>
      refine (Ensures.trivial _).mono ?_
      rintro groups - table rfl - - noNames
      rw [names] at noNames
      cases noNames
    | false =>
      have without : Ensures (readGroups protocol flags count) fun groups =>
          ∀ group ∈ groups, group.Unnamed :=
        ensures_readGroups_of_fileColumn (ensures_unnamed_fileColumn protocol)
          (fun named => absurd (names.symm.trans named) nofun) count
      refine without.mono ?_
      rintro _ without table - rfl - -
      exact without
  exact fun group mem => unless_named noNames group (Array.mem_toList_iff.2 mem)

theorem groupNamed?_of_read {bytes : Bytes} {table : ReferenceTable}
    (accepted : read bytes = .ok table) (noNames : table.flags.names = false) (name : String) :
    table.groupNamed? name = none := by
  refine ((searchable_of_read accepted).groupHashed?_eq (nameHash name)).trans ?_
  rw [noNames]
  rfl

end ReferenceTable

/-! ## Files -/

namespace Group

variable {group : Group} {key : Option Key} {unpacked : Unpacked}

/-- A group always has files, and they have no names if their labels have none. -/
theorem nameHash_of_unpack (without : group.Unnamed) (unpacks : group.unpack key = .ok unpacked) :
    unpacked.files ≠ [] ∧ ∀ file ∈ unpacked.files, file.nameHash = unnamed := by
  obtain ⟨container, files, -, split, rfl⟩ := unpack_eq_ok_iff.1 unpacks
  obtain ⟨contents, length, rfl⟩ := Bundle.exists_of_split split
  have several : contents ≠ [] := by
    rintro rfl
    exact absurd length (Bundle.splitCount_pos _ _).ne
  refine ⟨by simpa using several, fun file mem => ?_⟩
  obtain ⟨⟨data, ordinal⟩, -, rfl⟩ := List.mem_map.1 mem
  simp only [Bundle.label, List.getElem?_toArray, List.getElem?_map]
  cases there : group.files[ordinal]? with
  | none => rfl
  | some label => exact without label (List.mem_of_getElem? there)

theorem fileNamed_of_unpack (unpacks : group.unpack key = .ok unpacked) (name : String) :
    group.fileNamed name key = match unpacked.fileNamed? name with
      | some file => .ok file
      | none => .error (.namedFileNotFound group.id (SectorVault.nameHash name)) := by
  unfold fileNamed
  rw [unpacks]
  simp only [bind, Except.bind]
  cases unpacked.fileNamed? name <;> rfl

end Group

/-- Files without names answer to the names whose hash stands for the absence of one. -/
theorem Unpacked.fileNamed?_of_unnamed {unpacked : Unpacked}
    (without : ∀ file ∈ unpacked.files, file.nameHash = unnamed) (name : String) :
    unpacked.fileNamed? name = if nameHash name = unnamed then unpacked.fileAt? 0 else none := by
  unfold fileNamed? fileHashed? fileAt?
  split
  · next hash =>
    cases files : unpacked.files with
    | nil => rfl
    | cons first others =>
      have here : first.nameHash = nameHash name := by
        rw [hash]
        exact without first (by simp [files])
      simp [here]
  · next hash =>
    refine List.find?_eq_none.2 fun file mem same => hash ?_
    rw [without file mem] at same
    exact (beq_iff_eq.1 same).symm

/-! ## Names -/

namespace ReferenceTable

/-- **What a name leads to without names.**  In a table without names no name leads to a group.  Whatever is
stored for one of its groups, if that can be unpacked, then no name leads to a file of it, and reading the
file by its name says so, unless the hash of the name happens to be the one that stands for the absence of a
name; such a name leads to the first file. -/
theorem fileNamed_of_unnamed_table {bytes : Bytes} {table : ReferenceTable}
    (accepted : read bytes = .ok table) (noNames : table.flags.names = false) (name : String) :
    table.groupNamed? name = none ∧
    ∀ listed ∈ table.groups, ∀ (raw : Bytes) (key : Option Key) (unpacked : Unpacked),
      let group : Group := { listed with raw := raw }
      group.unpack key = .ok unpacked →
      (unpacked.fileNamed? name = none ↔ nameHash name ≠ unnamed) ∧
      (group.fileNamed name key = .error (.namedFileNotFound listed.id (nameHash name)) ↔
        nameHash name ≠ unnamed) ∧
      (nameHash name = unnamed → ∃ first, unpacked.fileAt? 0 = some first ∧
        unpacked.fileNamed? name = some first ∧ group.fileNamed name key = .ok first) := by
  refine ⟨groupNamed?_of_read accepted noNames name, ?_⟩
  intro listed mem raw key unpacked group unpacks
  have without : group.Unnamed := unnamed_of_read accepted noNames listed mem
  obtain ⟨several, unnamedFiles⟩ := Group.nameHash_of_unpack without unpacks
  obtain ⟨first, others, files⟩ := List.exists_cons_of_ne_nil several
  have start : unpacked.fileAt? 0 = some first := by simp [Unpacked.fileAt?, files]
  rw [Group.fileNamed_of_unpack unpacks, Unpacked.fileNamed?_of_unnamed unnamedFiles, start]
  by_cases hash : nameHash name = unnamed
  · simp [hash]
  · simp [hash, group]

/-- A table of one group, with the id 5 and a file with the id 3, and without names. -/
def unnamedTable : Bytes := [5, 0, 0, 1, 0, 5, 0, 0, 0, 0, 0, 0, 0, 0, 0, 1, 0, 3]

/-- What is stored for the group: a container of the data `m0`. -/
def unnamedRaw : Bytes := Container.sealPlain [0x6D, 0x30] none

theorem exists_unnamedTable : ∃ table listed, read unnamedTable = .ok table ∧
    table.flags.names = false ∧ listed ∈ table.groups ∧
    ({ listed with raw := unnamedRaw } : Group).unpack none =
      .ok ⟨5, none, [⟨3, unnamed, [0x6D, 0x30]⟩]⟩ := by
  let listed : Group := { Group.blank 0 5 with files := [⟨3, unnamed⟩] }
  obtain ⟨table, accepted⟩ : ∃ table, read unnamedTable = .ok table := ⟨_, rfl⟩
  have holds : Container.Holds [0x6D, 0x30] none ({ listed with raw := unnamedRaw } : Group).raw :=
    .plain (by decide) []
  refine ⟨table, listed, accepted, ?_, ?_, Group.unpack_of_holds holds (.lone _) rfl (by decide)⟩
  · cases accepted
    rfl
  · cases accepted
    exact Array.mem_singleton_self listed

/-- A name with another hash leads to nothing. -/
theorem fileNamed_of_unnamed_table_letter : ∃ table listed unpacked,
    read unnamedTable = .ok table ∧ table.flags.names = false ∧ listed ∈ table.groups ∧
      ({ listed with raw := unnamedRaw } : Group).unpack none = .ok unpacked ∧
      table.groupNamed? "a" = none ∧ unpacked.fileNamed? "a" = none ∧
      ({ listed with raw := unnamedRaw } : Group).fileNamed "a" none =
        .error (.namedFileNotFound listed.id 97) := by
  obtain ⟨table, listed, accepted, noNames, mem, unpacks⟩ := exists_unnamedTable
  obtain ⟨groups, files⟩ := fileNamed_of_unnamed_table accepted noNames "a"
  obtain ⟨none_iff, error_iff, -⟩ := files listed mem unnamedRaw none _ unpacks
  have hash : nameHash "a" = 97 := by decide
  rw [hash] at error_iff
  exact ⟨table, listed, _, accepted, noNames, mem, unpacks, groups, none_iff.2 (by decide),
    error_iff.2 (by decide)⟩

/-- A name whose hash stands for the absence of a name leads to a file, though not to a group. -/
theorem file_found_without_names : ∃ table listed unpacked,
    read unnamedTable = .ok table ∧ table.flags.names = false ∧ listed ∈ table.groups ∧
      ({ listed with raw := unnamedRaw } : Group).unpack none = .ok unpacked ∧
      table.groupNamed? "zsjpxag" = none ∧
      unpacked.fileNamed? "zsjpxag" = some ⟨3, unnamed, [0x6D, 0x30]⟩ ∧
      ({ listed with raw := unnamedRaw } : Group).fileNamed "zsjpxag" none =
        .ok ⟨3, unnamed, [0x6D, 0x30]⟩ := by
  obtain ⟨table, listed, accepted, noNames, mem, unpacks⟩ := exists_unnamedTable
  have hash : nameHash "zsjpxag" = unnamed := by decide
  have found : (⟨5, none, [⟨3, unnamed, [0x6D, 0x30]⟩]⟩ : Unpacked).fileNamed? "zsjpxag" =
      some ⟨3, unnamed, [0x6D, 0x30]⟩ := by
    rw [Unpacked.fileNamed?, hash]
    rfl
  refine ⟨table, listed, _, accepted, noNames, mem, unpacks,
    groupNamed?_of_read accepted noNames _, found, ?_⟩
  rw [Group.fileNamed_of_unpack unpacks, found]

end ReferenceTable
end SectorVault
