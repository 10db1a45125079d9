import Mathlib
import SectorVault.Proofs.Archive.Naming
import SectorVault.Proofs.Container.Sealing
import SectorVault.Proofs.Group.Entries

/-!
# Entries of files within groups

An entry is two layers deep: it is a string of the bundle in the container that is a file, and the file is a
string of the bundle in the container that is a group.  The two layers differ in three ways.

* The key belongs to the group alone; the container of the file is opened without one.
* The table labels the files, so a file is searched by its id among the labels, while the entries have
  their ordinals for ids.
* The number of files is that of the labels, and the number of entries is told by whoever asks.

So a file is found in a group if it is packed at the first ordinal that has its id (`Group.file_of_holds`), an
entry is found in the file if it is packed at the ordinal that is its id (`File.entry_of_packed`), and an
archive without checks puts the two together.
-/

namespace SectorVault

/-! ## The outer layer -/

namespace Group

variable {group : Group} {key : Option Key} {contents : List Bytes} {bundle : Bytes}

/-- A group whose files are packed in a container unpacks to them, under the key of the container. -/
theorem unpack_of_holds (holds : Container.Holds bundle key group.raw)
    (packed : Bundle.Packed contents bundle) (count : contents.length = group.files.length)
    (room : 24 * contents.length < 2 ^ 63) :
    group.unpack key = .ok ⟨group.id, key, contents.zipIdx.map fun (data, ordinal) =>
      Bundle.label (group.files.map FileLabel.id).toArray
        (group.files.map FileLabel.nameHash).toArray ordinal data⟩ := by
  obtain ⟨container, opened, data⟩ := holds.exists_decode
  have split := packed.split_eq holds.length_lt (Splitter.toNat_ofNat_of_room room)
    (group.files.map FileLabel.id).toArray
    (group.files.map FileLabel.nameHash).toArray room
  rw [count, ← data] at split
  exact unpack_eq_ok_iff.2 ⟨some container, _, openStored_eq_some_iff.2 opened, split, rfl⟩

/-- The file of an id is the one at the first ordinal that is labelled with it. -/
theorem file_of_holds (holds : Container.Holds bundle key group.raw)
    (packed : Bundle.Packed contents bundle) (count : contents.length = group.files.length)
    (room : 24 * contents.length < 2 ^ 63) {id : UInt32} {ordinal : Nat} {data : Bytes}
    (first : group.files.findIdx? (fun label => label.id == id) = some ordinal)
    (stored : contents[ordinal]? = some data) :
    ∃ nameHash, group.file id key = .ok ⟨id, nameHash, data⟩ := by
  obtain ⟨inside, labelled, before⟩ := List.findIdx?_eq_some_iff_getElem.1 first
  obtain ⟨place, rfl⟩ := List.getElem?_eq_some_iff.1 stored
  refine ⟨group.files[ordinal].nameHash, file_eq_ok_iff.2 ⟨_, unpack_of_holds holds packed count room, ?_⟩⟩
  rw [Unpacked.file?, List.find?_eq_some_iff_getElem]
  refine ⟨beq_self_eq_true id, ordinal, by simpa using place, ?_, fun earlier h => ?_⟩
  · simp [Bundle.label, inside, eq_of_beq labelled]
  · have listed : earlier < group.files.length := h.trans inside
    simpa [Bundle.label, listed] using before earlier h

end Group

/-! ## Both layers -/

namespace Archive

/-- **A nested file resolves to its entries.**  Whatever the bytes of a file are, if it has entries, their
number is one or the one it is said to have, they are numbered from zero on and have no names, and an entry
is found by its number or not at all; if it has none, every entry fails as they do.  And strings that are
packed in a container are the entries of the file that this container is: an archive without checks, whatever
it has been asked for, reads each of them out of the group that the file is packed in, under the key of the
group.  So it does for `2 ^ 32` strings and many more; only for so many that no memory can hold what stands for
them, which are empty all of them and in a bundle without rows, the run ends. -/
theorem readEntry_nested :
    (∀ (file : File) (count : UInt64), count.toNat < 2 ^ 32 →
      (∀ entries, file.entries count = .ok entries →
        ∃ data, file.decoded = .ok data ∧
          entries.length = (if data = [] ∨ count.toNat ≤ 1 then 1 else count.toNat) ∧
          (entries.map fun entry => entry.id.toNat) = List.range entries.length ∧
          (∀ entry ∈ entries, entry.fileId = file.id ∧ entry.nameHash = -1) ∧
          (∀ (id : UInt32) (inside : id.toNat < entries.length),
            file.entry id count = .ok entries[id.toNat]) ∧
          ∀ id : UInt32, entries.length ≤ id.toNat →
            file.entry id count = .error (.entryNotFound file.id id)) ∧
      ∀ error, file.entries count = .error error → ∀ id, file.entry id count = .error error) ∧
    ∀ (strings contents : List Bytes) (inner outer : Bytes) (table : ReferenceTable) (group : Group)
      (key : Option Key) (file : UInt32) (ordinal : Nat) (count : UInt64),
      count.toNat = strings.length → Bundle.Packed strings inner → inner.length ≤ 2000000 →
      contents[ordinal]? = some (Container.sealPlain inner none) →
      Bundle.Packed contents outer → contents.length = group.files.length →
      group.files.findIdx? (fun label => label.id == file) = some ordinal →
      Container.Holds outer key group.raw →
      ∀ id, table.group? id = some group →
        ∀ (number : UInt8) (requests : List Request) (entry : UInt32)
          (inside : entry.toNat < strings.length),
          (((fresh number table {}).after requests).readEntry id file entry count key).1 =
            if 24 * strings.length < 2 ^ 63 then .ok ⟨file, entry, -1, strings[entry.toNat]⟩
            else .error (.unpacking .capacityOverflow) := by
  constructor
  · intro file count small
    refine ⟨fun entries accepted => ?_, fun error refused => File.entry_eq_error refused⟩
    obtain ⟨data, contents, opened, length, rfl⟩ := File.exists_of_entries accepted
    rw [Bundle.splitCount] at length
    have word : contents.length < 2 ^ 32 := by
      rw [length]
      split <;> omega
    have found := File.entry_eq accepted
    refine ⟨data, opened, by simpa using length, ?_, ?_, ?_, ?_⟩
    · rw [File.ids_numbered file word]
      simp
    · intro entry mem
      obtain ⟨⟨_, _⟩, -, rfl⟩ := List.mem_map.1 mem
      exact ⟨rfl, rfl⟩
    · intro id inside
      have place : id.toNat < contents.length := by simpa using inside
      rw [found, List.getElem?_eq_getElem place]
      simp
    · intro id beyond
      have absent : contents.length ≤ id.toNat := by simpa using beyond
      rw [found, List.getElem?_eq_none absent]
      rfl
  · intro strings contents inner outer table group key file ordinal many number packed short stored
      packed' count first holds id listed archive requests entry inside
    have several : 24 * contents.length < 2 ^ 63 := by
      have few := packed'.length_le (List.mem_of_getElem? stored) (List.cons_ne_nil _ _)
      have bounded := holds.length_lt
      omega
    obtain ⟨nameHash, reads⟩ := Group.file_of_holds holds packed' count several first stored
    obtain ⟨unpacked, unpacks, found⟩ := Group.file_eq_ok_iff.1 reads
    have opened := Container.decode_sealPlain short none []
    rw [List.append_nil] at opened
    rw [readEntry_after archive table {} requests
        (unpackFresh_unchecked_iff.2 ⟨group, listed, unpacks⟩) found,
      File.entry_of_packed opened packed (short.trans_lt (by decide)) number inside]
    split <;> rfl

/-- A matrix of chunks whose columns are two strings. -/
def twoStrings : List (List Bytes) := [[[1], [2]], [[], [3]]]

/-- A file that holds the two strings. -/
def nestedFile : Bytes := Container.sealPlain (Bundle.ofRows twoStrings) none

/-- A group of two files, with a key, of which the second one holds the two strings. -/
def nestingGroup : Group :=
  { Group.blank 0 3 with
    files := [⟨4, unnamed⟩, ⟨5, unnamed⟩]
    raw := Container.sealPlain (Bundle.ofRows [[[7], nestedFile]]) (some ⟨1, 2, 3, 4⟩) }

/-- The table of the group. -/
def nestingTable : ReferenceTable :=
  (ReferenceTable.ofGroups .unversioned 0 0 []).withGroups #[nestingGroup]

theorem readEntry_nested_second :
    Bundle.Packed [[1], [2, 3]] (Bundle.ofRows twoStrings) ∧
      Bundle.Packed [[7], nestedFile] (Bundle.ofRows [[[7], nestedFile]]) ∧
      nestingTable.group? 3 = some nestingGroup ∧
      (((fresh 0 nestingTable {}).after [.read 3 5 none]).readEntry 3 5 1 2
          (some ⟨1, 2, 3, 4⟩)).1 = .ok ⟨5, 1, -1, [2, 3]⟩ ∧
      File.entries ⟨5, -1, nestedFile⟩ 2 = .ok [⟨5, 0, -1, [1]⟩, ⟨5, 1, -1, [2, 3]⟩] ∧
      File.entry ⟨5, -1, nestedFile⟩ 2 2 = .error (.entryNotFound 5 2) ∧
      File.entry ⟨5, -1, nestedFile⟩ 0 2 = .ok ⟨5, 0, -1, [1]⟩ := by
  have inner : Bundle.Packed ((List.range 2).map (Bundle.column twoStrings))
      (Bundle.ofRows twoStrings) :=
    .rows (by decide) (by decide) (by decide)
  have outer : Bundle.Packed ((List.range 2).map (Bundle.column [[[7], nestedFile]]))
      (Bundle.ofRows [[[7], nestedFile]]) :=
    .rows (by decide) (by decide) (by decide)
  have listed : nestingTable.group? 3 = some nestingGroup := by
    rw [ReferenceTable.group?_eq_find? (by simp [nestingTable, ReferenceTable.IdsAscend])]
    rfl
  have holds : Container.Holds (Bundle.ofRows [[[7], nestedFile]]) (some ⟨1, 2, 3, 4⟩)
      (nestingGroup.raw ++ []) :=
    .plain (by decide) []
  rw [List.append_nil] at holds
  have accepted : File.entries ⟨5, -1, nestedFile⟩ 2 =
      .ok [⟨5, 0, -1, [1]⟩, ⟨5, 1, -1, [2, 3]⟩] := by decide +kernel
  obtain ⟨entries, reads⟩ := readEntry_nested
  obtain ⟨-, -, -, -, -, found, absent⟩ := (entries ⟨5, -1, nestedFile⟩ 2 (by decide)).1 _ accepted
  exact ⟨inner, outer, listed,
    reads _ _ _ _ nestingTable nestingGroup _ 5 1 2 rfl inner (by decide) rfl outer rfl rfl holds 3
      listed 0 [.read 3 5 none] 1 (by decide),
    accepted, absent 2 (by decide), found 0 (by decide)⟩

end Archive
end SectorVault
