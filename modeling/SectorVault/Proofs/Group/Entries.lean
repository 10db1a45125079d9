import Mathlib
import SectorVault.Proofs.Group.Bundling
import SectorVault.Proofs.Group.Unpacking
import SectorVault.Proofs.Keys

/-!
# Entries by number

A file is opened as the stored bytes of a group are, though never with a key, and what it stands for then
(`File.decoded`) is split without any labels.  So its entries are numbered: each has its ordinal for an id, and
none has a name.  To search numbered things for an id is to look at one place (`find?_numbered`), and so an
entry is found exactly if its id is below the number of entries (`entry_eq`).

That number is the one the caller gives, unless it is too small or there is nothing to split
(`Bundle.splitCount`); the bytes of the file cannot change it, they can only be refused.  For neither pass over
a bundle makes or drops a file (`Splitter.length_of_contentsUnder`).

In the other direction, strings can be packed in many ways that come to the same: a lone one as it is, and
several ones as a matrix with as many rows as one likes (`Bundle.Packed`).  Splitting does not tell them apart
(`Bundle.Packed.split_eq`).
-/

namespace SectorVault

/-- To search things that are numbered from zero on for a number is to look at one place. -/
theorem find?_numbered {α β : Type} (number : α × Nat → β) (key : β → UInt32)
    (numbered : ∀ item, key (number item) = UInt32.ofNat item.2) (items : List α) (id : UInt32) :
    ((items.zipIdx.map number).find? fun found => key found == id) =
      (items.zipIdx.map number)[id.toNat]? := by
  by_cases inside : id.toNat < items.length
  · have place : id.toNat < (items.zipIdx.map number).length := by simpa using inside
    rw [List.getElem?_eq_getElem place, List.find?_eq_some_iff_getElem]
    refine ⟨by simp [numbered], id.toNat, place, rfl, fun ordinal before => ?_⟩
    have word : ordinal < 2 ^ 32 := before.trans id.toNat_lt
    simp only [List.getElem_map, List.getElem_zipIdx, numbered, Nat.zero_add, Bool.not_eq_true',
      beq_eq_false_iff_ne]
    rintro rfl
    rw [UInt32.toNat_ofNat_of_lt' word] at before
    exact Nat.lt_irrefl _ before
  · rw [List.getElem?_eq_none (by simpa using inside)]
    refine find?_key_eq_none key fun found mem same => inside ?_
    obtain ⟨⟨item, ordinal⟩, listed, rfl⟩ := List.mem_map.1 mem
    have below : ordinal < items.length := List.snd_lt_of_mem_zipIdx listed
    rw [← same, numbered, UInt32.toNat_ofNat']
    exact (Nat.mod_le _ _).trans_lt below

/-! ## How many there are -/

namespace Splitter

variable {overflow : Overflow} {bundle : Bytes} {chunks : UInt8} {fileCount : UInt64}

section Walk

variable {σ : Type} {visit : Nat → Int64 → σ → Except GroupError σ} {P : σ → Prop}
  (keeps : ∀ {ordinal length state next}, visit ordinal length state = .ok next → P state → P next)

include keeps

/-- What every visit keeps, a walk keeps. -/
theorem walkRow_keeps {count ordinal : Nat} {sum : Int64} {state next : σ} {table rest : Bytes}
    (walked : walkRow overflow visit count ordinal sum state table = .ok (next, rest))
    (holds : P state) : P next := by
  fun_induction walkRow overflow visit count ordinal sum state table with
  | case1 =>
    cases walked
    exact holds
  | case2 sum state count ordinal b0 b1 b2 b3 table ih =>
    obtain ⟨length, -, walked⟩ := bind_eq_ok.1 walked
    obtain ⟨visited, accepts, walked⟩ := bind_eq_ok.1 walked
    exact ih length visited walked (keeps accepts holds)
  | case3 => cases walked

theorem walkRows_keeps {fileCount rows : Nat} {state next : σ} {table : Bytes}
    (walked : walkRows overflow visit fileCount rows state table = .ok next) (holds : P state) :
    P next := by
  induction rows generalizing state table with
  | zero =>
    cases walked
    exact holds
  | succ rows ih =>
    obtain ⟨⟨between, rest⟩, row, walked⟩ := bind_eq_ok.1 walked
    exact ih walked (walkRow_keeps keeps row holds)

end Walk

/-- Copying changes the contents of the files, and not their number. -/
theorem size_of_copyChunk {bundle : Array UInt8} {ordinal : Nat} {length : Int64} {copied next : Copied}
    (accepts : copyChunk overflow bundle ordinal length copied = .ok next) :
    next.files.size = copied.files.size := by
  obtain ⟨stop, -, cut⟩ := bind_eq_ok.1 accepts
  split at cut
  · cases cut
    exact Array.size_modify
  · cases cut

theorem length_of_contentsUnder {contents : List Bytes}
    (accepted : contentsUnder overflow bundle chunks fileCount = .ok contents) :
    contents.length = fileCount.toNat := by
  unfold contentsUnder at accepted
  split at accepted
  · cases accepted
  obtain ⟨_, -, accepted⟩ := bind_eq_ok.1 accepted
  obtain ⟨_, -, accepted⟩ := bind_eq_ok.1 accepted
  obtain ⟨_, -, accepted⟩ := bind_eq_ok.1 accepted
  split at accepted
  · cases accepted
  obtain ⟨_, -, accepted⟩ := bind_eq_ok.1 accepted
  split at accepted
  · cases accepted
  obtain ⟨copied, walked, ⟨⟩⟩ := bind_eq_ok.1 accepted
  exact walkRows_keeps (P := fun copied => copied.files.size = fileCount.toNat)
    (fun accepts holds => (size_of_copyChunk accepts).trans holds) walked (by simp)

end Splitter

namespace Bundle

variable {bundle : Bytes} {fileCount : UInt64} {ids : Array UInt32} {nameHashes : Array Int32}

/-- The number of files that a bundle is split into if it is said to hold `fileCount` of them. -/
def splitCount (bundle : Bytes) (fileCount : Nat) : Nat :=
  if bundle = [] ∨ fileCount ≤ 1 then 1 else fileCount

theorem splitCount_pos (bundle : Bytes) (fileCount : Nat) : 0 < splitCount bundle fileCount := by
  unfold splitCount
  split <;> omega

/-- What a bundle is split into is known but for the contents. -/
theorem exists_of_split {files : List File}
    (accepted : Splitter.split bundle ids nameHashes fileCount = .ok files) :
    ∃ contents : List Bytes, contents.length = splitCount bundle fileCount.toNat ∧
      files = contents.zipIdx.map fun (data, ordinal) => label ids nameHashes ordinal data := by
  unfold Splitter.split at accepted
  by_cases lone : bundle = [] ∨ fileCount.toNat ≤ 1
  · rw [Splitter.splitUnder_of_lone .stops lone, Except.ok.injEq] at accepted
    exact ⟨[bundle], (if_pos lone).symm, accepted.symm⟩
  · rw [splitCount, if_neg lone]
    rw [not_or] at lone
    have last := List.getLast?_eq_getLast_of_ne_nil lone.1
    rw [Splitter.splitUnder_of_several .stops last (by omega)] at accepted
    obtain ⟨contents, read, rfl⟩ := map_eq_ok.1 accepted
    exact ⟨contents, Splitter.length_of_contentsUnder read, rfl⟩

/-! ## Ways to pack strings -/

/-- The bundles that some strings can be packed in: the only one as it is, and several ones as a matrix of
chunks of which they are the columns. -/
inductive Packed : List Bytes → Bytes → Prop
  | lone (string : Bytes) : Packed [string] string
  | rows {fileCount : Nat} {rows : List (List Bytes)} (several : 2 ≤ fileCount)
      (count : rows.length ≤ 255) (rectangular : ∀ row ∈ rows, row.length = fileCount) :
      Packed ((List.range fileCount).map (column rows)) (ofRows rows)

namespace Packed

variable {strings : List Bytes} (packed : Packed strings bundle)

include packed

/-- If one of the strings is not empty, there are no more of them than bytes. -/
theorem length_le {string : Bytes} (mem : string ∈ strings) (nonempty : string ≠ []) :
    strings.length ≤ bundle.length := by
  cases packed with
  | lone string =>
    obtain rfl := List.mem_singleton.1 mem
    exact List.length_pos_of_ne_nil nonempty
  | rows several count rectangular =>
    rename_i fileCount rows
    have some : 1 ≤ rows.length := by
      refine List.length_pos_of_ne_nil ?_
      rintro rfl
      obtain ⟨ordinal, -, rfl⟩ := List.mem_map.1 mem
      exact nonempty rfl
    have row : 4 * 1 * fileCount ≤ 4 * rows.length * fileCount := Nat.mul_le_mul_right _ (by omega)
    rw [length_ofRows rectangular, List.length_map, List.length_range]
    omega

variable (short : bundle.length < 2 ^ 31) (number : fileCount.toNat = strings.length)
  (ids : Array UInt32) (nameHashes : Array Int32)

include short number

/-- Packed strings are split into themselves. -/
theorem split_eq (room : 24 * strings.length < 2 ^ 63) :
    Splitter.split bundle ids nameHashes fileCount =
      .ok (strings.zipIdx.map fun (data, ordinal) => label ids nameHashes ordinal data) := by
  rw [← number] at room
  cases packed with
  | lone string => exact Splitter.splitUnder_of_lone .stops (.inr number.le) ids nameHashes
  | rows several count rectangular =>
    rename_i columns rows
    rw [List.length_map, List.length_range] at number
    subst number
    have chunks : ∀ row ∈ rows, ∀ chunk ∈ row, chunk.length < 2 ^ 31 := fun row listed chunk mem =>
      (length_le_ofRows listed mem).trans_lt short
    rw [Splitter.split, Splitter.splitUnder_of_several .stops (getLast?_ofRows rows) several,
      Splitter.contentsUnder_ofRows .stops count rectangular chunks (by omega) room]
    rfl

/-- There may be too many of them to be split, if they are all empty. -/
theorem split_of_no_room (large : 2 ^ 63 ≤ 24 * strings.length) :
    Splitter.split bundle ids nameHashes fileCount = .error .capacityOverflow := by
  rw [← number] at large
  cases packed with
  | lone string =>
    rw [List.length_singleton] at number
    omega
  | rows several count rectangular =>
    rename_i columns rows
    rw [List.length_map, List.length_range] at number
    subst number
    have none : rows.length = 0 := by
      by_contra some
      have row : 4 * 1 * fileCount.toNat ≤ 4 * rows.length * fileCount.toNat :=
        Nat.mul_le_mul_right _ (by omega)
      rw [length_ofRows rectangular] at short
      omega
    have fits : 4 * (UInt8.ofNat rows.length).toNat * fileCount.toNat < (ofRows rows).length := by
      rw [toNat_rowCount count, length_ofRows rectangular]
      omega
    rw [Splitter.split, Splitter.splitUnder_of_several .stops (getLast?_ofRows rows) several,
      Splitter.contentsUnder_of_no_room .stops (by omega) fits short large]
    rfl

end Packed

/-- Strings are packed in one row, unless there is only one. -/
theorem packed_ofFiles {files : List Bytes} (nonempty : files ≠ []) : Packed files (ofFiles files) := by
  match files, nonempty with
  | [file], _ => exact .lone file
  | first :: second :: others, _ =>
    have row : Packed ((List.range (first :: second :: others).length).map
        (column [first :: second :: others])) (ofRows [first :: second :: others]) :=
      .rows (by simp) (by simp) (by simp)
    rwa [column_singleton] at row

/-- A bundle of files has a byte for each of them but one. -/
theorem length_le_ofFiles (files : List Bytes) : files.length ≤ (ofFiles files).length + 1 := by
  match files with
  | [] => exact Nat.zero_le _
  | [file] => simp
  | first :: second :: others =>
    have row : ∀ row ∈ [first :: second :: others], row.length = (first :: second :: others).length :=
      fun row mem => congrArg List.length (List.mem_singleton.1 mem)
    have length := length_ofRows row
    rw [List.length_singleton] at length
    show _ ≤ (ofRows [first :: second :: others]).length + 1
    omega

end Bundle

/-! ## Entries -/

namespace File

variable {file : File} {count : UInt64} {data : Bytes} {contents : List Bytes}

/-- The bytes that a file stands for, once it is opened. -/
def decoded (file : File) : Except GroupError Bytes :=
  (openStored file.data none).map fun container => container.elim file.data Container.data

/-- The entry of a file at an ordinal. -/
def numbered (file : File) (ordinal : Nat) (data : Bytes) : Entry :=
  ⟨file.id, UInt32.ofNat ordinal, unnamed, data⟩

/-- The ids of numbered entries count up from zero, as long as words can count them. -/
theorem ids_numbered (file : File) (few : contents.length < 2 ^ 32) :
    ((contents.zipIdx.map fun (data, ordinal) => file.numbered ordinal data).map fun entry =>
      entry.id.toNat) = List.range contents.length := by
  refine List.ext_getElem (by simp) fun ordinal inside _ => ?_
  have word : ordinal < 2 ^ 32 := by
    simp only [List.length_map, List.length_zipIdx] at inside
    omega
  simp [numbered, UInt32.toNat_ofNat_of_lt' word]

theorem entries_eq (file : File) (count : UInt64) :
    file.entries count = file.decoded.bind fun data =>
      (Splitter.split data #[] #[] count).map
        (List.map fun found => ⟨file.id, found.id, found.nameHash, found.data⟩) := by
  unfold entries decoded
  cases openStored file.data none with
  | error error => rfl
  | ok container =>
    cases container <;> simp only [bind, Except.bind, Except.map, Option.elim] <;>
      cases Splitter.split _ #[] #[] count <;> rfl

/-- What is split without labels is numbered. -/
theorem entries_eq_of_split (opened : file.decoded = .ok data)
    (accepted : Splitter.split data #[] #[] count =
      .ok (contents.zipIdx.map fun (data, ordinal) => Bundle.label #[] #[] ordinal data)) :
    file.entries count =
      .ok (contents.zipIdx.map fun (data, ordinal) => file.numbered ordinal data) := by
  rw [entries_eq, opened]
  simp only [Except.bind, accepted, Except.map, List.map_map]
  rfl

/-- Entries are numbered, and the bytes of the file decide about nothing but their contents. -/
theorem exists_of_entries {entries : List Entry} (accepted : file.entries count = .ok entries) :
    ∃ (data : Bytes) (contents : List Bytes), file.decoded = .ok data ∧
      contents.length = Bundle.splitCount data count.toNat ∧
      entries = contents.zipIdx.map fun (data, ordinal) => file.numbered ordinal data := by
  have opened := accepted
  rw [entries_eq, bind_eq_ok] at opened
  obtain ⟨data, opened, split⟩ := opened
  obtain ⟨files, split, -⟩ := map_eq_ok.1 split
  obtain ⟨contents, length, rfl⟩ := Bundle.exists_of_split split
  rw [entries_eq_of_split opened split, Except.ok.injEq] at accepted
  exact ⟨data, contents, opened, length, accepted.symm⟩

/-- Numbered entries are found at the place of their number. -/
theorem entry_eq (accepted : file.entries count =
      .ok (contents.zipIdx.map fun (data, ordinal) => file.numbered ordinal data)) (id : UInt32) :
    file.entry id count = (contents[id.toNat]?).elim (.error (.entryNotFound file.id id))
      fun data => .ok (file.numbered id.toNat data) := by
  have place := find?_numbered (fun (data, ordinal) => file.numbered ordinal data) Entry.id
    (fun _ => rfl) contents id
  unfold entry
  rw [accepted]
  simp only [bind, Except.bind, place]
  rw [List.getElem?_map, List.getElem?_zipIdx, Nat.zero_add]
  cases contents[id.toNat]? <;> rfl

theorem entry_eq_error {error : GroupError} (refused : file.entries count = .error error)
    (id : UInt32) : file.entry id count = .error error := by
  rw [entry, refused]
  rfl

section Packed

variable {strings : List Bytes} {container : Container}
  (opened : Container.decode file.data none = .ok container)
  (packed : Bundle.Packed strings container.data) (short : container.data.length < 2 ^ 31)
  (number : count.toNat = strings.length)

include opened packed short number

/-- Strings that are packed and put into a container are the entries of the file, if there is room for
them. -/
theorem entry_of_packed {id : UInt32} (inside : id.toNat < strings.length) :
    file.entry id count =
      if 24 * strings.length < 2 ^ 63 then .ok ⟨file.id, id, unnamed, strings[id.toNat]⟩
      else .error .capacityOverflow := by
  have stands : file.decoded = .ok container.data := by
    rw [decoded, openStored_eq_some_iff.2 opened]
    rfl
  split
  next room =>
    rw [entry_eq (entries_eq_of_split stands (packed.split_eq short number #[] #[] room)),
      List.getElem?_eq_getElem inside]
    simp [numbered]
  next large =>
    have refused := packed.split_of_no_room short number #[] #[] (not_lt.1 large)
    refine entry_eq_error ?_ id
    rw [entries_eq, stands]
    simp only [Except.bind, refused, Except.map]

end Packed

end File

end SectorVault
