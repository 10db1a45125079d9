import Mathlib
import SectorVault.Proofs.ReferenceTable.Sums

/-!
# Which ids are out of range

Reading a table reaches the sums that `accumulators` lists (`reaches_reader`).  So it fails for an id exactly if
one of these sums is out of range, and then for the first one, whether or not there are enough bytes for
what would follow; and if it comes to a table, the ids are the sums.

With two bytes to a number there are at most 65535 sums in a row, each at most 65535 more than the one before
(`sum_le_of_narrow`).  The greatest of them falls short of the last id by no more than twice that number, but
it does, so a table of such a protocol is read or truncated.
-/

namespace SectorVault
namespace ReferenceTable

variable {groups : List Group}

/-! ## What the columns reach -/

theorem fileColumn_eq (protocol : Protocol) (groups : List Group) :
    fileColumn protocol groups =
      (TableReader.each groups fun _ => protocol.field) >>= fun counts =>
        TableReader.each (groups.zip counts) (readFiles protocol) := rfl

theorem length_front (protocol : Protocol) {count : Nat} {bytes rest : Bytes}
    (whole : (protocol.front count bytes).2 = some rest) :
    (protocol.front count bytes).1.length = count := by
  induction count generalizing bytes with
  | zero => rfl
  | succ count ih =>
    rw [Protocol.front] at whole ⊢
    rcases field_eq protocol bytes with lacks | ⟨n, behind, field⟩
    · rw [lacks] at whole
      cases whole
    · rw [field] at whole ⊢
      simp only [List.length_cons] at whole ⊢
      rw [ih whole]

/-- The numbers of files and the ids of the files are read until a sum is out of range. -/
theorem reaches_fileColumn (protocol : Protocol) {count : Nat}
    (numbered : groups.map Group.ordinal = List.range count) (bytes : Bytes) :
    Reaches (fileColumn protocol groups) bytes (countedSums protocol count bytes) fun listed =>
      listed.map frame = groups.map frame ∧ listed.flatMap fileEntries =
        (countedSums protocol count bytes).map Accumulator.entry := by
  obtain rfl : groups.length = count := by simpa using congrArg List.length numbered
  have counts := counts_eq protocol groups bytes
  rw [fileColumn_eq]
  unfold countedSums
  cases behind : (protocol.front groups.length bytes).2 with
  | none =>
    rw [behind] at counts
    exact .short (bind_of_short counts)
  | some files =>
    rw [behind] at counts
    rw [List.range_eq_range'] at numbered
    have listed := reaches_readFiles protocol numbered (length_front protocol behind) files
    exact .past (a := (protocol.front groups.length bytes).1) listed counts

/-- Names are entered beside the ids, and take four bytes each. -/
theorem takesExactly_fileNames (group : Group) :
    TakesExactly (group.files.map fun _ => 4).sum (fileNames group) fun _ => True :=
  (TakesExactly.each fun _ _ => TableReader.takesExactly_signed.map _).map _

theorem fileEntries_eq {group named : Group} (same : frame named = frame group)
    (ids : named.files.map FileLabel.id = group.files.map FileLabel.id) :
    fileEntries named = fileEntries group := by
  have entries : ∀ group : Group, fileEntries group =
      (group.files.map FileLabel.id).map fun id => (group.ordinal, id) := by
    intro group
    rw [List.map_map]
    rfl
  have ordinal : named.ordinal = group.ordinal := congrArg Prod.fst same
  rw [entries, ids, ordinal, ← entries]

theorem reaches_names (flags : TableFlags) (groups : List Group) (bytes : Bytes) :
    Reaches (if flags.names then TableReader.each groups fileNames else pure groups) bytes []
      fun named => named.map frame = groups.map frame ∧
        named.flatMap fileEntries = groups.flatMap fileEntries := by
  split
  · have takes : TakesExactly (groups.map fun group => (group.files.map fun _ => 4).sum).sum
        (TableReader.each groups fileNames) fun _ => True :=
      TakesExactly.each fun group _ => takesExactly_fileNames group
    have frames : Ensures (TableReader.each groups fileNames) fun named =>
        named.map frame = groups.map frame := Ensures.each fun group _ => ensures_fileNames group
    have entries : Ensures (TableReader.each groups fileNames) fun named =>
        named.map fileEntries = groups.map fileEntries := by
      refine Ensures.each fun group _ => ?_
      refine ((ensures_fileNames group).and (ensures_ids_fileNames group)).mono ?_
      intro named ⟨same, ids⟩
      exact fileEntries_eq same ids
    refine Reaches.of_takesExactly (takes.of_ensures ((frames.and entries).mono ?_)) bytes
    intro named ⟨frames, entries⟩
    rw [List.flatMap_def, List.flatMap_def, entries]
    exact ⟨frames, rfl⟩
  · exact .whole rfl ⟨rfl, rfl⟩

theorem Refills.ordinals_eq {filled : List Group} (refills : Refills groups filled) :
    filled.map Group.ordinal = groups.map Group.ordinal := by
  have ordinals := congrArg (List.map Prod.fst) refills
  rwa [List.map_map, List.map_map] at ordinals

/-- Behind the ids of the groups, nothing but the files reaches a sum. -/
theorem reaches_columns (protocol : Protocol) (flags : TableFlags) {count : Nat}
    (numbered : groups.map Group.ordinal = List.range count) (bytes : Bytes) :
    Reaches (do
        let groups ← fixedColumns flags groups
        let groups ← fileColumn protocol groups
        if flags.names then TableReader.each groups fileNames else pure groups) bytes
      (columnSums protocol flags count bytes) fun listed =>
        listed.map frame = groups.map frame ∧ listed.flatMap fileEntries =
          (columnSums protocol flags count bytes).map Accumulator.entry := by
  have width := takesExactly_fixedColumns flags groups
  have length : groups.length = count := by simpa using congrArg List.length numbered
  rw [length] at width
  refine .after width (fun few => if_pos few) fun enough filled refills => ?_
  have beyond : columnSums protocol flags count bytes =
      countedSums protocol count (bytes.drop (count * flags.rowSize)) :=
    if_neg (Nat.not_lt.2 enough)
  have files := reaches_fileColumn protocol (refills.ordinals_eq.trans numbered)
    (bytes.drop (count * flags.rowSize))
  rw [beyond]
  refine files.bind fun listed rest ⟨frames, entries⟩ => ?_
  refine (reaches_names flags listed rest).mono fun named ⟨frames', entries'⟩ => ?_
  exact ⟨(frames'.trans frames).trans refills, entries'.trans entries⟩

/-- Groups whose ids are some sums. -/
theorem frames_blank (differences : List Nat) :
    (((groupSums differences).map fun accumulator => accumulator.entry.2).zipIdx.map
        fun (id, ordinal) => Group.blank ordinal id).map frame =
      (groupSums differences).map Accumulator.entry := by
  have ids : (groupSums differences).map (fun accumulator => accumulator.entry.2) =
      (sums differences).map UInt32.ofNat := by
    have fst : (sums differences).zipIdx.map Prod.fst = sums differences := List.zipIdx_map_fst 0 _
    conv_rhs => rw [← fst, List.map_map]
    simp [groupSums, Accumulator.entry, Function.comp_def]
  rw [ids]
  simp [groupSums, Accumulator.entry, frame, Group.blank, List.zipIdx_map, Function.comp_def]

theorem reaches_readGroups (protocol : Protocol) (flags : TableFlags) (count : Nat) (bytes : Bytes) :
    Reaches (readGroups protocol flags count) bytes (bodySums protocol flags count bytes) fun groups =>
      groups.map frame ++ groups.flatMap fileEntries =
        (bodySums protocol flags count bytes).map Accumulator.entry := by
  have ids := groupIds_eq protocol count bytes
  rw [readGroups_eq]
  unfold bodySums
  cases behind : (protocol.front count bytes).2 with
  | none =>
    rw [behind] at ids
    rw [List.append_nil]
    exact .short (bind_of_short ids)
  | some columns =>
    rw [behind] at ids
    have fronts := length_front protocol behind
    generalize (protocol.front count bytes).1 = differences at ids fronts
    let values := (groupSums differences).map fun accumulator => accumulator.entry.2
    have length : values.length = count := by simp [values, groupSums, sums, fronts]
    have listed := reaches_columns protocol flags (length ▸ map_ordinal_blank values) columns
    refine .mono (.behind listed ids) ?_
    rintro groups ⟨frames, entries⟩
    rw [frames, entries, frames_blank, List.map_append]

/-! ## Tables -/

theorem takesExactly_tableRevision (protocol : Protocol) :
    TakesExactly (if protocol.hasRevision then 4 else 0) (tableRevision protocol) fun _ => True := by
  unfold tableRevision
  split
  · exact TableReader.takesExactly_signed
  · exact .pure trivial

theorem accumulators_cons {number : UInt8} {protocol : Protocol}
    (supported : Protocol.ofNumber number = .ok protocol) (rest : Bytes) :
    accumulators (number :: rest) = headedSums protocol rest := by
  simp only [accumulators, supported]

/-- A table whose protocol is supported is read until a sum is out of range. -/
theorem reaches_reader {number : UInt8} {protocol : Protocol}
    (supported : Protocol.ofNumber number = .ok protocol) (rest : Bytes) :
    Reaches reader (number :: rest) (accumulators (number :: rest)) fun table =>
      table.groups.toList.map frame ++ table.groups.toList.flatMap fileEntries =
        (accumulators (number :: rest)).map Accumulator.entry := by
  have known : (liftM (Protocol.ofNumber number) : TableReader Protocol) rest =
      .ok (protocol, rest) := by
    rw [supported]
    rfl
  rw [accumulators_cons supported]
  refine .past (a := number) (.past (a := protocol) ?_ known) rfl
  refine .after (takesExactly_tableRevision protocol) (fun few => ?_) fun _ revision _ => ?_
  · unfold headedSums
    rw [List.drop_eq_nil_of_le few.le]
  unfold headedSums
  cases rest.drop (if protocol.hasRevision then 4 else 0) with
  | nil => exact .short rfl
  | cons flags counted =>
    refine .past (a := flags) ?_ rfl
    simp only
    rcases field_eq protocol counted with lacks | ⟨count, body, field⟩
    · rw [lacks]
      exact .short (bind_of_short lacks)
    · rw [field]
      refine .past (a := count) ?_ field
      exact (reaches_readGroups protocol (TableFlags.ofByte flags) count body).bind
        fun groups behind entries => .whole rfl entries

/-- Only tables of protocols that there are are read. -/
theorem exists_protocol_of_read {bytes : Bytes} {table : ReferenceTable}
    (accepted : read bytes = .ok table) :
    ∃ number rest protocol, bytes = number :: rest ∧ Protocol.ofNumber number = .ok protocol := by
  obtain ⟨⟨found, behind⟩, ran, rfl⟩ := map_eq_ok.1 accepted
  obtain ⟨⟨number, rest⟩, first, ran⟩ := bind_eq_ok.1 ran
  obtain ⟨⟨protocol, rest'⟩, known, -⟩ := bind_eq_ok.1 ran
  refine ⟨number, rest, protocol, ?_, ?_⟩
  · cases bytes with
    | nil => cases first
    | cons => cases first; rfl
  · cases supported : Protocol.ofNumber number with
    | error error =>
      rw [supported] at known
      cases known
    | ok =>
      rw [supported] at known
      cases known
      rfl

/-! ## Protocols whose fields take two bytes -/

section Narrow

variable {protocol : Protocol}

theorem front_le (narrow : protocol ≠ .variableWidth) (count : Nat) (bytes : Bytes) :
    (protocol.front count bytes).1.length ≤ count ∧
      ∀ n ∈ (protocol.front count bytes).1, n ≤ 0xFFFF := by
  induction count generalizing bytes with
  | zero => simp [Protocol.front]
  | succ count ih =>
    rw [Protocol.front]
    rcases field_eq protocol bytes with lacks | ⟨n, rest, field⟩
    · simp [lacks]
    · obtain ⟨length, small⟩ := ih rest
      have here : n ≤ 0xFFFF := Protocol.le_of_fits narrow (protocol.ensures_field _ _ _ field)
      rw [field]
      exact ⟨Nat.succ_le_succ length, List.forall_mem_cons.2 ⟨here, small⟩⟩

theorem le_of_mem_sums {differences : List Nat} {count most sum : Nat} (length : differences.length ≤ count)
    (small : ∀ difference ∈ differences, difference ≤ most) (mem : sum ∈ sums differences) :
    sum ≤ count * most := by
  obtain ⟨k, -, rfl⟩ := List.mem_map.1 mem
  calc (differences.take (k + 1)).sum
      ≤ (differences.take (k + 1)).length • most :=
        List.sum_le_card_nsmul _ _ fun n mem => small n (List.mem_of_mem_take mem)
    _ = (differences.take (k + 1)).length * most := smul_eq_mul _ _
    _ ≤ count * most := Nat.mul_le_mul_right _ ((List.length_take_le' _ _).trans length)

/-- So many sums in a row stay below the square of the greatest difference. -/
theorem le_of_mem_sums_front (narrow : protocol ≠ .variableWidth) {count sum : Nat} {bytes : Bytes}
    (few : count ≤ 0xFFFF) (mem : sum ∈ sums (protocol.front count bytes).1) :
    sum ≤ 0xFFFF * 0xFFFF := by
  obtain ⟨length, small⟩ := front_le narrow count bytes
  exact le_of_mem_sums (length.trans few) small mem

theorem le_of_mem_fileAccumulators (narrow : protocol ≠ .variableWidth) {counts : List Nat}
    {ordinal : Nat} {bytes : Bytes} (few : ∀ count ∈ counts, count ≤ 0xFFFF) :
    ∀ reached ∈ fileAccumulators protocol ordinal counts bytes, reached.sum ≤ 0xFFFF * 0xFFFF := by
  induction counts generalizing ordinal bytes with
  | nil => exact nofun
  | cons count counts ih =>
    obtain ⟨here, few⟩ := List.forall_mem_cons.1 few
    intro reached mem
    rw [fileAccumulators] at mem
    rcases List.mem_append.1 mem with mem | mem
    · obtain ⟨sum, listed, rfl⟩ := List.mem_map.1 mem
      exact le_of_mem_sums_front narrow here listed
    · split at mem
      · exact ih few reached mem
      · cases mem

theorem le_of_mem_bodySums (narrow : protocol ≠ .variableWidth) {flags : TableFlags} {count : Nat}
    (few : count ≤ 0xFFFF) {bytes : Bytes} :
    ∀ reached ∈ bodySums protocol flags count bytes, reached.sum ≤ 0xFFFF * 0xFFFF := by
  intro reached mem
  rcases List.mem_append.1 mem with mem | mem
  · obtain ⟨⟨sum, ordinal⟩, listed, rfl⟩ := List.mem_map.1 mem
    have among : sum ∈ sums (protocol.front count bytes).1 := List.fst_mem_of_mem_zipIdx listed
    exact le_of_mem_sums_front narrow few among
  · split at mem
    · unfold columnSums at mem
      split at mem
      · cases mem
      · unfold countedSums at mem
        split at mem
        · exact le_of_mem_fileAccumulators narrow (front_le narrow _ _).2 reached mem
        · cases mem
    · cases mem

/-- With two bytes to a number no sum is out of range. -/
theorem sum_le_of_narrow (narrow : protocol ≠ .variableWidth) (bytes : Bytes) :
    ∀ reached ∈ headedSums protocol bytes, reached.sum ≤ 0xFFFF * 0xFFFF := by
  intro reached mem
  unfold headedSums at mem
  split at mem
  · cases mem
  · split at mem
    · cases mem
    · next count body field =>
      have few : count ≤ 0xFFFF := Protocol.le_of_fits narrow (protocol.ensures_field _ _ _ field)
      exact le_of_mem_bodySums narrow few reached mem

end Narrow

/-! ## Failing for an id -/

theorem settle_eq_idOverflow_iff {α : Type} {reached : List Accumulator} {read : Option (α × Bytes)}
    {ordinal : Nat} : settle reached read = .error (.idOverflow ordinal) ↔
      ∃ accumulator, firstBeyond reached = some accumulator ∧ accumulator.ordinal = ordinal := by
  unfold settle
  cases firstBeyond reached <;> cases read <;> simp

theorem settle_of_inside {α : Type} {reached : List Accumulator} (inside : firstBeyond reached = none)
    (read : Option (α × Bytes)) :
    (∃ outcome, settle reached read = .ok outcome) ∨ settle reached read = .error .truncated := by
  unfold settle
  rw [inside]
  cases read with
  | none => exact .inr rfl
  | some outcome => exact .inl ⟨outcome, rfl⟩

/-- A table is read only if no sum is out of range. -/
theorem settle_eq_ok_iff {α : Type} {reached : List Accumulator} {read : Option (α × Bytes)}
    {outcome : α × Bytes} :
    settle reached read = .ok outcome ↔ firstBeyond reached = none ∧ read = some outcome := by
  unfold settle
  cases firstBeyond reached <;> cases read <;> simp

/-- Sums that are in range are the ids that they are entered as. -/
theorem eq_of_firstBeyond_eq_none {reached : List Accumulator} (inside : firstBeyond reached = none) :
    reached = (reached.map Accumulator.entry).map fun entry => ⟨entry.1, entry.2.toNat⟩ := by
  rw [List.map_map]
  refine (List.map_id' reached).symm.trans (List.map_congr_left fun accumulator mem => ?_)
  have small := List.find?_eq_none.1 inside accumulator mem
  have value : (UInt32.ofNat accumulator.sum).toNat = accumulator.sum := by
    refine UInt32.toNat_ofNat_of_lt' ?_
    simp only [decide_eq_true_eq] at small
    simp only [UInt32.size]
    omega
  rw [Function.comp_apply, Accumulator.entry, value]

/-- With two bytes to a number a table is read or truncated. -/
theorem read_of_narrow {number : UInt8} {protocol : Protocol}
    (supported : Protocol.ofNumber number = .ok protocol) (narrow : protocol ≠ .variableWidth)
    (rest : Bytes) :
    (∀ reached ∈ accumulators (number :: rest), reached.sum ≤ 0xFFFF * 0xFFFF) ∧
      ((∃ table, read (number :: rest) = .ok table) ∨ read (number :: rest) = .error .truncated) := by
  have below : ∀ reached ∈ accumulators (number :: rest), reached.sum ≤ 0xFFFF * 0xFFFF := by
    rw [accumulators_cons supported]
    exact sum_le_of_narrow narrow rest
  have inside : firstBeyond (accumulators (number :: rest)) = none := by
    refine List.find?_eq_none.2 fun reached mem => ?_
    have := below reached mem
    simp only [decide_eq_true_eq]
    omega
  refine ⟨below, ?_⟩
  obtain ⟨outcome, reads, -⟩ := reaches_reader supported rest
  rcases settle_of_inside inside outcome with ⟨⟨table, behind⟩, whole⟩ | short
  · exact .inl ⟨table, map_eq_ok.2 ⟨_, reads.trans whole, rfl⟩⟩
  · exact .inr (map_eq_error.2 (reads.trans short))

/-- The sums that are reached in a table that is read are its ids. -/
theorem accumulators_of_read {bytes : Bytes} {table : ReferenceTable}
    (accepted : read bytes = .ok table) : accumulators bytes =
      (table.groups.toList.map fun group => ⟨group.ordinal, group.id.toNat⟩) ++
        table.groups.toList.flatMap fun group =>
          group.files.map fun file => ⟨group.ordinal, file.id.toNat⟩ := by
  obtain ⟨number, rest, protocol, rfl, supported⟩ := exists_protocol_of_read accepted
  obtain ⟨outcome, reads, entries⟩ := reaches_reader supported rest
  obtain ⟨⟨found, behind⟩, ran, rfl⟩ := map_eq_ok.1 accepted
  obtain ⟨inside, there⟩ := settle_eq_ok_iff.1 (reads.symm.trans ran)
  rw [eq_of_firstBeyond_eq_none inside, ← entries found behind there]
  simp [frame, fileEntries, List.map_flatMap, Function.comp_def]

/-- **Ids are sums, and which of them are out of range.**  In a table of one of the first two protocols no
sum of differences gets out of the range of ids, so it is read, or it is truncated.  In a table of the third
one, the first sum that does, among those that are reached in the bytes that there are, is an error, which
names the group that it was reached for; and there is no other such error.  The sums that are reached in a
table that is read are its ids, those of the groups first and then those of the files, group by group. -/
theorem idOverflow_iff_beyond (bytes : Bytes) :
    (bytes.head? = some 5 ∨ bytes.head? = some 6 →
      (∀ reached ∈ accumulators bytes, reached.sum ≤ 65535 * 65535) ∧
      (∀ ordinal, read bytes ≠ .error (.idOverflow ordinal)) ∧
      ((∃ table, read bytes = .ok table) ∨ read bytes = .error .truncated)) ∧
    (bytes.head? = some 7 → ∀ ordinal, read bytes = .error (.idOverflow ordinal) ↔
      ∃ reached, (accumulators bytes).find? (fun reached => 2 ^ 32 - 1 < reached.sum) = some reached ∧
        reached.ordinal = ordinal) ∧
    (∀ table, read bytes = .ok table → accumulators bytes =
      (table.groups.toList.map fun group => ⟨group.ordinal, group.id.toNat⟩) ++
        table.groups.toList.flatMap fun group =>
          group.files.map fun file => ⟨group.ordinal, file.id.toNat⟩) := by
  refine ⟨fun head => ?_, fun head ordinal => ?_, fun table => accumulators_of_read⟩
  · have narrow : (∀ reached ∈ accumulators bytes, reached.sum ≤ 65535 * 65535) ∧
        ((∃ table, read bytes = .ok table) ∨ read bytes = .error .truncated) := by
      rcases head with head | head <;> obtain ⟨rest, rfl⟩ := List.head?_eq_some_iff.1 head
      · exact read_of_narrow (rfl : Protocol.ofNumber 5 = .ok .unversioned) nofun rest
      · exact read_of_narrow (rfl : Protocol.ofNumber 6 = .ok .versioned) nofun rest
    obtain ⟨below, either⟩ := narrow
    refine ⟨below, fun ordinal fails => ?_, either⟩
    rw [fails] at either
    simp at either
  · obtain ⟨rest, rfl⟩ := List.head?_eq_some_iff.1 head
    have supported : Protocol.ofNumber 7 = .ok .variableWidth := rfl
    obtain ⟨outcome, reads, -⟩ := reaches_reader supported rest
    have fails_iff : read (7 :: rest) = .error (.idOverflow ordinal) ↔
        reader (7 :: rest) = .error (.idOverflow ordinal) := map_eq_error
    rw [fails_iff, reads]
    exact settle_eq_idOverflow_iff

/-- A table of two groups, of which the second one has three files, the first two of them as far apart as
files can be. -/
def crowdedTable (difference : UInt8) : Bytes :=
  [7, 0, 0, 0, 0, 0, 0, 2, 0, 9, 0, 0] ++ List.replicate 16 0 ++ [0, 0, 0, 3] ++
    [255, 255, 255, 255, 255, 255, 255, 255, 0, difference]

/-- The sum after the last id of all is the error of the group that the file is of, the last id of all is none,
and a short table with two bytes to a number is no more than truncated. -/
theorem idOverflow_iff_beyond_crowded :
    read (crowdedTable 2) = .error (.idOverflow 1) ∧
    (∃ table, read (crowdedTable 1) = .ok table ∧
      (accumulators (crowdedTable 1)).map Accumulator.sum = [9, 9, 2 ^ 31 - 1, 2 ^ 32 - 2, 2 ^ 32 - 1] ∧
      accumulators (crowdedTable 1) =
        (table.groups.toList.map fun group => ⟨group.ordinal, group.id.toNat⟩) ++
          table.groups.toList.flatMap fun group =>
            group.files.map fun file => ⟨group.ordinal, file.id.toNat⟩) ∧
    ∀ ordinal, read [6, 0, 0, 0, 0, 0, 0, 2, 255, 255, 255] ≠ .error (.idOverflow ordinal) := by
  obtain ⟨-, beyond_iff, -⟩ := idOverflow_iff_beyond (crowdedTable 2)
  have beyond : (accumulators (crowdedTable 2)).find? (fun reached => 2 ^ 32 - 1 < reached.sum) =
      some ⟨1, 2 ^ 32⟩ := by decide
  obtain ⟨table, accepted⟩ : ∃ table, read (crowdedTable 1) = .ok table := ⟨_, rfl⟩
  obtain ⟨-, -, ids⟩ := idOverflow_iff_beyond (crowdedTable 1)
  obtain ⟨narrow, -⟩ := idOverflow_iff_beyond [6, 0, 0, 0, 0, 0, 0, 2, 255, 255, 255]
  obtain ⟨-, never, -⟩ := narrow (.inr rfl)
  have sums : (accumulators (crowdedTable 1)).map Accumulator.sum =
      [9, 9, 2 ^ 31 - 1, 2 ^ 32 - 2, 2 ^ 32 - 1] := by decide
  exact ⟨(beyond_iff rfl 1).2 ⟨_, beyond, rfl⟩, ⟨table, accepted, sums, ids table accepted⟩, never⟩

end ReferenceTable
end SectorVault
