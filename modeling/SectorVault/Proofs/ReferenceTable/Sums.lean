import Mathlib
import SectorVault.Proofs.ReferenceTable.Capacity
import SectorVault.Proofs.ReferenceTable.Widths

/-!
# Ids as sums

Ids are sums of differences, and a sum can get out of the range of ids.  What that means is said here without
the reading: `accumulators` goes through the bytes of a table, adds the differences up as they are, minds no
range, and lists the sums in the order in which it gets to them, as far as there are bytes.

Reading a table is the same walk, except that it ends at the first sum that is out of range.  So what it comes
to is told by the list and by whether there are enough bytes (`settle`), and this is followed from one part of
a table to the next: a part that the bytes do not suffice for ends the walk (`bind_of_short`), and behind
any other part the sums of what follows are appended (`bind_of_whole`).  Where it does not matter what is left
of the bytes, `Reaches` says so much and what holds of what is read.

Here the two are compared for the ids of groups, for the numbers of files and for the ids of files.
-/

namespace SectorVault

/-! ## Sums without a range -/

/-- The sums of the fronts of a list, from the shortest one that is not empty to the whole list. -/
def sums (differences : List Nat) : List Nat :=
  (List.range differences.length).map fun k => (differences.take (k + 1)).sum

theorem sums_cons (difference : Nat) (differences : List Nat) :
    sums (difference :: differences) = difference :: (sums differences).map (difference + ·) := by
  simp [sums, List.range_succ_eq_map, Function.comp_def]

/-- The fields at the front of a string, up to `count` of them, and what is behind them if there are so
many. -/
def Protocol.front (protocol : Protocol) : Nat → Bytes → List Nat × Option Bytes
  | 0, bytes => ([], some bytes)
  | count + 1, bytes =>
    match protocol.field bytes with
    | .ok (n, rest) => ((n :: (protocol.front count rest).1), (protocol.front count rest).2)
    | .error _ => ([], none)

namespace ReferenceTable

/-- A sum that is reached in a table, for an id of the group at an ordinal or of one of its files. -/
structure Accumulator where
  /-- The ordinal of the group. -/
  ordinal : Nat
  /-- The sum of the differences up to the id. -/
  sum : Nat
  deriving DecidableEq, Repr

/-- The ordinal, and the id that the sum is if it is in range. -/
def Accumulator.entry (accumulator : Accumulator) : Nat × UInt32 :=
  (accumulator.ordinal, UInt32.ofNat accumulator.sum)

/-- The sums for the ids of groups. -/
def groupSums (differences : List Nat) : List Accumulator :=
  (sums differences).zipIdx.map fun (sum, ordinal) => ⟨ordinal, sum⟩

/-- The sums for the ids of the files of the group at an ordinal. -/
def fileSums (ordinal : Nat) (differences : List Nat) : List Accumulator :=
  (sums differences).map fun sum => ⟨ordinal, sum⟩

/-- The sums for the ids of the files of the groups from an ordinal on, given the numbers of files. -/
def fileAccumulators (protocol : Protocol) : Nat → List Nat → Bytes → List Accumulator
  | _, [], _ => []
  | ordinal, count :: counts, bytes =>
    fileSums ordinal (protocol.front count bytes).1 ++
      match (protocol.front count bytes).2 with
      | some rest => fileAccumulators protocol (ordinal + 1) counts rest
      | none => []

/-- The sums for the ids of files that are reached from the numbers of files on. -/
def countedSums (protocol : Protocol) (count : Nat) (bytes : Bytes) : List Accumulator :=
  match (protocol.front count bytes).2 with
  | some files => fileAccumulators protocol 0 (protocol.front count bytes).1 files
  | none => []

/-- The sums for the ids of files that are reached behind the ids of the groups. -/
def columnSums (protocol : Protocol) (flags : TableFlags) (count : Nat) (bytes : Bytes) :
    List Accumulator :=
  if bytes.length < count * flags.rowSize then []
  else countedSums protocol count (bytes.drop (count * flags.rowSize))

/-- The sums that are reached behind the number of groups. -/
def bodySums (protocol : Protocol) (flags : TableFlags) (count : Nat) (bytes : Bytes) :
    List Accumulator :=
  groupSums (protocol.front count bytes).1 ++
    match (protocol.front count bytes).2 with
    | some columns => columnSums protocol flags count columns
    | none => []

/-- The sums that are reached behind the number of the protocol. -/
def headedSums (protocol : Protocol) (bytes : Bytes) : List Accumulator :=
  match bytes.drop (if protocol.hasRevision then 4 else 0) with
  | [] => []
  | flags :: counted =>
    match protocol.field counted with
    | .error _ => []
    | .ok (count, body) => bodySums protocol (TableFlags.ofByte flags) count body

/-- The sums that are reached in a table, in the order in which they are. -/
def accumulators : Bytes → List Accumulator
  | [] => []
  | number :: rest =>
    match Protocol.ofNumber number with
    | .error _ => []
    | .ok protocol => headedSums protocol rest

/-! ## The first sum that is out of range -/

/-- The first sum that is no id. -/
def firstBeyond (reached : List Accumulator) : Option Accumulator :=
  reached.find? fun accumulator => 2 ^ 32 - 1 < accumulator.sum

/-- What a reader comes to that reaches some sums, and comes to `read` if none of them is out of range. -/
def settle {α : Type} (reached : List Accumulator) (read : Option (α × Bytes)) :
    Except TableError (α × Bytes) :=
  match firstBeyond reached with
  | some accumulator => .error (.idOverflow accumulator.ordinal)
  | none =>
    match read with
    | some outcome => .ok outcome
    | none => .error .truncated

theorem settle_cons_of_inside {α : Type} {accumulator : Accumulator} {reached : List Accumulator}
    (inside : accumulator.sum < idRange) (read : Option (α × Bytes)) :
    settle (accumulator :: reached) read = settle reached read := by
  have first : firstBeyond (accumulator :: reached) = firstBeyond reached := by
    refine List.find?_cons_of_neg ?_
    simp only [idRange, UInt32.size] at inside
    simp only [decide_eq_true_eq]
    omega
  unfold settle
  rw [first]

theorem settle_cons_of_beyond {α : Type} {accumulator : Accumulator} {reached : List Accumulator}
    (beyond : ¬ accumulator.sum < idRange) (read : Option (α × Bytes)) :
    settle (accumulator :: reached) read = .error (.idOverflow accumulator.ordinal) := by
  have first : firstBeyond (accumulator :: reached) = some accumulator := by
    refine List.find?_cons_of_pos ?_
    simp only [idRange, UInt32.size] at beyond
    simp only [decide_eq_true_eq]
    omega
  unfold settle
  rw [first]

section Settle

variable {α β : Type} {reader : TableReader α} {next : α → TableReader β} {bytes : Bytes}
  {reached more : List Accumulator}

/-- If the bytes do not suffice for the first part, what follows does not matter. -/
theorem bind_of_short (first : reader bytes = settle reached none) :
    (reader >>= next) bytes = settle reached none := by
  rw [TableReader.bind_apply, first]
  unfold settle
  cases firstBeyond reached <;> rfl

/-- Otherwise the sums that are reached behind the first part follow those that are reached in it. -/
theorem bind_of_whole {a : α} {between : Bytes} {read : Option (β × Bytes)}
    (first : reader bytes = settle reached (some (a, between)))
    (second : next a between = settle more read) :
    (reader >>= next) bytes = settle (reached ++ more) read := by
  have joined : firstBeyond (reached ++ more) = (firstBeyond reached).or (firstBeyond more) :=
    List.find?_append
  rw [TableReader.bind_apply, first]
  unfold settle at second ⊢
  rw [joined]
  cases firstBeyond reached with
  | some accumulator => rfl
  | none => exact second

end Settle

/-- A reader reaches some sums in a string, and what it comes to, if anything, satisfies a predicate. -/
def Reaches {α : Type} (reader : TableReader α) (bytes : Bytes) (reached : List Accumulator)
    (P : α → Prop) : Prop :=
  ∃ read, reader bytes = settle reached read ∧ ∀ a rest, read = some (a, rest) → P a

namespace Reaches

variable {α β : Type} {reader : TableReader α} {next : α → TableReader β} {bytes rest : Bytes}
  {reached more : List Accumulator} {P Q : α → Prop} {R : β → Prop} {a : α}

theorem short (lacks : reader bytes = settle reached none) : Reaches reader bytes reached P :=
  ⟨none, lacks, nofun⟩

theorem whole (read : reader bytes = settle reached (some (a, rest))) (h : P a) :
    Reaches reader bytes reached P := by
  refine ⟨some (a, rest), read, ?_⟩
  rintro _ _ ⟨⟩
  exact h

theorem mono (reaches : Reaches reader bytes reached P) (imp : ∀ a, P a → Q a) :
    Reaches reader bytes reached Q := by
  obtain ⟨read, reads, h⟩ := reaches
  exact ⟨read, reads, fun a rest found => imp a (h a rest found)⟩

/-- What follows a part that is there adds what it reaches. -/
theorem behind (second : Reaches (next a) rest more R)
    (first : reader bytes = settle reached (some (a, rest))) :
    Reaches (reader >>= next) bytes (reached ++ more) R := by
  obtain ⟨read, reads, h⟩ := second
  exact ⟨read, bind_of_whole first reads, h⟩

/-- Nothing but what follows is reached if the first part is there and reaches nothing. -/
theorem past (second : Reaches (next a) rest reached R) (first : reader bytes = .ok (a, rest)) :
    Reaches (reader >>= next) bytes reached R := by
  have read : reader bytes = settle [] (some (a, rest)) := first
  exact second.behind read

/-- What follows adds nothing if it reaches nothing. -/
theorem bind (first : Reaches reader bytes reached P)
    (second : ∀ a rest, P a → Reaches (next a) rest [] R) :
    Reaches (reader >>= next) bytes reached R := by
  obtain ⟨_ | ⟨a, rest⟩, reads, h⟩ := first
  · exact .short (bind_of_short reads)
  · rw [← List.append_nil reached]
    exact (second a rest (h a rest rfl)).behind reads

theorem of_takesExactly {width : Nat} (takes : TakesExactly width reader P) (bytes : Bytes) :
    Reaches reader bytes [] P := by
  rcases takes bytes with ⟨-, lacks⟩ | ⟨-, a, read, h⟩
  · exact .short lacks
  · exact .whole read h

/-- A part of fixed width reaches nothing. -/
theorem after {width : Nat} (takes : TakesExactly width reader P)
    (nothing : bytes.length < width → reached = [])
    (second : width ≤ bytes.length → ∀ a, P a → Reaches (next a) (bytes.drop width) reached R) :
    Reaches (reader >>= next) bytes reached R := by
  rcases takes bytes with ⟨few, lacks⟩ | ⟨enough, a, read, h⟩
  · rw [nothing few]
    exact .short (bind_of_short lacks)
  · exact (second enough a h).past read

end Reaches

/-! ## Ids -/

/-- The sums that are reached from `last` on, for groups if `step` is one and for files if it is zero. -/
def running (step : Nat) : Nat → Nat → List Nat → List Accumulator
  | _, _, [] => []
  | ordinal, last, difference :: differences =>
    ⟨ordinal, last + difference⟩ ::
      running step (ordinal + step) (last + difference) differences

theorem running_eq (step ordinal last : Nat) (differences : List Nat) :
    running step ordinal last differences =
      (sums differences).zipIdx.map fun (sum, k) => ⟨ordinal + step * k, last + sum⟩ := by
  induction differences generalizing ordinal last with
  | nil => rfl
  | cons difference differences ih =>
    rw [running, ih, sums_cons, List.zipIdx_cons, List.map_cons, List.zipIdx_map, List.map_map,
      List.zipIdx_succ, List.map_map]
    simp only [Nat.mul_zero, Nat.add_zero, List.cons.injEq, true_and]
    refine List.map_congr_left fun item _ => ?_
    simp [Nat.mul_succ, Nat.add_assoc, Nat.add_comm step]

theorem field_eq (protocol : Protocol) (bytes : Bytes) :
    protocol.field bytes = .error .truncated ∨
      ∃ n rest, protocol.field bytes = .ok (n, rest) := by
  rcases protocol.acceptsAny_field bytes with lacks | ⟨front, rest, n, rfl, -, reads⟩
  · exact .inl lacks
  · exact .inr ⟨n, rest, reads rest⟩

/-- Reading ids is adding up differences until a sum is out of range. -/
theorem idsFrom_eq (protocol : Protocol) (step count ordinal last : Nat) (done : List UInt32)
    (bytes : Bytes) :
    idsFrom protocol step count ordinal last done bytes =
      let reached := running step ordinal last (protocol.front count bytes).1
      settle reached ((protocol.front count bytes).2.map fun rest =>
        (done.reverse ++ reached.map fun accumulator => accumulator.entry.2, rest)) := by
  induction count generalizing ordinal last done bytes with
  | zero => simp [idsFrom, Protocol.front, running, settle, firstBeyond]
  | succ count ih =>
    rw [idsFrom, Protocol.front]
    rcases field_eq protocol bytes with lacks | ⟨n, rest, field⟩
    · rw [lacks]
      rfl
    · rw [field]
      simp only
      split
      · next inside =>
        rw [ih, running, settle_cons_of_inside inside]
        simp [Accumulator.entry]
      · next beyond =>
        rw [running, settle_cons_of_beyond beyond]

theorem groupIds_eq (protocol : Protocol) (count : Nat) (bytes : Bytes) :
    groupIds protocol count bytes =
      let reached := groupSums (protocol.front count bytes).1
      settle reached ((protocol.front count bytes).2.map fun rest =>
        (reached.map fun accumulator => accumulator.entry.2, rest)) := by
  refine (idsFrom_eq protocol 1 count 0 0 [] bytes).trans ?_
  simp [running_eq, groupSums]

theorem fileIds_eq (protocol : Protocol) (ordinal count : Nat) (bytes : Bytes) :
    fileIds protocol ordinal count bytes =
      let reached := fileSums ordinal (protocol.front count bytes).1
      settle reached ((protocol.front count bytes).2.map fun rest =>
        (reached.map fun accumulator => accumulator.entry.2, rest)) := by
  have places : ∀ differences, running 0 ordinal 0 differences = fileSums ordinal differences := by
    intro differences
    have fst : (sums differences).zipIdx.map Prod.fst = sums differences := List.zipIdx_map_fst 0 _
    rw [running_eq, fileSums]
    conv_rhs => rw [← fst, List.map_map]
    simp [Function.comp_def]
  refine (idsFrom_eq protocol 0 count ordinal 0 [] bytes).trans ?_
  rw [places]
  rfl

/-! ## Files -/

/-- The numbers of files are read if there are enough bytes. -/
theorem counts_eq (protocol : Protocol) (groups : List Group) (bytes : Bytes) :
    (TableReader.each groups fun _ => protocol.field) bytes =
      settle [] ((protocol.front groups.length bytes).2.map fun rest =>
        ((protocol.front groups.length bytes).1, rest)) := by
  have from_done : ∀ (groups : List Group) (done : List Nat) (bytes : Bytes),
      TableReader.eachFrom (fun _ => protocol.field) groups done bytes =
        settle [] ((protocol.front groups.length bytes).2.map fun rest =>
          (done.reverse ++ (protocol.front groups.length bytes).1, rest)) := by
    intro groups
    induction groups with
    | nil =>
      intro done bytes
      simp [TableReader.eachFrom, Protocol.front, settle, firstBeyond]
    | cons group groups ih =>
      intro done bytes
      rw [TableReader.eachFrom, List.length_cons, Protocol.front]
      rcases field_eq protocol bytes with lacks | ⟨n, rest, field⟩
      · rw [lacks]
        rfl
      · rw [field]
        simp only
        rw [ih]
        simp
  exact from_done groups [] bytes

/-- Reads the ids of the files of one group. -/
def readFiles (protocol : Protocol) (item : Group × Nat) : TableReader Group := do
  let ids ← fileIds protocol item.1.ordinal item.2
  return { item.1 with files := ids.map fun id => ⟨id, unnamed⟩ }

/-- A group with the files whose ids are some sums. -/
def fillFiles (group : Group) (reached : List Accumulator) : Group :=
  { group with
    files := (reached.map fun accumulator => accumulator.entry.2).map fun id => ⟨id, unnamed⟩ }

/-- The ids of the files of a group, each with the ordinal of the group. -/
def fileEntries (group : Group) : List (Nat × UInt32) :=
  group.files.map fun file => (group.ordinal, file.id)

theorem fileEntries_fillFiles (group : Group) (differences : List Nat) :
    fileEntries (fillFiles group (fileSums group.ordinal differences)) =
      (fileSums group.ordinal differences).map Accumulator.entry := by
  simp [fileEntries, fillFiles, fileSums, Accumulator.entry, Function.comp_def]

theorem readFiles_eq (protocol : Protocol) (group : Group) (count : Nat) (bytes : Bytes) :
    readFiles protocol (group, count) bytes =
      settle (fileSums group.ordinal (protocol.front count bytes).1)
        ((protocol.front count bytes).2.map fun rest =>
          (fillFiles group (fileSums group.ordinal (protocol.front count bytes).1), rest)) := by
  have ids := fileIds_eq protocol group.ordinal count bytes
  cases behind : (protocol.front count bytes).2 with
  | none =>
    rw [behind] at ids
    exact bind_of_short ids
  | some rest =>
    rw [behind] at ids
    have whole : readFiles protocol (group, count) bytes =
        settle (fileSums group.ordinal (protocol.front count bytes).1 ++ [])
          (some (fillFiles group (fileSums group.ordinal (protocol.front count bytes).1), rest)) :=
      bind_of_whole ids rfl
    rwa [List.append_nil] at whole

/-- The ids of the files are read until a sum is out of range. -/
theorem reaches_readFiles (protocol : Protocol) {groups : List Group} {counts : List Nat}
    {ordinal : Nat} (numbered : groups.map Group.ordinal = List.range' ordinal groups.length)
    (same : counts.length = groups.length) (bytes : Bytes) :
    Reaches (TableReader.each (groups.zip counts) (readFiles protocol)) bytes
      (fileAccumulators protocol ordinal counts bytes) fun listed =>
        listed.map frame = groups.map frame ∧ listed.flatMap fileEntries =
          (fileAccumulators protocol ordinal counts bytes).map Accumulator.entry := by
  have from_done : ∀ (groups : List Group) (counts : List Nat) (ordinal : Nat) (done : List Group)
      (bytes : Bytes), groups.map Group.ordinal = List.range' ordinal groups.length →
      counts.length = groups.length →
      Reaches (TableReader.eachFrom (readFiles protocol) (groups.zip counts) done) bytes
        (fileAccumulators protocol ordinal counts bytes) fun listed =>
          ∃ more, listed = done.reverse ++ more ∧ more.map frame = groups.map frame ∧
            more.flatMap fileEntries =
              (fileAccumulators protocol ordinal counts bytes).map Accumulator.entry := by
    intro groups
    induction groups with
    | nil =>
      intro counts ordinal done bytes _ same
      obtain rfl := List.eq_nil_of_length_eq_zero same
      exact .whole rfl ⟨[], by simp, rfl, rfl⟩
    | cons group groups ih =>
      intro counts ordinal done bytes numbered same
      obtain ⟨count, counts, rfl⟩ := List.exists_cons_of_length_eq_add_one same
      obtain ⟨rfl, numbered⟩ := List.cons.inj numbered
      have first := readFiles_eq protocol group count bytes
      rw [List.zip_cons_cons, TableReader.eachFrom_cons, fileAccumulators]
      cases behind : (protocol.front count bytes).2 with
      | none =>
        rw [behind] at first
        rw [List.append_nil]
        exact .short (bind_of_short first)
      | some rest =>
        rw [behind] at first
        let filled := fillFiles group (fileSums group.ordinal (protocol.front count bytes).1)
        have others := ih counts (group.ordinal + 1) (filled :: done) rest numbered
          (Nat.succ.inj same)
        refine .mono (.behind (a := filled) others first)
          fun listed ⟨more, all, frames, entries⟩ => ?_
        refine ⟨filled :: more, by simpa using all, ?_, ?_⟩
        · rw [List.map_cons, List.map_cons, frames]
          rfl
        · rw [List.flatMap_cons, entries, fileEntries_fillFiles, List.map_append]
  refine (from_done groups counts ordinal [] bytes numbered same).mono fun listed => ?_
  rintro ⟨more, rfl, frames, entries⟩
  exact ⟨frames, entries⟩

end ReferenceTable
end SectorVault
