import Mathlib
import SectorVault.Proofs.ReferenceTable.Accepted
import SectorVault.Proofs.ReferenceTable.Onward

/-!
# Where a table ends

A table that is read is read off a front of the bytes, and the front alone decides: what follows it does
not matter, and without its last bytes there is no table at all but a truncated one.

The counts in a table can be checked against the length of that front.  `Takes reader R` relates what is read
to the number of bytes it was read from, and it adds up along the columns: every group that is listed has
paid twelve bytes, two for its id, four each for its checksum and its revision and two for the number of its
files, and every file two bytes for its id (`takes_readGroups`).  So no table lists more than it has bytes
for, whatever its counts say.

The main statement is `read_eq_of_front`.
-/

namespace SectorVault

/-! ## What is taken -/

/-- What a reader reads, and the number of bytes it takes for it, are related. -/
def Takes {α : Type} (reader : TableReader α) (R : α → Nat → Prop) : Prop :=
  ∀ bytes a rest, reader bytes = .ok (a, rest) → ∃ n, bytes.length = n + rest.length ∧ R a n

namespace Takes

variable {α β : Type} {reader : TableReader α} {R S : α → Nat → Prop}

theorem pure {a : α} (h : R a 0) : Takes (Pure.pure a) R := by
  intro bytes b rest read
  cases read
  exact ⟨0, (Nat.zero_add _).symm, h⟩

theorem mono (takes : Takes reader S) (imp : ∀ a n, S a n → R a n) : Takes reader R := by
  intro bytes a rest read
  obtain ⟨n, length, h⟩ := takes bytes a rest read
  exact ⟨n, length, imp a n h⟩

theorem bind {next : α → TableReader β} {T : β → Nat → Prop} (first : Takes reader R)
    (second : ∀ a n, R a n → Takes (next a) fun b m => T b (n + m)) :
    Takes (reader >>= next) T := by
  intro bytes b rest read
  rw [TableReader.bind_apply] at read
  obtain ⟨⟨a, between⟩, readFirst, readSecond⟩ := bind_eq_ok.1 read
  obtain ⟨n, length, h⟩ := first bytes a between readFirst
  obtain ⟨m, length', h'⟩ := second a n h between b rest readSecond
  exact ⟨n + m, by omega, h'⟩

/-- A predicate of what is read holds whatever is taken for it. -/
theorem of_ensures {P : α → Prop} (ensures : Ensures reader P) (onward : Onward reader) :
    Takes reader fun a _ => P a := by
  intro bytes a rest read
  obtain ⟨taken, rfl, -⟩ := onward.reads read
  exact ⟨taken.length, List.length_append, ensures _ a rest read⟩

theorem of_acceptsAny {least : Nat} (accepts : AcceptsAny least reader) :
    Takes reader fun _ n => least ≤ n := by
  intro bytes a rest read
  obtain ⟨front, rfl, le, -⟩ := accepts.exists_front read
  exact ⟨front.length, List.length_append, le⟩

/-- A reader that runs for every element of a list takes what it takes for each of them. -/
theorem each {as : List α} {read : α → TableReader β} {weight : β → Nat}
    (takes : ∀ a ∈ as, Takes (read a) fun b n => weight b ≤ n) :
    Takes (TableReader.each as read) fun bs n =>
      bs.length = as.length ∧ (bs.map weight).sum ≤ n := by
  have from_done : ∀ (as : List α) (done : List β),
      (∀ a ∈ as, Takes (read a) fun b n => weight b ≤ n) →
      Takes (TableReader.eachFrom read as done : TableReader (List β)) fun bs n =>
        bs.length = done.length + as.length ∧ (bs.map weight).sum ≤ (done.map weight).sum + n := by
    intro as
    induction as with
    | nil => exact fun done _ => .pure (by simp)
    | cons a as ih =>
      intro done takes
      rw [TableReader.eachFrom_cons]
      refine (takes a (by simp)).bind fun b n enough => ?_
      refine (ih (b :: done) fun a mem => takes a (by simp [mem])).mono fun bs m rest => ?_
      simp only [List.length_cons, List.map_cons, List.sum_cons] at rest ⊢
      omega
  exact (from_done as [] takes).mono fun bs n all => by simpa using all

end Takes

namespace ReferenceTable

/-- The number of files of some groups. -/
def fileCount (groups : List Group) : Nat := (groups.map fun group => group.files.length).sum

variable {protocol : Protocol} {groups : List Group}

theorem takes_idsFrom (step count ordinal last : Nat) (done : List UInt32) :
    Takes (idsFrom protocol step count ordinal last done : TableReader (List UInt32))
      fun ids n => ids.length = done.length + count ∧ 2 * count ≤ n := by
  induction count generalizing ordinal last done with
  | zero => exact .pure (by simp)
  | succ count ih =>
    rw [idsFrom_succ]
    refine (Takes.of_acceptsAny protocol.acceptsAny_field).bind fun difference n enough => ?_
    split
    · refine (ih _ _ _).mono fun ids m rest => ?_
      simp only [List.length_cons] at rest
      omega
    · exact nofun

theorem takes_column {α : Type} {least : Nat} {read : TableReader α}
    (accepts : AcceptsAny least read) (enter : Group → α → Group) :
    Takes (column read enter groups) fun filled n =>
      filled.length = groups.length ∧ least * groups.length ≤ n := by
  have each : Takes (column read enter groups) fun filled n =>
      filled.length = groups.length ∧ (filled.map fun _ => least).sum ≤ n :=
    Takes.each fun group _ => Takes.of_acceptsAny (accepts.map (enter group))
  refine each.mono fun filled n ⟨length, enough⟩ => ⟨length, ?_⟩
  rw [List.map_const', List.sum_replicate, smul_eq_mul, length] at enough
  rwa [Nat.mul_comm]

theorem takes_columnIf {α : Type} {least : Nat} {read : TableReader α}
    (accepts : AcceptsAny least read) (present : Bool) (enter : Group → α → Group) :
    Takes (columnIf present read enter groups) fun filled _ => filled.length = groups.length := by
  cases present with
  | false => exact .pure rfl
  | true => exact (takes_column accepts enter).mono fun _ _ all => all.1

theorem takes_fileIds (protocol : Protocol) (group : Group) (count : Nat) :
    Takes (do
      let ids ← fileIds protocol group.ordinal count
      return { group with files := ids.map fun id => ⟨id, unnamed⟩ }) fun listed n =>
        2 * listed.files.length ≤ n := by
  refine (takes_idsFrom 0 count group.ordinal 0 []).bind fun ids n enough => .pure ?_
  simp only [List.length_map, List.length_nil] at enough ⊢
  omega

theorem takes_fileColumn (groups : List Group) :
    Takes (fileColumn protocol groups) fun listed n =>
      listed.length = groups.length ∧ 2 * groups.length + 2 * fileCount listed ≤ n := by
  have counted : Takes (TableReader.each groups fun _ => protocol.field) fun counts n =>
      counts.length = groups.length ∧ (counts.map fun _ => 2).sum ≤ n :=
    Takes.each fun _ _ => Takes.of_acceptsAny protocol.acceptsAny_field
  refine counted.bind fun counts n ⟨length, enough⟩ => ?_
  rw [List.map_const', List.sum_replicate, smul_eq_mul, length] at enough
  have filled : Takes (TableReader.each (groups.zip counts) _) fun listed m =>
      listed.length = (groups.zip counts).length ∧
        (listed.map fun group : Group => 2 * group.files.length).sum ≤ m :=
    Takes.each fun item _ => takes_fileIds protocol item.1 item.2
  refine filled.mono fun listed m ⟨same, files⟩ => ?_
  rw [List.length_zip, length, min_self] at same
  rw [List.sum_map_mul_left] at files
  unfold fileCount
  omega

theorem ensures_length_fileNames (group : Group) :
    Ensures (fileNames group) fun named => named.files.length = group.files.length :=
  (ensures_ids_fileNames group).mono fun named same => by simpa using congrArg List.length same

/-- Every group that is listed takes twelve bytes, and every file of it two more. -/
theorem takes_readGroups (flags : TableFlags) (count : Nat) :
    Takes (readGroups protocol flags count) fun groups n =>
      12 * groups.length + 2 * fileCount groups ≤ n := by
  have word := TableReader.acceptsAny_word
  have signed := TableReader.acceptsAny_signed
  refine (takes_idsFrom 1 count 0 0 []).bind fun ids n₁ ids₁ => ?_
  refine (takes_columnIf signed flags.names _).bind fun named n₂ names => ?_
  refine (takes_column word _).bind fun summed n₃ crcs => ?_
  refine (takes_columnIf word flags.uncompressedCrcs _).bind fun plain n₄ plains => ?_
  refine (takes_columnIf acceptsAny_takeDigest flags.digests _).bind fun digested n₅ digests => ?_
  refine (takes_columnIf acceptsAny_lengths flags.lengths _).bind fun measured n₆ lengths => ?_
  refine (takes_column signed _).bind fun revised n₇ revisions => ?_
  refine (takes_fileColumn revised).bind fun listed n₈ files => ?_
  have enough : 12 * listed.length + 2 * fileCount listed ≤
      n₁ + (n₂ + (n₃ + (n₄ + (n₅ + (n₆ + (n₇ + n₈)))))) := by
    simp only [List.length_map, List.length_zipIdx, List.length_nil, Nat.zero_add] at ids₁ names
    omega
  split
  · have sizes : Ensures (TableReader.each listed fileNames) fun labelled =>
        labelled.map (fun group => group.files.length) =
          listed.map fun group => group.files.length :=
      Ensures.each fun group _ => ensures_length_fileNames group
    refine (Takes.of_ensures sizes (TableReader.onward_each onward_fileNames)).mono
      fun labelled n₉ same => ?_
    have length : labelled.length = listed.length := by simpa using congrArg List.length same
    have count : fileCount labelled = fileCount listed := congrArg List.sum same
    omega
  · exact .pure (by omega)

theorem takes_reader : Takes reader fun table n =>
    12 * table.groups.size + 2 * fileCount table.groups.toList ≤ n := by
  have header : ∀ {α : Type} {reader : TableReader α}, Onward reader →
      Takes reader fun _ _ => True := fun onward => .of_ensures (Ensures.trivial _) onward
  refine (header TableReader.acceptsAny_byte.onward).bind fun number n₁ _ => ?_
  refine (header (Protocol.onward_ofNumber number)).bind fun protocol n₂ _ => ?_
  refine (header (onward_tableRevision protocol)).bind fun revision n₃ _ => ?_
  refine (header TableReader.acceptsAny_byte.onward).bind fun flags n₄ _ => ?_
  refine (header protocol.acceptsAny_field.onward).bind fun count n₅ _ => ?_
  refine (takes_readGroups _ count).bind fun groups n₆ enough => .pure ?_
  simp only [List.size_toArray]
  omega

/-! ## Tables -/

/-- **A table is not misread for missing or additional bytes.**  A table that is read is read off a front,
and it is the same whatever follows the front; of the front itself every byte is needed, and without the
last ones it is nothing but truncated.  A front of `n` bytes lists no more than a twelfth of `n` groups, and
no more than half of `n` files.  And bytes that are refused for their protocol or for their ids are refused for
the same reason, whatever follows them. -/
theorem read_eq_of_front (bytes : Bytes) :
    (∀ table, read bytes = .ok table → ∃ n ≤ bytes.length,
      (∀ more, read (bytes.take n ++ more) = .ok table) ∧
      (∀ m < n, read (bytes.take m) = .error .truncated) ∧
      table.groups.size ≤ n / 12 ∧
      (table.groups.toList.map fun group => group.files.length).sum ≤ n / 2) ∧
    (∀ number, read bytes = .error (.unsupportedProtocol number) →
      ∀ more, read (bytes ++ more) = .error (.unsupportedProtocol number)) ∧
    (∀ ordinal, read bytes = .error (.idOverflow ordinal) →
      ∀ more, read (bytes ++ more) = .error (.idOverflow ordinal)) := by
  have refused : ∀ error, error ≠ .truncated → read bytes = .error error →
      ∀ more, read (bytes ++ more) = .error error := by
    intro error reason fails more
    have ran : reader bytes = .error error := map_eq_error.1 fails
    exact map_eq_error.2 (onward_reader.fails ran reason more)
  refine ⟨?_, fun number => refused _ nofun, fun ordinal => refused _ nofun⟩
  intro table accepted
  obtain ⟨⟨found, rest⟩, ran, same⟩ := map_eq_ok.1 accepted
  obtain rfl : found = table := same
  obtain ⟨front, rfl, reads⟩ := onward_reader.reads ran
  obtain ⟨n, length, enough⟩ := takes_reader _ _ rest ran
  rw [List.length_append] at length
  obtain rfl : front.length = n := by omega
  refine ⟨front.length, by simp, ?_, ?_, ?_, ?_⟩
  · intro more
    rw [List.take_left]
    exact map_eq_ok.2 ⟨_, reads more, rfl⟩
  · intro m short
    rw [List.take_append_of_le_length short.le]
    exact map_eq_error.2 (onward_reader.truncated reads short)
  · omega
  · rw [fileCount] at enough
    omega

/-- A table of one group with one file, and a byte behind it. -/
def loneTable : Bytes := [5, 0, 0, 1, 0, 9, 1, 2, 3, 4, 0, 0, 0, 7, 0, 1, 0, 3, 42]

theorem read_eq_of_front_loneTable : ∃ table n, read loneTable = .ok table ∧ n ≤ 19 ∧
    (∀ more, read (loneTable.take n ++ more) = .ok table) ∧
    (∀ m < n, read (loneTable.take m) = .error .truncated) ∧ table.groups.size ≤ n / 12 := by
  have accepted : ∃ table, read loneTable = .ok table := ⟨_, rfl⟩
  obtain ⟨table, accepted⟩ := accepted
  obtain ⟨n, le, whole, short, groups, -⟩ := (read_eq_of_front loneTable).1 table accepted
  exact ⟨table, n, accepted, le, whole, short, groups⟩

end ReferenceTable
end SectorVault
