import Mathlib
import SectorVault.Proofs.Outcomes
import SectorVault.Proofs.ReferenceTable.Lookup
import SectorVault.ReferenceTable.Columns

/-!
# What every table that is read has in common

Nothing is known of a byte string that reads as a table except that it reads.  `Ensures reader P` says
that whatever a reader comes to satisfies `P`, and like the reading itself it is followed from field to
field and from column to column.

The ids of the groups are fixed by the first column, as sums of differences, so they ascend
(`ensures_idsFrom`).  Every later column fills in something else: it leaves alone the *frame* of each
group, which is its ordinal and its id (`ensures_column`).  So a table that is read has its groups at
their ordinals, in ascending order of ids (`inOrder_of_read`).
-/

namespace SectorVault

/-- A reader goes on with what another one reads and with the bytes that it leaves. -/
theorem TableReader.bind_apply {α β : Type} (reader : TableReader α) (next : α → TableReader β)
    (bytes : Bytes) :
    (reader >>= next) bytes = (reader bytes).bind fun outcome => next outcome.1 outcome.2 := rfl

/-- Whatever a reader reads satisfies a predicate. -/
def Ensures {α : Type} (reader : TableReader α) (P : α → Prop) : Prop :=
  ∀ bytes a rest, reader bytes = .ok (a, rest) → P a

namespace Ensures

variable {α β : Type} {reader : TableReader α} {P Q : α → Prop}

theorem trivial (reader : TableReader α) : Ensures reader fun _ => True := fun _ _ _ _ => True.intro

theorem pure {a : α} (h : P a) : Ensures (Pure.pure a) P := by
  intro bytes b rest read
  cases read
  exact h

theorem mono (ensures : Ensures reader Q) (imp : ∀ a, Q a → P a) : Ensures reader P :=
  fun bytes a rest read => imp a (ensures bytes a rest read)

theorem bind {next : α → TableReader β} {R : β → Prop} (first : Ensures reader Q)
    (second : ∀ a, Q a → Ensures (next a) R) : Ensures (reader >>= next) R := by
  intro bytes b rest read
  rw [TableReader.bind_apply] at read
  obtain ⟨⟨a, between⟩, readFirst, readSecond⟩ := bind_eq_ok.1 read
  exact second a (first bytes a between readFirst) between b rest readSecond

theorem and (first : Ensures reader P) (second : Ensures reader Q) :
    Ensures reader fun a => P a ∧ Q a :=
  fun bytes a rest read => ⟨first bytes a rest read, second bytes a rest read⟩

/-- A reader that runs for every element of a list reads as many, each one related to its element. -/
theorem forall₂_each {as : List α} {read : α → TableReader β} {R : α → β → Prop}
    (ensures : ∀ a ∈ as, Ensures (read a) (R a)) :
    Ensures (TableReader.each as read) (List.Forall₂ R as) := by
  have from_done : ∀ (as : List α) (done : List β) (bytes : Bytes) (bs : List β) (rest : Bytes),
      (∀ a ∈ as, Ensures (read a) (R a)) →
      TableReader.eachFrom read as done bytes = .ok (bs, rest) →
        ∃ more, bs = done.reverse ++ more ∧ List.Forall₂ R as more := by
    intro as
    induction as with
    | nil =>
      intro done bytes bs rest _ all
      cases all
      exact ⟨[], by simp, .nil⟩
    | cons a as ih =>
      intro done bytes bs rest ensures all
      unfold TableReader.eachFrom at all
      split at all
      · rename_i b between first
        have related := ensures a (by simp) bytes b between first
        obtain ⟨more, rfl, others⟩ :=
          ih (b :: done) between bs rest (fun a mem => ensures a (by simp [mem])) all
        exact ⟨b :: more, by simp, .cons related others⟩
      · cases all
  intro bytes bs rest all
  obtain ⟨more, rfl, related⟩ := from_done as [] bytes bs rest ensures all
  exact related

/-- In particular it keeps what it keeps of each of them. -/
theorem each {γ : Type} {as : List α} {read : α → TableReader β} {before : α → γ} {behind : β → γ}
    (keeps : ∀ a ∈ as, Ensures (read a) fun b => behind b = before a) :
    Ensures (TableReader.each as read) fun bs => bs.map behind = as.map before := by
  refine (forall₂_each keeps).mono fun bs kept => ?_
  induction kept with
  | nil => rfl
  | cons same _ ih => rw [List.map_cons, List.map_cons, same, ih fun a mem => keeps a (by simp [mem])]

/-- And what it ensures of each of them it ensures of all. -/
theorem forall_each {as : List α} {read : α → TableReader β} {P : β → Prop}
    (ensures : ∀ a ∈ as, Ensures (read a) P) :
    Ensures (TableReader.each as read) fun bs => ∀ b ∈ bs, P b := by
  refine (forall₂_each (R := fun _ => P) ensures).mono fun bs all => ?_
  induction all with
  | nil => simp
  | cons here _ ih =>
    exact List.forall_mem_cons.2 ⟨here, ih fun a mem => ensures a (by simp [mem])⟩

end Ensures

namespace ReferenceTable

/-! ## Ids -/

/-- Reading one more id is reading its difference and then the others, as long as the sum is an id. -/
theorem idsFrom_succ {protocol : Protocol} (step count ordinal last : Nat) (done : List UInt32) :
    idsFrom protocol step (count + 1) ordinal last done =
      ((protocol.field >>= fun difference =>
        if last + difference < idRange then
          idsFrom protocol step count (ordinal + step) (last + difference)
            (UInt32.ofNat (last + difference) :: done)
        else fun _ => .error (.idOverflow ordinal)) : TableReader (List UInt32)) := by
  funext bytes
  rw [TableReader.bind_apply, idsFrom]
  cases protocol.field bytes with
  | error error => rfl
  | ok outcome =>
    simp only [Except.bind]
    split <;> rfl

theorem exists_of_idsFrom_succ {protocol : Protocol} {step count ordinal last : Nat}
    {done ids : List UInt32} {bytes rest : Bytes}
    (read : idsFrom protocol step (count + 1) ordinal last done bytes = .ok (ids, rest)) :
    ∃ difference between, protocol.field bytes = .ok (difference, between) ∧
      last + difference < idRange ∧
      idsFrom protocol step count (ordinal + step) (last + difference)
        (UInt32.ofNat (last + difference) :: done) between = .ok (ids, rest) := by
  rw [idsFrom_succ] at read
  obtain ⟨⟨difference, between⟩, field, read⟩ := bind_eq_ok.1 read
  simp only at read
  split at read
  · rename_i inside
    exact ⟨difference, between, field, inside, read⟩
  · cases read

/-- Ids that are read do not descend, and there are as many as were to be read. -/
theorem ensures_idsFrom {protocol : Protocol} {step count ordinal last : Nat} {done ids : List UInt32}
    {bytes rest : Bytes}
    (read : idsFrom protocol step count ordinal last done bytes = .ok (ids, rest)) :
    ∃ more, ids = done.reverse ++ more ∧ more.length = count ∧ more.Pairwise (· ≤ ·) ∧
      ∀ id ∈ more, last ≤ id.toNat := by
  induction count generalizing ordinal last done bytes with
  | zero =>
    cases read
    exact ⟨[], by simp, rfl, .nil, by simp⟩
  | succ count ih =>
    obtain ⟨difference, between, -, inside, read⟩ := exists_of_idsFrom_succ read
    obtain ⟨more, rfl, length, ascend, above⟩ := ih read
    have here : (UInt32.ofNat (last + difference)).toNat = last + difference :=
      UInt32.toNat_ofNat_of_lt' inside
    refine ⟨UInt32.ofNat (last + difference) :: more, by simp, by simp [length], ?_, ?_⟩
    · refine List.pairwise_cons.2 ⟨fun id mem => ?_, ascend⟩
      rw [UInt32.le_iff_toNat_le, here]
      exact above id mem
    · intro id mem
      rcases List.mem_cons.1 mem with rfl | mem
      · rw [here]
        exact Nat.le_add_right last difference
      · exact Nat.le_trans (Nat.le_add_right last difference) (above id mem)

theorem ensures_groupIds (protocol : Protocol) (count : Nat) :
    Ensures (groupIds protocol count) fun ids => ids.Pairwise (· ≤ ·) := by
  intro bytes ids rest read
  obtain ⟨more, rfl, -, ascend, -⟩ := ensures_idsFrom read
  exact ascend

/-! ## Columns -/

/-- What no column but the first one touches: the ordinal and the id of a group. -/
def frame (group : Group) : Nat × UInt32 := (group.ordinal, group.id)

variable {groups : List Group}

theorem ensures_column {α : Type} (read : TableReader α) {enter : Group → α → Group}
    (blind : ∀ group a, frame (enter group a) = frame group) :
    Ensures (column read enter groups) fun filled => filled.map frame = groups.map frame :=
  Ensures.each fun group _ =>
    (Ensures.trivial read).bind fun a _ => .pure (blind group a)

theorem ensures_columnIf {α : Type} (present : Bool) (read : TableReader α)
    {enter : Group → α → Group} (blind : ∀ group a, frame (enter group a) = frame group) :
    Ensures (columnIf present read enter groups) fun filled =>
      filled.map frame = groups.map frame := by
  unfold columnIf
  split
  · exact ensures_column read blind
  · exact .pure rfl

theorem ensures_fileColumn (protocol : Protocol) :
    Ensures (fileColumn protocol groups) fun filled => filled.map frame = groups.map frame := by
  have counted : Ensures (TableReader.each groups fun _ => protocol.field) fun counts =>
      counts.map (fun _ => ()) = groups.map fun _ => () :=
    Ensures.each fun _ _ => (Ensures.trivial protocol.field).mono fun _ _ => rfl
  refine counted.bind fun counts same => ?_
  have length : groups.length ≤ counts.length := by
    have := congrArg List.length same
    simp only [List.length_map] at this
    omega
  have fronts : (groups.zip counts).map (fun item => frame item.1) = groups.map frame := by
    have fst := congrArg (List.map frame) (List.map_fst_zip length)
    rwa [List.map_map] at fst
  rw [← fronts]
  refine Ensures.each fun item _ => ?_
  exact (Ensures.trivial _).bind fun ids _ => .pure rfl

theorem ensures_fileNames (group : Group) :
    Ensures (fileNames group) fun named => frame named = frame group :=
  (Ensures.trivial _).bind fun _ _ => .pure rfl

/-- Names are entered beside the ids of the files. -/
theorem ensures_ids_fileNames (group : Group) :
    Ensures (fileNames group) fun named =>
      named.files.map FileLabel.id = group.files.map FileLabel.id := by
  have kept : Ensures (TableReader.each group.files fun file => do
      return ({ file with nameHash := ← TableReader.signed } : FileLabel)) fun files =>
      files.map FileLabel.id = group.files.map FileLabel.id :=
    Ensures.each fun file _ => (Ensures.trivial _).bind fun _ _ => .pure rfl
  exact kept.bind fun files same => .pure same

/-- The groups of a table are at their ordinals, in ascending order of ids. -/
structure InOrder (groups : List Group) : Prop where
  ordinal_eq : groups.map Group.ordinal = List.range groups.length
  ascend : IdsAscend groups

/-- Being in order is a matter of frames. -/
theorem InOrder.of_frames {filled : List Group} (inOrder : InOrder groups)
    (same : filled.map frame = groups.map frame) : InOrder filled := by
  have ordinals := congrArg (List.map Prod.fst) same
  have ids := congrArg (List.map Prod.snd) same
  have length := congrArg List.length same
  simp only [List.map_map, List.length_map] at ordinals ids length
  constructor
  · rw [length, ← inOrder.ordinal_eq]
    exact ordinals
  · have ascend : (groups.map Group.id).Pairwise (· ≤ ·) := List.pairwise_map.2 inOrder.ascend
    exact List.pairwise_map.1 ((show filled.map Group.id = groups.map Group.id from ids) ▸ ascend)

/-- The ordinal of a group is the number of groups before it. -/
theorem InOrder.ordinal_of_append {before behind : List Group} {group : Group}
    (inOrder : InOrder (before ++ group :: behind)) : group.ordinal = before.length := by
  have there : ((before ++ group :: behind).map Group.ordinal)[before.length]? =
      some group.ordinal := by simp
  rw [inOrder.ordinal_eq, List.getElem?_range (by simp)] at there
  exact (Option.some.inj there).symm

theorem map_id_blank (ids : List UInt32) :
    (ids.zipIdx.map fun (id, ordinal) => Group.blank ordinal id).map Group.id = ids := by
  rw [List.map_map]
  exact List.zipIdx_map_fst 0 ids

theorem map_ordinal_blank (ids : List UInt32) :
    (ids.zipIdx.map fun (id, ordinal) => Group.blank ordinal id).map Group.ordinal =
      List.range ids.length := by
  rw [List.map_map, List.range_eq_range']
  exact List.zipIdx_map_snd 0 ids

theorem inOrder_blank {ids : List UInt32} (ascend : ids.Pairwise (· ≤ ·)) :
    InOrder (ids.zipIdx.map fun (id, ordinal) => Group.blank ordinal id) := by
  constructor
  · rw [List.length_map, List.length_zipIdx]
    exact map_ordinal_blank ids
  · exact List.pairwise_map.1 ((map_id_blank ids).symm ▸ ascend)

/-- Whatever the ids are that the first column fixes, they are the ids of the groups. -/
theorem ensures_readGroups_of_groupIds {protocol : Protocol} {count : Nat} {P : List UInt32 → Prop}
    (fixed : Ensures (groupIds protocol count) P) (flags : TableFlags) :
    Ensures (readGroups protocol flags count) fun groups => ∃ ids, P ids ∧
      groups.map frame = (ids.zipIdx.map fun (id, ordinal) => Group.blank ordinal id).map frame := by
  refine fixed.bind fun ids here => ?_
  refine (ensures_columnIf flags.names _ (by intros; rfl)).bind fun named names => ?_
  refine (ensures_column _ (by intros; rfl)).bind fun summed crcs => ?_
  refine (ensures_columnIf flags.uncompressedCrcs _ (by intros; rfl)).bind fun plain plains => ?_
  refine (ensures_columnIf flags.digests _ (by intros; rfl)).bind fun digested digests => ?_
  refine (ensures_columnIf flags.lengths _ (by intros; rfl)).bind fun measured lengths => ?_
  refine (ensures_column _ (by intros; rfl)).bind fun revised revisions => ?_
  refine (ensures_fileColumn protocol).bind fun listed files => ?_
  rw [revisions, lengths, digests, plains, crcs, names] at files
  split
  · exact (Ensures.each fun group _ => ensures_fileNames group).mono fun _ kept =>
      ⟨ids, here, kept.trans files⟩
  · exact .pure ⟨ids, here, files⟩

/-- What holds of the files as they are listed, whatever the columns before hold, and still holds once they
have their names, holds of what is read. -/
theorem ensures_readGroups_of_fileColumn {protocol : Protocol} {flags : TableFlags}
    {P : List Group → Prop} (listed : ∀ groups, Ensures (fileColumn protocol groups) P)
    (named : flags.names = true → ∀ groups, P groups → Ensures (TableReader.each groups fileNames) P)
    (count : Nat) : Ensures (readGroups protocol flags count) P := by
  refine (Ensures.trivial _).bind fun ids _ => ?_
  refine (Ensures.trivial _).bind fun hashed _ => ?_
  refine (Ensures.trivial _).bind fun summed _ => ?_
  refine (Ensures.trivial _).bind fun plain _ => ?_
  refine (Ensures.trivial _).bind fun digested _ => ?_
  refine (Ensures.trivial _).bind fun measured _ => ?_
  refine (Ensures.trivial _).bind fun revised _ => ?_
  refine (listed revised).bind fun groups here => ?_
  split
  · next names => exact named names groups here
  · exact .pure here

theorem ensures_readGroups (protocol : Protocol) (flags : TableFlags) (count : Nat) :
    Ensures (readGroups protocol flags count) InOrder :=
  (ensures_readGroups_of_groupIds (ensures_groupIds protocol count) flags).mono
    fun _ ⟨_, ascend, frames⟩ => (inOrder_blank ascend).of_frames frames

/-! ## Tables -/

/-- What is ensured of the groups, given the flags, holds of every table that is read. -/
theorem holds_of_read {P : ReferenceTable → Prop}
    (body : ∀ protocol flags count, Ensures (readGroups protocol flags count) fun groups =>
      ∀ table : ReferenceTable, table.flags = flags → table.groups.toList = groups →
        (table.byName = if flags.names then enterNames groups else ∅) → P table)
    {bytes : Bytes} {table : ReferenceTable} (accepted : read bytes = .ok table) : P table := by
  have ensures : Ensures reader P := by
    refine (Ensures.trivial _).bind fun number _ => ?_
    refine (Ensures.trivial _).bind fun protocol _ => ?_
    refine (Ensures.trivial _).bind fun revision _ => ?_
    refine (Ensures.trivial _).bind fun flags _ => ?_
    refine (Ensures.trivial _).bind fun count _ => ?_
    exact (body protocol _ count).bind fun groups holds => .pure (holds _ rfl rfl rfl)
  obtain ⟨⟨found, rest⟩, ran, rfl⟩ := map_eq_ok.1 accepted
  exact ensures bytes found rest ran

/-- A table that is read has its groups at their ordinals, in ascending order of ids. -/
theorem inOrder_of_read {bytes : Bytes} {table : ReferenceTable} (accepted : read bytes = .ok table) :
    InOrder table.groups.toList := by
  refine holds_of_read (P := fun table => InOrder table.groups.toList)
    (fun protocol flags count => ?_) accepted
  refine (ensures_readGroups protocol flags count).mono ?_
  rintro _ inOrder table - rfl -
  exact inOrder

end ReferenceTable
end SectorVault
