import Mathlib
import SectorVault.Proofs.ReferenceTable.Accepted
import SectorVault.Proofs.ReferenceTable.Reading

/-!
# The capacity of a table

The groups of a table that is read are in ascending order of ids, so the last one has the greatest id, and
one more than that is the number of slots that it takes to have one for every group.  The capacity is this
number as far as a word can hold it.

A word cannot hold it if the greatest id is the last of all ids.  Then the capacity is that id, and the
groups that have it are the only ones that a slot is lacking for.  A sum of differences gets there only if
these are of variable width: in the other protocols there are at most 65535 groups, each at most 65535
behind the one before, which ends a good way below (`ensures_ids_below`).
-/

namespace SectorVault

/-! ## Fields -/

theorem TableReader.ensures_short : Ensures TableReader.short (· < 2 ^ 16) := by
  intro bytes n rest read
  unfold TableReader.short at read
  split at read
  · next b0 b1 behind =>
    cases read
    exact (bigEndian_lt [b0, b1]).trans_eq (by norm_num)
  · cases read

namespace Protocol

theorem ensures_variableField : Ensures variableField (· < 2 ^ 31) := by
  intro bytes n rest read
  unfold variableField at read
  split at read
  · next first behind =>
    split at read
    · exact (TableReader.ensures_short _ n rest read).trans (by decide)
    · obtain ⟨⟨w, between⟩, -, value⟩ := bind_eq_ok.1 read
      cases value
      exact (toNat_and_mask w).trans_lt (Nat.mod_lt _ (by decide))
  · cases read

/-- What is read as a field is what the protocol can hold. -/
theorem ensures_field (protocol : Protocol) : Ensures protocol.field protocol.Fits := by
  cases protocol with
  | unversioned => exact TableReader.ensures_short.mono fun _ => Nat.le_of_lt_succ
  | versioned => exact TableReader.ensures_short.mono fun _ => Nat.le_of_lt_succ
  | variableWidth => exact ensures_variableField

theorem le_of_fits {protocol : Protocol} {n : Nat} (narrow : protocol ≠ .variableWidth)
    (fits : protocol.Fits n) : n ≤ 0xFFFF := by
  cases protocol with
  | unversioned => exact fits
  | versioned => exact fits
  | variableWidth => exact absurd rfl narrow

end Protocol

namespace ReferenceTable

/-! ## Ids -/

/-- Ids that are read are beyond the last one by no more than as many of the greatest difference. -/
theorem le_of_idsFrom {protocol : Protocol} {step count ordinal last most : Nat}
    {done ids : List UInt32} {bytes rest : Bytes} (bound : ∀ n, protocol.Fits n → n ≤ most)
    (read : idsFrom protocol step count ordinal last done bytes = .ok (ids, rest)) :
    ∃ more, ids = done.reverse ++ more ∧ ∀ id ∈ more, id.toNat ≤ last + count * most := by
  induction count generalizing ordinal last done bytes with
  | zero =>
    cases read
    exact ⟨[], by simp, by simp⟩
  | succ count ih =>
    obtain ⟨difference, between, field, inside, read⟩ := exists_of_idsFrom_succ read
    obtain ⟨more, rfl, below⟩ := ih read
    have small : difference ≤ most := bound _ (protocol.ensures_field _ _ _ field)
    have total : last + difference + count * most ≤ last + (count + 1) * most := by
      rw [Nat.succ_mul]
      omega
    have here : (UInt32.ofNat (last + difference)).toNat = last + difference :=
      UInt32.toNat_ofNat_of_lt' inside
    refine ⟨UInt32.ofNat (last + difference) :: more, by simp, fun id mem => ?_⟩
    rcases List.mem_cons.1 mem with rfl | mem
    · rw [here]
      exact (Nat.le_add_right _ _).trans total
    · exact (below id mem).trans total

/-! ## Tables -/

/-- Sums of differences that take two bytes do not get near the last id. -/
theorem ensures_ids_below : Ensures reader fun table =>
    table.protocol ≠ .variableWidth → ∀ group ∈ table.groups, group.id.toNat ≤ 0xFFFF * 0xFFFF := by
  refine (Ensures.trivial _).bind fun number _ => ?_
  refine (Ensures.trivial _).bind fun protocol _ => ?_
  refine (Ensures.trivial _).bind fun revision _ => ?_
  refine (Ensures.trivial _).bind fun flags _ => ?_
  refine protocol.ensures_field.bind fun count fits => ?_
  have fixed : Ensures (groupIds protocol count) fun ids =>
      protocol ≠ .variableWidth → ∀ id ∈ ids, id.toNat ≤ 0xFFFF * 0xFFFF := by
    intro bytes ids rest read narrow
    have bound : ∀ n, protocol.Fits n → n ≤ 0xFFFF := fun n => Protocol.le_of_fits narrow
    obtain ⟨more, rfl, below⟩ := le_of_idsFrom bound read
    intro id mem
    calc id.toNat ≤ 0 + count * 0xFFFF := below id mem
      _ = count * 0xFFFF := Nat.zero_add _
      _ ≤ 0xFFFF * 0xFFFF := Nat.mul_le_mul_right _ (bound count fits)
  refine (ensures_readGroups_of_groupIds fixed _).bind fun groups ⟨ids, below, frames⟩ => .pure ?_
  intro narrow group mem
  have ids_eq : groups.map Group.id = ids := by
    have same := congrArg (List.map Prod.snd) frames
    rw [List.map_map, List.map_map] at same
    exact same.trans (map_id_blank ids)
  have listed : group.id ∈ groups.map Group.id :=
    List.mem_map_of_mem (List.mem_toArray.1 mem)
  exact below narrow group.id (ids_eq ▸ listed)

theorem ids_below_of_read {bytes : Bytes} {table : ReferenceTable} (accepted : read bytes = .ok table)
    (narrow : table.protocol ≠ .variableWidth) :
    ∀ group ∈ table.groups, group.id.toNat ≤ 0xFFFF * 0xFFFF := by
  obtain ⟨⟨found, rest⟩, ran, rfl⟩ := map_eq_ok.1 accepted
  exact ensures_ids_below bytes found rest ran narrow

theorem toNat_eq_last_iff (id : UInt32) : id = 0xFFFFFFFF ↔ id.toNat = 2 ^ 32 - 1 :=
  UInt32.toNat_inj.symm

theorem back?_ids (table : ReferenceTable) : table.ids.back? = table.groups.back?.map Group.id := by
  rw [table.ids_eq, Array.back?_map]

/-- The capacity is one more than the id of the last group, as far as a word can hold it. -/
theorem toNat_capacity {table : ReferenceTable} {last : Group}
    (there : table.groups.back? = some last) :
    table.capacity.toNat = min (last.id.toNat + 1) (2 ^ 32 - 1) := by
  have word : last.id.toNat < 2 ^ 32 := last.id.toNat_lt
  unfold capacity
  rw [table.back?_ids, there, Option.map_some]
  simp only [toNat_eq_last_iff]
  split
  · omega
  · rw [UInt32.toNat_add, UInt32.toNat_one, Nat.mod_eq_of_lt (by omega)]
    omega

theorem capacity_eq_zero_iff (table : ReferenceTable) : table.capacity = 0 ↔ table.groups = #[] := by
  cases last : table.groups.back? with
  | none =>
    have empty : table.groups = #[] := Array.back?_eq_none_iff.1 last
    exact iff_of_true (by rw [capacity, table.back?_ids, last, Option.map_none]) empty
  | some group =>
    have positive : table.capacity ≠ 0 := by
      have value := toNat_capacity last
      intro zero
      rw [zero, UInt32.toNat_zero] at value
      omega
    have filled : table.groups ≠ #[] := by
      intro empty
      rw [empty] at last
      cases last
    exact iff_of_false positive filled

/-- The last one of groups that are in order has the greatest id. -/
theorem InOrder.le_last {groups : Array Group} {last : Group} (inOrder : InOrder groups.toList)
    (there : groups.back? = some last) : last ∈ groups ∧ ∀ group ∈ groups, group.id ≤ last.id := by
  rw [← Array.getLast?_toList] at there
  obtain ⟨before, listed⟩ := List.getLast?_eq_some_iff.1 there
  have ascend := inOrder.ascend
  rw [listed] at ascend
  obtain ⟨-, -, up⟩ := List.pairwise_append.1 ascend
  refine ⟨Array.mem_def.2 (by simp [listed]), fun group mem => ?_⟩
  have mem := Array.mem_def.1 mem
  rw [listed, List.mem_append, List.mem_singleton] at mem
  rcases mem with mem | rfl
  · exact up group mem last (List.mem_singleton_self last)
  · exact UInt32.le_refl _

/-- **The capacity bounds the ids.**  It is zero exactly if there are no groups, and otherwise one more than
the greatest id, as far as a word can hold it.  So the groups that are not below it are those with the last
id of all; and unless fields are of variable width, no group has that. -/
theorem capacity_bounds_ids {bytes : Bytes} {table : ReferenceTable}
    (accepted : read bytes = .ok table) :
    (table.capacity = 0 ↔ table.groups = #[]) ∧
    (table.groups ≠ #[] → ∃ greatest ∈ table.groups,
      (∀ group ∈ table.groups, group.id ≤ greatest.id) ∧
      table.capacity.toNat = min (greatest.id.toNat + 1) (2 ^ 32 - 1)) ∧
    (∀ group ∈ table.groups, group.id < table.capacity ↔ group.id ≠ 0xFFFFFFFF) ∧
    (table.protocol ≠ .variableWidth → ∀ group ∈ table.groups, group.id ≠ 0xFFFFFFFF) := by
  have inOrder := inOrder_of_read accepted
  refine ⟨table.capacity_eq_zero_iff, fun filled => ?_, fun group mem => ?_, fun narrow group mem => ?_⟩
  · obtain ⟨last, there⟩ := Option.ne_none_iff_exists'.1 (mt Array.back?_eq_none_iff.1 filled)
    obtain ⟨mem, greatest⟩ := inOrder.le_last there
    exact ⟨last, mem, greatest, toNat_capacity there⟩
  · have filled : table.groups ≠ #[] := Array.ne_empty_of_mem mem
    obtain ⟨last, there⟩ := Option.ne_none_iff_exists'.1 (mt Array.back?_eq_none_iff.1 filled)
    have below := UInt32.le_iff_toNat_le.1 ((inOrder.le_last there).2 group mem)
    have word : last.id.toNat < 2 ^ 32 := last.id.toNat_lt
    rw [UInt32.lt_iff_toNat_lt, toNat_capacity there, Ne, toNat_eq_last_iff]
    omega
  · have below := ids_below_of_read accepted narrow group mem
    rw [Ne, toNat_eq_last_iff]
    omega

/-- A table of three groups, the first two of which are as far apart as groups can be. -/
def distantTable (difference : UInt8) : Bytes :=
  [7, 0, 0, 0, 0, 0, 0, 3, 255, 255, 255, 255, 255, 255, 255, 255, 0, difference] ++
    List.replicate 30 0

/-- The greatest id that has a slot. -/
theorem capacity_bounds_ids_distant :
    ∃ table, read (distantTable 0) = .ok table ∧ table.capacity = 0xFFFFFFFF ∧
      ∀ group ∈ table.groups, group.id < table.capacity := by
  obtain ⟨table, accepted⟩ : ∃ table, read (distantTable 0) = .ok table := ⟨_, rfl⟩
  obtain ⟨-, -, bounds, -⟩ := capacity_bounds_ids accepted
  have last : table.groups.back?.map Group.id = some 0xFFFFFFFE := by
    cases accepted
    rfl
  refine ⟨table, accepted, ?_, fun group mem => (bounds group mem).2 ?_⟩
  · rw [capacity, back?_ids, last]
    rfl
  · have ids : table.groups.toList.map Group.id = [0x7FFFFFFF, 0xFFFFFFFE, 0xFFFFFFFE] := by
      cases accepted
      rfl
    have listed := List.mem_map_of_mem (f := Group.id) (Array.mem_def.1 mem)
    rw [ids] at listed
    simp only [List.mem_cons, List.not_mem_nil, or_false] at listed
    rcases listed with id | id | id <;> rw [id] <;> decide

/-- The last id of all has no slot. -/
theorem no_slot_for_last_id :
    ∃ table, read (distantTable 1) = .ok table ∧
      ∃ greatest ∈ table.groups, (∀ group ∈ table.groups, group.id ≤ greatest.id) ∧
        table.capacity.toNat ≠ greatest.id.toNat + 1 ∧ ¬ greatest.id < table.capacity := by
  obtain ⟨table, accepted⟩ : ∃ table, read (distantTable 1) = .ok table := ⟨_, rfl⟩
  obtain ⟨last, there, id⟩ : ∃ last, table.groups.back? = some last ∧ last.id = 0xFFFFFFFF := by
    cases accepted
    exact ⟨_, rfl, rfl⟩
  obtain ⟨mem, greatest⟩ := (inOrder_of_read accepted).le_last there
  have capacity : table.capacity.toNat = 2 ^ 32 - 1 := by rw [toNat_capacity there, id]; rfl
  have value : last.id.toNat = 2 ^ 32 - 1 := by rw [id]; rfl
  refine ⟨table, accepted, last, mem, greatest, by omega, ?_⟩
  rw [UInt32.lt_iff_toNat_lt]
  omega

end ReferenceTable
end SectorVault
