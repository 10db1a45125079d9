import Mathlib
import SectorVault.ReferenceTable

/-!
# Looking groups up by id

The binary search keeps two ordinals apart: every id before the lower one is smaller, and none from the
upper one on is (`Bounds`).  Where ids do not descend, halving the distance preserves this, so the search
stops at the first id that is not smaller, if there is one.  Where ids repeat this is the first of them.

It is the array of ids that is searched, and the group at the ordinal that is answered with.  Since the two
agree, looking a group up is the same as scanning the table for it (`group?_eq_find?`).
-/

namespace SectorVault
namespace ReferenceTable

/-! ## Searching ids -/

section Search

variable {ids : Array UInt32} {id : UInt32} {low high : Nat}

variable (ids id) in
/-- Before `low` all ids are smaller, and from `high` on none is. -/
structure Bounds (low high : Nat) : Prop where
  /-- The ids before the lower ordinal. -/
  below : ∀ i (h : i < ids.size), i < low → ids[i] < id
  /-- The ids from the upper ordinal on. -/
  above : ∀ i (h : i < ids.size), high ≤ i → id ≤ ids[i]

theorem getElem_le_of_ascend (ascend : ids.toList.Pairwise (· ≤ ·)) {i j : Nat} (le : i ≤ j)
    (h : j < ids.size) : ids[i] ≤ ids[j] := by
  rcases Nat.lt_or_eq_of_le le with lt | rfl
  · have pairs := List.pairwise_iff_getElem.1 ascend i j (by simp; omega) (by simpa using h) lt
    simpa using pairs
  · exact UInt32.le_refl _

theorem Bounds.start (ids : Array UInt32) (id : UInt32) : Bounds ids id 0 ids.size := by
  refine ⟨fun i _ before => absurd before (Nat.not_lt_zero i), fun i h behind => ?_⟩
  omega

/-- A smaller id moves the lower ordinal behind it. -/
theorem Bounds.raise (bounds : Bounds ids id low high) (ascend : ids.toList.Pairwise (· ≤ ·))
    {middle : Nat} (h : middle < ids.size) (smaller : ids[middle] < id) :
    Bounds ids id (middle + 1) high := by
  refine ⟨fun i hi before => ?_, bounds.above⟩
  exact UInt32.lt_of_le_of_lt (getElem_le_of_ascend ascend (Nat.le_of_lt_succ before) h) smaller

/-- An id that is not smaller moves the upper ordinal to it. -/
theorem Bounds.lower (bounds : Bounds ids id low high) (ascend : ids.toList.Pairwise (· ≤ ·))
    {middle : Nat} (h : middle < ids.size) (notSmaller : ¬ ids[middle] < id) :
    Bounds ids id low middle := by
  refine ⟨bounds.below, fun i hi behind => ?_⟩
  exact UInt32.le_trans (UInt32.not_lt.1 notSmaller) (getElem_le_of_ascend ascend behind hi)

theorem searchFrom_bounds (ascend : ids.toList.Pairwise (· ≤ ·)) (bounds : Bounds ids id low high)
    (ordered : low ≤ high) (inside : high ≤ ids.size) :
    Bounds ids id (searchFrom ids id low high) (searchFrom ids id low high) := by
  fun_induction searchFrom ids id low high with
  | case1 low high apart middle found there smaller ih =>
    obtain ⟨h, rfl⟩ := Array.getElem?_eq_some_iff.1 there
    exact ih (bounds.raise ascend h smaller) (by omega) inside
  | case2 low high apart middle found there notSmaller ih =>
    obtain ⟨h, rfl⟩ := Array.getElem?_eq_some_iff.1 there
    exact ih (bounds.lower ascend h notSmaller) (by omega) (by omega)
  | case3 low high apart middle absent ih =>
    rw [Array.getElem?_eq_none_iff] at absent
    omega
  | case4 low high together =>
    obtain rfl : low = high := by omega
    exact bounds

/-- An id that is listed at all is listed where the bounds meet, and nowhere before. -/
theorem Bounds.of_listed {place i : Nat} (bounds : Bounds ids id place place)
    (ascend : ids.toList.Pairwise (· ≤ ·)) (h : i < ids.size) (listed : ids[i] = id) :
    place ≤ i ∧ ids[place]? = some id := by
  have behind : place ≤ i := by
    by_contra before
    exact absurd listed (UInt32.ne_of_lt (bounds.below i h (not_le.1 before)))
  have inside : place < ids.size := behind.trans_lt h
  have least := getElem_le_of_ascend ascend behind h
  rw [listed] at least
  have there : ids[place] = id := UInt32.le_antisymm least (bounds.above place inside le_rfl)
  exact ⟨behind, by rw [Array.getElem?_eq_getElem inside, there]⟩

end Search

/-! ## Looking groups up -/

/-- The ids of the groups do not descend. -/
def IdsAscend (groups : List Group) : Prop :=
  groups.Pairwise fun group later => group.id ≤ later.id

variable {table : ReferenceTable}

theorem ascend_ids (ascend : IdsAscend table.groups.toList) :
    table.ids.toList.Pairwise (· ≤ ·) := by
  rw [table.ids_eq, Array.toList_map]
  exact List.pairwise_map.2 ascend

theorem getElem?_ids (table : ReferenceTable) (ordinal : Nat) :
    table.ids[ordinal]? = (table.groups[ordinal]?).map Group.id := by
  rw [table.ids_eq, Array.getElem?_map]

theorem exists_getElem_ids {ordinal : Nat} (h : ordinal < table.groups.size) :
    ∃ h' : ordinal < table.ids.size, table.ids[ordinal] = table.groups[ordinal].id := by
  have listed := table.getElem?_ids ordinal
  rw [Array.getElem?_eq_getElem h] at listed
  exact Array.getElem?_eq_some_iff.1 listed

/-- What is found by an id has the id. -/
theorem id_of_group? {id : UInt32} {group : Group} (listed : table.group? id = some group) :
    group.id = id := by
  unfold group? at listed
  simp only at listed
  rw [table.getElem?_ids] at listed
  generalize searchFrom table.ids id 0 table.ids.size = ordinal at listed
  cases found : table.groups[ordinal]? with
  | none => simp [found] at listed
  | some here =>
    simp only [found, Option.map_some] at listed
    split at listed
    · next same => rwa [← Option.some.inj listed]
    · cases listed

/-- Looking a group up finds what scanning the table for it would find first. -/
theorem group?_eq_find? (ascend : IdsAscend table.groups.toList) (id : UInt32) :
    table.group? id = table.groups.toList.find? fun group => group.id == id := by
  have ordered := ascend_ids ascend
  have bounds := searchFrom_bounds ordered (.start table.ids id) (Nat.zero_le _) le_rfl
  unfold group?
  generalize searchFrom table.ids id 0 table.ids.size = place at bounds
  -- what the bounds say of the ids, said of the groups
  have listed : ∀ i (h : i < table.groups.size), table.groups[i].id = id →
      place ≤ i ∧ table.ids[place]? = some id := by
    intro i h same
    obtain ⟨h', id_eq⟩ := exists_getElem_ids h
    exact bounds.of_listed ordered h' (id_eq.trans same)
  simp only
  symm
  by_cases there : table.ids[place]? = some id
  · have found := there
    rw [getElem?_ids, Option.map_eq_some_iff] at found
    obtain ⟨group, here, same⟩ := found
    obtain ⟨h, rfl⟩ := Array.getElem?_eq_some_iff.1 here
    rw [there]
    simp only [if_true, here]
    refine List.find?_eq_some_iff_getElem.2 ⟨by simpa using same, place, by simpa using h, by simp, ?_⟩
    intro j before
    have other : table.groups[j].id ≠ id := fun same => absurd before (not_lt.2 (listed j _ same).1)
    simpa using other
  · have none : table.groups.toList.find? (fun group => group.id == id) = none := by
      refine List.find?_eq_none.2 fun group mem same => ?_
      obtain ⟨i, h, rfl⟩ := List.getElem_of_mem mem
      exact there (listed i (by simpa using h) (by simpa using same)).2
    rw [none]
    split
    · next found here =>
      have other : found ≠ id := fun same => there (same ▸ here)
      rw [if_neg other]
    · rfl

end ReferenceTable
end SectorVault
