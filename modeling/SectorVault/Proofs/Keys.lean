import Mathlib

/-!
# Looking things up by key

Archives, groups, files and records are all kept in lists and found by a key: a number, an id or an
owner.  A search finds an element by its key if no other element has the same key (`find?_key`), and
in a list whose keys ascend strictly none has (`eq_of_key_eq`).
-/

namespace SectorVault

variable {α κ : Type} {as : List α} {a : α} (key : α → κ)

/-- Searching a list for the key of an element finds the element if it alone has that key. -/
theorem find?_key [BEq κ] [LawfulBEq κ] (mem : a ∈ as)
    (alone : ∀ a' ∈ as, key a' = key a → a' = a) :
    (as.find? fun a' => key a' == key a) = some a := by
  cases found : as.find? fun a' => key a' == key a with
  | none => exact absurd (List.find?_eq_none.1 found a mem) (by simp)
  | some a' =>
    have same : (key a' == key a) = true := by simpa using List.find?_some found
    rw [alone a' (List.mem_of_find?_eq_some found) (eq_of_beq same)]

/-- Searching a list for a key that no element has finds nothing. -/
theorem find?_key_eq_none [BEq κ] [LawfulBEq κ] {k : κ} (absent : ∀ a ∈ as, key a ≠ k) :
    (as.find? fun a => key a == k) = none :=
  List.find?_eq_none.2 fun a mem same => absent a mem (eq_of_beq same)

/-- Where keys are strictly ordered along a list, elements with the same key are the same. -/
theorem eq_of_key_eq {lt : κ → κ → Prop} (irrefl : ∀ k, ¬ lt k k)
    (ordered : as.Pairwise fun a later => lt (key a) (key later)) {a' : α} (mem : a ∈ as)
    (mem' : a' ∈ as) (same : key a = key a') : a = a' := by
  obtain ⟨i, h, rfl⟩ := List.getElem_of_mem mem
  obtain ⟨j, h', rfl⟩ := List.getElem_of_mem mem'
  rw [List.pairwise_iff_getElem] at ordered
  rcases Nat.lt_trichotomy i j with before | together | behind
  · exact absurd (same ▸ ordered i j h h' before) (irrefl _)
  · simp only [together]
  · exact absurd (same ▸ ordered j i h' h behind) (irrefl _)

end SectorVault
