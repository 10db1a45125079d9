import Mathlib
import SectorVault.Proofs.ReferenceTable.RoundTrip
import SectorVault.ReferenceTable.Assembly

/-!
# Assembling from a source of stored bytes

A source that hands out the bytes of every group a table lists lets the table be assembled, and the
groups are then those of the table, each with the bytes the source has for it (`fetchFrom_eq`).  The
groups are given by the items they are made from, as in the passes over the columns.

A source that has no state to change is one step that is taken for every group (`fetchFrom_stateless`).
-/

namespace SectorVault
namespace ReferenceTable

variable {σ ε ι : Type} {source : Nat → UInt32 → σ → Except ε Bytes × σ}

/-- Fetching groups that the source has, without changing its state, fills in their bytes. -/
theorem fetchFrom_eq {items : List ι} {group : ι → Group} {raw : ι → Bytes} {state : σ}
    (has : ∀ item ∈ items,
      source (group item).ordinal (group item).id state = (.ok (raw item), state))
    (done : List Group) :
    fetchFrom source (items.map group) done state =
      (.ok (done.reverse ++ items.map fun item => { group item with raw := raw item }), state) := by
  induction items generalizing done with
  | nil => simp [fetchFrom]
  | cons item items ih =>
    have first := has item (by simp)
    have others := ih (fun item h => has item (by simp [h]))
      ({ group item with raw := raw item } :: done)
    rw [List.map_cons, fetchFrom, first]
    simp only
    rw [others]
    simp

/-- Fetching from a source without a state is the same step for every group. -/
theorem fetchFrom_stateless (fetch : UInt32 → Except ε Bytes) (groups done : List Group) (state : σ) :
    fetchFrom (fun _ id state => (fetch id, state)) groups done state =
      ((groups.mapM fun group => (fetch group.id).map fun raw => { group with raw := raw }).map
        (done.reverse ++ ·), state) := by
  induction groups generalizing done with
  | nil => simp [fetchFrom, pure, Except.pure, Except.map]
  | cons group groups ih =>
    rw [fetchFrom, List.mapM_cons]
    cases fetch group.id with
    | error error => rfl
    | ok raw =>
      simp only [ih]
      cases groups.mapM fun group => (fetch group.id).map fun raw => { group with raw := raw } with
      | error error => rfl
      | ok others => simp [Except.map, bind, Except.bind, pure, Except.pure]

/-- The groups of a table that was written, with the bytes that a source has for each. -/
def fetchedGroups (flags : TableFlags) (raw : Group → Bytes) (groups : List Group) : List Group :=
  groups.zipIdx.map fun (group, ordinal) =>
    { flags.keep group ordinal with raw := raw group }

/-- A table that was written as the data of a container is assembled to the groups it was written
from, each with what the source has for it. -/
theorem assemble_encode {protocol : Protocol} {groups : List Group} (revision : Int32)
    (flags : UInt8) (encodable : Encodable protocol groups) (archive : UInt8)
    {container : Container} (data : container.data = encode protocol revision flags groups)
    (digest : Digest) (lift : TableError → ε) {raw : Group → Bytes} {state : σ}
    (has : ∀ group ∈ groups, ∀ ordinal,
      source ordinal group.id state = (.ok (raw group), state)) :
    assemble archive container digest lift source state =
      (.ok { (ofGroups protocol revision flags groups).withGroups
          (fetchedGroups (TableFlags.ofByte flags) raw groups).toArray with
        archive := archive
        crc := container.crc
        digest := digest
        compression := container.compression }, state) := by
  have read_eq := read_encode revision flags encodable []
  rw [List.append_nil, ← data] at read_eq
  have listed : (ofGroups protocol revision flags groups).groups.toList =
      groups.zipIdx.map fun item => (TableFlags.ofByte flags).keep item.1 item.2 := rfl
  have fetched : fetchFrom source
      (groups.zipIdx.map fun item => (TableFlags.ofByte flags).keep item.1 item.2) [] state =
        (.ok ([] ++ fetchedGroups (TableFlags.ofByte flags) raw groups), state) :=
    fetchFrom_eq (fun item h => has item.1 (List.fst_mem_of_mem_zipIdx h) item.2) []
  unfold assemble
  rw [read_eq]
  simp only
  rw [listed, fetched]
  rfl

end ReferenceTable
end SectorVault
