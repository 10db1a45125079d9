import Mathlib
import SectorVault.Proofs.Group.Splitting
import SectorVault.Proofs.Group.Sums

/-!
# The pieces that a table cuts

The chunks stand one after another from the first byte of the bundle on, row by row.  So the lengths before
a chunk say where it starts (`chunkOffset`), and the bytes from there on, as many as its length says, are the
chunk (`piece`).  The file at an ordinal is made of the pieces in its column.

A piece starts where the one before it stops, and a row where the one before it stops.  So the pieces, put
together again in their order, are a front of the bundle, whatever the lengths are (`flatten_pieces`), and if
this front is within the bundle, each piece has its length (`map_length_pieces`).
-/

namespace SectorVault
namespace Bundle

/-! ## Where a chunk starts -/

section Offsets

variable (table : Bytes) (fileCount : Nat)

/-- The offset at which the chunk of a file in a row starts. -/
def chunkOffset (row ordinal : Nat) : Nat :=
  chunkTotal table row fileCount + ∑ j ∈ Finset.range ordinal, chunkLength table fileCount row j

@[simp] theorem chunkOffset_zero (row : Nat) :
    chunkOffset table fileCount row 0 = chunkTotal table row fileCount := by
  simp [chunkOffset]

theorem chunkOffset_succ (row ordinal : Nat) :
    chunkOffset table fileCount row (ordinal + 1) =
      chunkOffset table fileCount row ordinal + chunkLength table fileCount row ordinal := by
  rw [chunkOffset, chunkOffset, Finset.sum_range_succ, Nat.add_assoc]

/-- A row starts where the one before it stops. -/
theorem chunkOffset_fileCount (row : Nat) :
    chunkOffset table fileCount row fileCount = chunkTotal table (row + 1) fileCount := by
  rw [chunkOffset, chunkTotal, chunkTotal, Finset.sum_range_succ]

theorem chunkTotal_mono : Monotone fun rows => chunkTotal table rows fileCount :=
  monotone_nat_of_le_succ fun row => by
    simp only [chunkTotal, Finset.sum_range_succ]
    exact Nat.le_add_right _ _

theorem chunkOffset_mono (row : Nat) : Monotone (chunkOffset table fileCount row) :=
  monotone_nat_of_le_succ fun ordinal => by
    rw [chunkOffset_succ]
    exact Nat.le_add_right _ _

/-- No chunk reaches beyond all of them. -/
theorem chunkOffset_le {rows row ordinal : Nat} (above : row < rows) (inside : ordinal < fileCount) :
    chunkOffset table fileCount row (ordinal + 1) ≤ chunkTotal table rows fileCount := by
  calc chunkOffset table fileCount row (ordinal + 1)
      ≤ chunkOffset table fileCount row fileCount := chunkOffset_mono table fileCount row inside
    _ = chunkTotal table (row + 1) fileCount := chunkOffset_fileCount table fileCount row
    _ ≤ chunkTotal table rows fileCount := chunkTotal_mono table fileCount above

/-- The number of bytes that the first `count` chunks of a file take. -/
def columnTotal (count ordinal : Nat) : Nat :=
  ∑ row ∈ Finset.range count, chunkLength table fileCount row ordinal

theorem columnTotal_mono (ordinal : Nat) : Monotone fun count => columnTotal table fileCount count ordinal :=
  monotone_nat_of_le_succ fun count => by
    simp only [columnTotal, Finset.sum_range_succ]
    exact Nat.le_add_right _ _

theorem sum_columnTotal (rows : Nat) :
    ∑ ordinal ∈ Finset.range fileCount, columnTotal table fileCount rows ordinal =
      chunkTotal table rows fileCount :=
  Finset.sum_comm

variable {fileCount} in
/-- The size of a file is at most `2 ^ 60` in a table with fewer than `2 ^ 29` cells. -/
theorem columnTotal_le {rows count ordinal : Nat} (small : 4 * rows * fileCount < 2 ^ 31)
    (above : count ≤ rows) (inside : ordinal < fileCount) :
    columnTotal table fileCount count ordinal ≤ 2 ^ 60 := by
  have cells : count * fileCount ≤ 2 ^ 29 := by
    have fewer : count * fileCount ≤ rows * fileCount := Nat.mul_le_mul_right _ above
    have all : 4 * rows * fileCount = 4 * (rows * fileCount) := by ring
    omega
  calc columnTotal table fileCount count ordinal
      ≤ ∑ _row ∈ Finset.range count, fileCount * 2 ^ 31 := Finset.sum_le_sum fun row _ =>
        (chunkLength_le table fileCount row ordinal).trans (Nat.mul_le_mul_right _ inside)
    _ = count * fileCount * 2 ^ 31 := by simp [Nat.mul_assoc]
    _ ≤ 2 ^ 29 * 2 ^ 31 := Nat.mul_le_mul_right _ cells
    _ = 2 ^ 60 := by norm_num

end Offsets

/-! ## The pieces -/

section Pieces

variable (bundle table : Bytes) (fileCount : Nat)

/-- The chunk of a file in a row. -/
def piece (row ordinal : Nat) : Bytes :=
  (bundle.drop (chunkOffset table fileCount row ordinal)).take (chunkLength table fileCount row ordinal)

/-- The matrix of all chunks, by rows. -/
def pieces (rows : Nat) : List (List Bytes) :=
  (List.range rows).map fun row => (List.range fileCount).map (piece bundle table fileCount row)

/-- The first `count` chunks of a file. -/
def columnPieces (count ordinal : Nat) : Bytes :=
  (List.range count).flatMap fun row => piece bundle table fileCount row ordinal

/-- The pieces of a row go on from where the row starts. -/
theorem take_append_row (row count : Nat) :
    bundle.take (chunkTotal table row fileCount) ++
        ((List.range count).map (piece bundle table fileCount row)).flatten =
      bundle.take (chunkOffset table fileCount row count) := by
  induction count with
  | zero => simp
  | succ count ih =>
    rw [List.range_succ, List.map_append, List.flatten_append, ← List.append_assoc, ih,
      chunkOffset_succ, List.take_add]
    simp [piece]

/-- **The pieces are a front of the bundle**, each byte of it once and in order. -/
theorem flatten_pieces (rows : Nat) :
    (pieces bundle table fileCount rows).flatten.flatten =
      bundle.take (chunkTotal table rows fileCount) := by
  induction rows with
  | zero => simp [pieces, chunkTotal]
  | succ rows ih =>
    rw [pieces] at ih ⊢
    rw [List.range_succ, List.map_append, List.flatten_append, List.flatten_append, ih,
      List.map_singleton, List.flatten_singleton, take_append_row, chunkOffset_fileCount]

theorem column_pieces {ordinal : Nat} (inside : ordinal < fileCount) (rows : Nat) :
    column (pieces bundle table fileCount rows) ordinal =
      columnPieces bundle table fileCount rows ordinal := by
  simp [column, pieces, columnPieces, List.flatMap_map, inside, List.getD_eq_getElem?_getD]

variable {bundle table fileCount} {rows : Nat}

theorem length_piece (within : chunkTotal table rows fileCount ≤ bundle.length) {row ordinal : Nat}
    (above : row < rows) (inside : ordinal < fileCount) :
    (piece bundle table fileCount row ordinal).length = chunkLength table fileCount row ordinal := by
  have stop := chunkOffset_le table fileCount above inside
  rw [chunkOffset_succ] at stop
  rw [piece, List.length_take, List.length_drop]
  omega

theorem map_length_pieces (within : chunkTotal table rows fileCount ≤ bundle.length) :
    (pieces bundle table fileCount rows).map (List.map List.length) = lengthsOf table rows fileCount := by
  rw [pieces, lengthsOf, List.map_map]
  refine List.map_congr_left fun row above => ?_
  rw [Function.comp_apply, List.map_map]
  exact List.map_congr_left fun ordinal inside =>
    length_piece within (List.mem_range.1 above) (List.mem_range.1 inside)

/-- What is gathered for a file is its column of the pieces. -/
theorem gather_lengthsOf (within : chunkTotal table rows fileCount ≤ bundle.length) :
    gather fileCount (lengthsOf table rows fileCount) bundle =
      (List.range fileCount).map (columnPieces bundle table fileCount rows) := by
  have rectangular : ∀ row ∈ pieces bundle table fileCount rows, row.length = fileCount := by
    simp [pieces]
  have gathered := gather_lengths rectangular (bundle.drop (chunkTotal table rows fileCount))
  rw [flatten_pieces, List.take_append_drop, map_length_pieces within] at gathered
  rw [gathered]
  exact List.map_congr_left fun ordinal inside =>
    column_pieces bundle table fileCount (List.mem_range.1 inside) rows

end Pieces

end Bundle
end SectorVault
