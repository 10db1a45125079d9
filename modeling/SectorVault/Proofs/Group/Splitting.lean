import Mathlib
import SectorVault.Group.Bundle
import SectorVault.Proofs.Bytes

/-!
# What bundling writes

A bundle is made from a matrix of chunks, row by row, and splitting gives back the files, which are
the columns of the matrix.  Splitting goes over the bundle twice: once over the table, to turn
differences into lengths, and once over the chunks, to cut them by these lengths.  Each pass is
followed here on what bundling writes: a row of the table reads back as the lengths of its chunks
(`readRow_differences`), and cutting by these lengths gives the chunks back (`cut_lengths`).

Differences are written as signed words, and that is all that limits the matrix: any chunk below
`2 ^ 31` bytes will do, and there may be no row at all, in which case every file is empty.
-/

namespace SectorVault
namespace Bundle

/-! ## The table -/

/-- A cell of the table changes the running sum by the word it holds. -/
theorem readRow_cell (count ordinal : Nat) (sum : Int) (done : List Nat) (w : Int32)
    (table : Bytes) :
    readRow (count + 1) ordinal sum done (ofSigned w ++ table) =
      if sum + w.toInt < 0 then .error (.negativeChunk ordinal (sum + w.toInt))
      else readRow count (ordinal + 1) (sum + w.toInt) ((sum + w.toInt).toNat :: done) table := by
  obtain ⟨b0, b1, b2, b3, cell⟩ := List.length_eq_four.1 (length_ofSigned w)
  have word : signedOf [b0, b1, b2, b3] = w := by rw [← cell, signedOf_ofSigned]
  rw [cell]
  simp only [List.cons_append, List.nil_append, readRow, word]

/-- The differences of some lengths read back as the lengths. -/
theorem readRow_differences {before : Nat} {lengths : List Nat} (before_lt : before < 2 ^ 31)
    (short : ∀ length ∈ lengths, length < 2 ^ 31) (ordinal : Nat) (done : List Nat)
    (table : Bytes) :
    readRow lengths.length ordinal before done
        ((differences before lengths).flatMap (fun d => ofSigned (Int32.ofInt d)) ++ table) =
      .ok (done.reverse ++ lengths, table) := by
  induction lengths generalizing before ordinal done with
  | nil => simp [readRow, differences]
  | cons length lengths ih =>
    have length_lt := short length (by simp)
    have difference : (Int32.ofInt (length - before : Int)).toInt = length - before :=
      Int32.toInt_ofInt_of_le (by omega) (by omega)
    have sum : (before : Int) + (length - before) = length := by omega
    rw [List.length_cons, differences, List.flatMap_cons, List.append_assoc, readRow_cell,
      difference, sum, if_neg (by omega), Int.toNat_natCast,
      ih length_lt (fun l h => short l (by simp [h]))]
    simp

theorem readRow_tableRow {row : List Bytes} (short : ∀ chunk ∈ row, chunk.length < 2 ^ 31)
    (table : Bytes) :
    readRow row.length 0 0 [] (tableRow row ++ table) = .ok (row.map List.length, table) := by
  have lengths : ∀ length ∈ row.map List.length, length < 2 ^ 31 := by simpa using short
  have before_lt : 0 < 2 ^ 31 := by norm_num
  have h := readRow_differences before_lt lengths 0 [] table
  simpa [tableRow] using h

theorem readRows_tableRows {fileCount : Nat} {rows : List (List Bytes)}
    (rectangular : ∀ row ∈ rows, row.length = fileCount)
    (short : ∀ row ∈ rows, ∀ chunk ∈ row, chunk.length < 2 ^ 31) :
    readRows fileCount rows.length (rows.flatMap tableRow) =
      .ok (rows.map (List.map List.length)) := by
  induction rows with
  | nil => rfl
  | cons row rows ih =>
    have first := readRow_tableRow (short row (by simp)) (rows.flatMap tableRow)
    rw [rectangular row (by simp)] at first
    have rest := ih (fun r h => rectangular r (by simp [h])) (fun r h => short r (by simp [h]))
    rw [List.length_cons, List.flatMap_cons, readRows, first]
    simp only [bind, Except.bind, rest, pure, Except.pure, List.map_cons]

@[simp] theorem length_differences (before : Int) (lengths : List Nat) :
    (differences before lengths).length = lengths.length := by
  induction lengths generalizing before with
  | nil => rfl
  | cons length lengths ih => simp [differences, ih]

theorem length_tableRow (row : List Bytes) : (tableRow row).length = 4 * row.length := by
  simp [tableRow, List.length_flatMap, Nat.mul_comm]

theorem length_tableRows {fileCount : Nat} {rows : List (List Bytes)}
    (rectangular : ∀ row ∈ rows, row.length = fileCount) :
    (rows.flatMap tableRow).length = 4 * rows.length * fileCount := by
  induction rows with
  | nil => simp
  | cons row rows ih =>
    rw [List.flatMap_cons, List.length_append, length_tableRow, rectangular row (by simp),
      ih (fun r h => rectangular r (by simp [h])), List.length_cons]
    ring

/-! ## The chunks -/

/-- The contents of the file at an ordinal: its chunks from the first row to the last. -/
def column (rows : List (List Bytes)) (ordinal : Nat) : Bytes :=
  rows.flatMap fun row => row.getD ordinal []

theorem cut_lengths (row : List Bytes) (bytes : Bytes) (done : List Bytes) :
    cut (row.map List.length) (row.flatten ++ bytes) done = (done.reverse ++ row, bytes) := by
  induction row generalizing done with
  | nil => simp [cut]
  | cons chunk row ih =>
    rw [List.map_cons, List.flatten_cons, List.append_assoc, cut, List.take_left',
      List.drop_left', ih]
    · simp
    · rfl
    · rfl

/-- A row put in front of some columns. -/
theorem zipWith_append_column {fileCount : Nat} {row : List Bytes} (width : row.length = fileCount)
    (rows : List (List Bytes)) :
    List.zipWith (· ++ ·) row ((List.range fileCount).map (column rows)) =
      (List.range fileCount).map (column (row :: rows)) := by
  subst width
  apply List.ext_getElem
  · simp
  · intro ordinal h _
    have inRow : ordinal < row.length := by simpa using h
    simp [column, List.getD_eq_getElem?_getD, inRow]

theorem gather_lengths {fileCount : Nat} {rows : List (List Bytes)}
    (rectangular : ∀ row ∈ rows, row.length = fileCount) (bytes : Bytes) :
    gather fileCount (rows.map (List.map List.length)) (rows.flatten.flatten ++ bytes) =
      (List.range fileCount).map (column rows) := by
  induction rows with
  | nil =>
    have empty : column [] = fun _ => [] := rfl
    simp [gather, empty]
  | cons row rows ih =>
    have rest := ih (fun r h => rectangular r (by simp [h]))
    rw [List.map_cons, List.flatten_cons, List.flatten_append, List.append_assoc, gather,
      cut_lengths]
    simp only [List.reverse_nil, List.nil_append, rest]
    exact zipWith_append_column (rectangular row (by simp)) rows

/-! ## One file or several -/

variable {bundle : Bytes} {chunks : UInt8} {fileCount : Nat}

/-- A bundle of more than one file comes to its contents, each with the label of its ordinal. -/
theorem split_of_several (last : bundle.getLast? = some chunks) (several : 2 ≤ fileCount)
    (ids : Array UInt32) (nameHashes : Array Int32) :
    split bundle ids nameHashes fileCount =
      (contents bundle chunks fileCount).map fun files =>
        files.zipIdx.map fun (data, ordinal) => label ids nameHashes ordinal data := by
  rw [split, last]
  simp only
  rw [if_neg (by omega)]
  cases contents bundle chunks fileCount <;> rfl

/-! ## Whole bundles -/

theorem sum_lengths (rows : List (List Bytes)) :
    (rows.map (List.map List.length)).flatten.foldr (· + ·) 0 = rows.flatten.flatten.length := by
  rw [← List.sum_eq_foldr, ← List.map_flatten, List.length_flatten]

theorem getLast?_ofRows (rows : List (List Bytes)) :
    (ofRows rows).getLast? = some (UInt8.ofNat rows.length) := by
  simp [ofRows]

theorem column_singleton (files : List Bytes) :
    (List.range files.length).map (column [files]) = files := by
  apply List.ext_getElem
  · simp
  · intro ordinal h _
    have inRow : ordinal < files.length := by simpa using h
    simp [column, inRow]

/-- A bundle is at least as long as each of its chunks. -/
theorem length_le_ofRows {rows : List (List Bytes)} {row : List Bytes} {chunk : Bytes}
    (listed : row ∈ rows) (mem : chunk ∈ row) : chunk.length ≤ (ofRows rows).length := by
  have one : chunk.length ≤ rows.flatten.flatten.length := by
    rw [List.length_flatten]
    exact List.le_sum_of_mem (List.mem_map_of_mem (List.mem_flatten_of_mem listed mem))
  simp only [ofRows, List.length_append]
  omega

end Bundle
end SectorVault
