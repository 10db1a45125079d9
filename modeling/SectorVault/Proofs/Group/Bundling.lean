import Mathlib
import SectorVault.Proofs.Group.Passes

/-!
# Splitting undoes bundling

The table of a bundle that was made from a matrix of chunks stands for the lengths of the chunks: none of its
running sums is negative (`nonnegative_ofRows`), and they are these lengths (`lengthsOf_ofRows`).  So they are
short, and their sum over all chunks is the number of bytes before the table, however long the bundle is.
Words are enough for all of them as long as they are enough for the length of the bundle (`inWords_ofRows`),
and splitting in words undoes bundling as splitting in numbers of any size does.

What is limited besides is the number of files, for which memory is asked even if there are no rows.
-/

namespace SectorVault
namespace Bundle

/-! ## The table of a bundle of chunks -/

section Table

variable {rows : List (List Bytes)} {fileCount : Nat} (count : rows.length ≤ 255)
  (rectangular : ∀ row ∈ rows, row.length = fileCount)

include count in
theorem toNat_rowCount : (UInt8.ofNat rows.length).toNat = rows.length := by
  rw [UInt8.toNat_ofNat', Nat.mod_eq_of_lt (by omega)]

include rectangular in
theorem length_ofRows :
    (ofRows rows).length = rows.flatten.flatten.length + 4 * rows.length * fileCount + 1 := by
  simp only [ofRows, List.length_append, length_tableRows rectangular, List.length_singleton]

include count rectangular in
theorem tableStart_ofRows :
    tableStart (ofRows rows) (UInt8.ofNat rows.length) fileCount = rows.flatten.flatten.length := by
  rw [tableStart, toNat_rowCount count, length_ofRows rectangular]
  omega

include count rectangular in
theorem tableOf_ofRows :
    tableOf (ofRows rows) (UInt8.ofNat rows.length) fileCount = rows.flatMap tableRow := by
  rw [tableOf, tableStart_ofRows count rectangular, toNat_rowCount count, ofRows, List.append_assoc,
    List.drop_left, ← length_tableRows rectangular, List.take_left]

variable (short : ∀ row ∈ rows, ∀ chunk ∈ row, chunk.length < 2 ^ 31)

include rectangular short

theorem nonnegative_ofRows : Nonnegative (rows.flatMap tableRow) rows.length fileCount := by
  have long := (length_tableRows rectangular).ge
  rcases nonnegative_or_firstNegative (rows.flatMap tableRow) rows.length fileCount with
    nonneg | ⟨row, ordinal, first⟩
  · exact nonneg
  · have both := (readRows_tableRows rectangular short).symm.trans (readRows_eq_negative long first)
    cases both

theorem lengthsOf_ofRows :
    lengthsOf (rows.flatMap tableRow) rows.length fileCount = rows.map (List.map List.length) :=
  Except.ok.inj ((readRows_eq_ok (length_tableRows rectangular).ge
    (nonnegative_ofRows rectangular short)).symm.trans (readRows_tableRows rectangular short))

theorem chunkTotal_ofRows :
    chunkTotal (rows.flatMap tableRow) rows.length fileCount = rows.flatten.flatten.length := by
  rw [← sum_lengthsOf, lengthsOf_ofRows rectangular short, List.sum_eq_foldr, sum_lengths]

theorem chunkLength_lt {row ordinal : Nat} (above : row < rows.length) (inside : ordinal < fileCount) :
    chunkLength (rows.flatMap tableRow) fileCount row ordinal < 2 ^ 31 := by
  have listed : (List.range fileCount).map (chunkLength (rows.flatMap tableRow) fileCount row) ∈
      rows.map (List.map List.length) := by
    rw [← lengthsOf_ofRows rectangular short]
    exact List.mem_map_of_mem (List.mem_range.2 above)
  obtain ⟨chunks, mem, lengths⟩ := List.mem_map.1 listed
  have length : chunkLength (rows.flatMap tableRow) fileCount row ordinal ∈ chunks.map List.length := by
    rw [lengths]
    exact List.mem_map_of_mem (List.mem_range.2 inside)
  obtain ⟨chunk, mem', length⟩ := List.mem_map.1 length
  rw [← length]
  exact short chunks mem chunk mem'

include count in
/-- The chunks of a bundle are its contents. -/
theorem contents_ofRows :
    contents (ofRows rows) (UInt8.ofNat rows.length) fileCount =
      .ok ((List.range fileCount).map (column rows)) := by
  have rowCount := toNat_rowCount count
  have length := length_ofRows rectangular
  have table := tableOf_ofRows count rectangular
  have fits : 4 * (UInt8.ofNat rows.length).toNat * fileCount < (ofRows rows).length := by
    rw [rowCount]
    omega
  have nonneg : Nonnegative (tableOf (ofRows rows) (UInt8.ofNat rows.length) fileCount)
      (UInt8.ofNat rows.length).toNat fileCount := by
    rw [table, rowCount]
    exact nonnegative_ofRows rectangular short
  have judged := contents_of_nonnegative fits nonneg
  simp only [table, rowCount, tableStart_ofRows count rectangular, chunkTotal_ofRows rectangular short,
    lengthsOf_ofRows rectangular short, lt_self_iff_false, if_false] at judged
  rw [judged, ofRows, List.append_assoc, gather_lengths rectangular]

end Table

end Bundle

namespace Splitter

open SectorVault.Bundle (ofRows tableOf tableOf_ofRows toNat_rowCount length_ofRows nonnegative_ofRows
  chunkTotal_ofRows chunkLength chunkLength_lt columnTotal chunkTotal sum_columnTotal tableRow column)

variable {rows : List (List Bytes)}

/-- Words that are long enough for the length of a bundle are long enough for what it adds up to. -/
theorem inWords_ofRows {fileCount : Nat} (rectangular : ∀ row ∈ rows, row.length = fileCount)
    (short : ∀ row ∈ rows, ∀ chunk ∈ row, chunk.length < 2 ^ 31) (word : (ofRows rows).length < 2 ^ 64) :
    InWords (rows.flatMap tableRow) rows.length fileCount where
  sums row above ordinal inside := by
    have nonneg := nonnegative_ofRows rectangular short row above ordinal inside
    have length := chunkLength_lt rectangular short above inside
    rw [chunkLength] at length
    omega
  sizes ordinal inside := by
    have one : columnTotal (rows.flatMap tableRow) fileCount rows.length ordinal ≤
        chunkTotal (rows.flatMap tableRow) rows.length fileCount := by
      rw [← sum_columnTotal]
      exact Finset.single_le_sum (f := columnTotal (rows.flatMap tableRow) fileCount rows.length)
        (fun _ _ => Nat.zero_le _) (Finset.mem_range.2 inside)
    rw [chunkTotal_ofRows rectangular short] at one
    have all := length_ofRows rectangular
    omega

/-- Splitting in words undoes bundling. -/
theorem contentsUnder_ofRows (overflow : Overflow) {fileCount : UInt64} (count : rows.length ≤ 255)
    (rectangular : ∀ row ∈ rows, row.length = fileCount.toNat)
    (short : ∀ row ∈ rows, ∀ chunk ∈ row, chunk.length < 2 ^ 31) (word : (ofRows rows).length < 2 ^ 64)
    (room : 24 * fileCount.toNat < 2 ^ 63) :
    contentsUnder overflow (ofRows rows) (UInt8.ofNat rows.length) fileCount =
      .ok ((List.range fileCount.toNat).map (column rows)) := by
  have table := tableOf_ofRows count rectangular
  have length := length_ofRows rectangular
  have rowCount := toNat_rowCount count
  have total := chunkTotal_ofRows rectangular short
  rw [contentsUnder_of_word overflow word, Bundle.contents_ofRows count rectangular short]
  · rw [rowCount]
    omega
  · rw [table, rowCount]
    exact inWords_ofRows rectangular short word
  · rw [table, rowCount]
    exact nonnegative_ofRows rectangular short
  · exact room
  · rw [table, rowCount, total]
    omega

end Splitter

namespace Bundle

/-- **Splitting undoes bundling.**  The bundle of a matrix of chunks, of any number of rows that one
byte can hold, splits into as many files as the matrix has columns; each file is its column from the
first row to the last, and is labelled by its ordinal.  And so it does in words, on any machine, if the
bundle and the number of files are within the bounds of one. -/
theorem split_ofRows (fileCount : Nat) (rows : List (List Bytes)) (ids : Array UInt32)
    (nameHashes : Array Int32) (several : 2 ≤ fileCount) (count : rows.length ≤ 255)
    (rectangular : ∀ row ∈ rows, row.length = fileCount)
    (short : ∀ row ∈ rows, ∀ chunk ∈ row, chunk.length < 2 ^ 31) :
    let files : List File := (List.range fileCount).map fun ordinal =>
      { id := (ids[ordinal]?).getD (UInt32.ofNat ordinal)
        nameHash := (nameHashes[ordinal]?).getD (-1)
        data := column rows ordinal }
    split (ofRows rows) ids nameHashes fileCount = .ok files ∧
      (fileCount < 2 ^ 32 → (ofRows rows).length < 2 ^ 63 →
        Splitter.split (ofRows rows) ids nameHashes (UInt64.ofNat fileCount) = .ok files ∧
          ∀ overflow, Splitter.splitUnder overflow (ofRows rows) ids nameHashes
            (UInt64.ofNat fileCount) = .ok files) := by
  intro files
  have labelled : (((List.range fileCount).map (column rows)).zipIdx.map fun content =>
      label ids nameHashes content.2 content.1) = files := by
    apply List.ext_getElem
    · simp [files]
    · intro ordinal _ _
      simp [files, label, unnamed]
  have last := getLast?_ofRows rows
  constructor
  · rw [split_of_several last several, contents_ofRows count rectangular short]
    exact congrArg Except.ok labelled
  intro few long
  have word : (UInt64.ofNat fileCount).toNat = fileCount :=
    UInt64.toNat_ofNat_of_lt' (few.trans (by norm_num))
  have splits : ∀ overflow, Splitter.splitUnder overflow (ofRows rows) ids nameHashes
      (UInt64.ofNat fileCount) = .ok files := fun overflow => by
    rw [Splitter.splitUnder_of_several overflow last (word.symm ▸ several),
      Splitter.contentsUnder_ofRows overflow count (word.symm ▸ rectangular) short (by omega) (by omega), word]
    exact congrArg Except.ok labelled
  exact ⟨splits .stops, splits⟩

theorem split_ofRows_interleaved :
    (∀ row ∈ ([[[1, 2], [], [3]], [[], [4, 5, 6], [7]]] : List (List Bytes)), row.length = 3) ∧
      split (ofRows [[[1, 2], [], [3]], [[], [4, 5, 6], [7]]]) #[10, 20] #[] 3 =
        .ok [⟨10, -1, [1, 2]⟩, ⟨20, -1, [4, 5, 6]⟩, ⟨2, -1, [3, 7]⟩] ∧
      Splitter.split (ofRows [[[1, 2], [], [3]], [[], [4, 5, 6], [7]]]) #[10, 20] #[] 3 =
        .ok [⟨10, -1, [1, 2]⟩, ⟨20, -1, [4, 5, 6]⟩, ⟨2, -1, [3, 7]⟩] := by
  have rectangular :
      ∀ row ∈ ([[[1, 2], [], [3]], [[], [4, 5, 6], [7]]] : List (List Bytes)), row.length = 3 := by
    decide
  obtain ⟨splits, inWords⟩ :=
    split_ofRows 3 _ #[10, 20] #[] (by decide) (by decide) rectangular (by decide)
  exact ⟨rectangular, splits, (inWords (by decide) (by decide)).1⟩

end Bundle
end SectorVault
