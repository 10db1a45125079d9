import Mathlib
import SectorVault.Group.Bundle
import SectorVault.Proofs.Outcomes

/-!
# The lengths that a table stands for

A table of lengths need not have been written by anything that bundles: it may hold any bytes.  What it says
is nevertheless a matter of sums alone.  The number in a cell is read as a signed word, and the length of the
chunk of a file in a row is the sum of the numbers in that row up to the cell of the file (`runningSum`).

Reading a table comes to the matrix of these sums if none of them is negative (`readRows_eq_ok`), and
otherwise to the first one that is, in the order in which the cells are (`readRows_eq_negative`).  The table
of a bundle has as many cells as are read, so that it never ends too early.
-/

namespace SectorVault
namespace Bundle

/-! ## Sums -/

/-- The number in a cell of a table. -/
def cell (table : Bytes) (i : Nat) : Int := (signedOf ((table.drop (4 * i)).take 4)).toInt

/-- The sum of the numbers in a row up to the cell of a file. -/
def runningSum (table : Bytes) (fileCount row ordinal : Nat) : Int :=
  ∑ i ∈ Finset.range (ordinal + 1), cell table (row * fileCount + i)

/-- The sum that the cell with an ordinal comes to, when the sum before the first cell is `sum`. -/
def sumFrom (table : Bytes) (sum : Int) (ordinal : Nat) : Int :=
  sum + ∑ i ∈ Finset.range (ordinal + 1), cell table i

theorem cell_drop (table : Bytes) (cells i : Nat) :
    cell (table.drop (4 * cells)) i = cell table (cells + i) := by
  rw [cell, cell, List.drop_drop, Nat.mul_add]

theorem sumFrom_zero (table : Bytes) (sum : Int) : sumFrom table sum 0 = sum + cell table 0 := by
  simp [sumFrom]

/-- One cell on, the sums go on from the sum of the cell. -/
theorem sumFrom_succ (table : Bytes) (sum : Int) (ordinal : Nat) :
    sumFrom table sum (ordinal + 1) = sumFrom (table.drop 4) (sumFrom table sum 0) ordinal := by
  have shifted : ∀ i, cell (table.drop 4) i = cell table (i + 1) := fun i => by
    rw [Nat.add_comm]
    exact cell_drop table 1 i
  rw [sumFrom_zero, sumFrom, sumFrom, Finset.sum_range_succ', Finset.sum_congr rfl fun i _ => shifted i]
  ring

/-- In the first row, the sums start at the first cell. -/
theorem runningSum_zero (table : Bytes) (fileCount ordinal : Nat) :
    runningSum table fileCount 0 ordinal = sumFrom table 0 ordinal := by
  simp [runningSum, sumFrom]

/-- One row on, the rows are those of the rest of the table. -/
theorem runningSum_drop (table : Bytes) (fileCount row ordinal : Nat) :
    runningSum (table.drop (4 * fileCount)) fileCount row ordinal =
      runningSum table fileCount (row + 1) ordinal := by
  refine Finset.sum_congr rfl fun i _ => ?_
  rw [cell_drop]
  congr 1
  ring

/-! ## How large they are -/

theorem abs_cell_le (table : Bytes) (i : Nat) : |cell table i| ≤ 2 ^ 31 := by
  have low := Int32.le_toInt (signedOf ((table.drop (4 * i)).take 4))
  have high := Int32.toInt_lt (signedOf ((table.drop (4 * i)).take 4))
  rw [cell, abs_le]
  omega

theorem abs_runningSum_le (table : Bytes) (fileCount row ordinal : Nat) :
    |runningSum table fileCount row ordinal| ≤ (ordinal + 1) * 2 ^ 31 := by
  calc |runningSum table fileCount row ordinal|
      ≤ ∑ i ∈ Finset.range (ordinal + 1), |cell table (row * fileCount + i)| :=
        Finset.abs_sum_le_sum_abs _ _
    _ ≤ ∑ _i ∈ Finset.range (ordinal + 1), (2 ^ 31 : Int) :=
        Finset.sum_le_sum fun i _ => abs_cell_le table _
    _ = (ordinal + 1) * 2 ^ 31 := by simp

/-- No sum of a table with fewer than `2 ^ 29` cells leaves `2 ^ 60`. -/
theorem abs_runningSum_le_of_small (table : Bytes) {rows fileCount row ordinal : Nat}
    (small : 4 * rows * fileCount < 2 ^ 31) (row_lt : row < rows) (ordinal_lt : ordinal < fileCount) :
    |runningSum table fileCount row ordinal| ≤ 2 ^ 60 := by
  have oneRow : 4 * fileCount ≤ 4 * rows * fileCount := Nat.mul_le_mul_right _ (by omega)
  calc |runningSum table fileCount row ordinal|
      ≤ (ordinal + 1) * 2 ^ 31 := abs_runningSum_le table fileCount row ordinal
    _ ≤ 2 ^ 29 * 2 ^ 31 := by omega
    _ = 2 ^ 60 := by norm_num

/-! ## Reading a row -/

/-- A cell of the table, if there is one. -/
theorem readRow_succ {table : Bytes} (long : 4 ≤ table.length) (count ordinal : Nat) (sum : Int)
    (done : List Nat) :
    readRow (count + 1) ordinal sum done table =
      if sumFrom table sum 0 < 0 then .error (.negativeChunk ordinal (sumFrom table sum 0))
      else readRow count (ordinal + 1) (sumFrom table sum 0) ((sumFrom table sum 0).toNat :: done)
        (table.drop 4) := by
  match table, long with
  | b0 :: b1 :: b2 :: b3 :: rest, _ =>
    rw [sumFrom_zero]
    rfl

variable {count ordinal : Nat} {sum : Int} {table : Bytes}

theorem length_behind (long : 4 * (count + 1) ≤ table.length) : 4 * count ≤ (table.drop 4).length := by
  rw [List.length_drop]
  omega

/-- A row comes to its sums if none of them is negative. -/
theorem readRow_eq_ok (ordinal : Nat) (done : List Nat) (long : 4 * count ≤ table.length)
    (nonneg : ∀ i < count, 0 ≤ sumFrom table sum i) :
    readRow count ordinal sum done table =
      .ok (done.reverse ++ (List.range count).map fun i => (sumFrom table sum i).toNat,
        table.drop (4 * count)) := by
  induction count generalizing ordinal sum done table with
  | zero => simp [readRow]
  | succ count ih =>
    have first : 0 ≤ sumFrom table sum 0 := nonneg 0 (by omega)
    have rest : ∀ i < count, 0 ≤ sumFrom (table.drop 4) (sumFrom table sum 0) i := fun i inside => by
      rw [← sumFrom_succ]
      exact nonneg (i + 1) (by omega)
    rw [readRow_succ (by omega), if_neg (by omega), ih _ _ (length_behind long) rest]
    simp only [← sumFrom_succ, List.range_succ_eq_map, List.map_cons, List.map_map, List.reverse_cons,
      List.append_assoc, List.singleton_append, List.drop_drop, Function.comp_def]
    congr 3
    ring

/-- Otherwise it comes to the first negative one. -/
theorem readRow_eq_negative (ordinal : Nat) (done : List Nat) (long : 4 * count ≤ table.length) {i : Nat}
    (inside : i < count) (negative : sumFrom table sum i < 0) (nonneg : ∀ j < i, 0 ≤ sumFrom table sum j) :
    readRow count ordinal sum done table =
      .error (.negativeChunk (ordinal + i) (sumFrom table sum i)) := by
  induction count generalizing ordinal sum done table i with
  | zero => omega
  | succ count ih =>
    rw [readRow_succ (by omega)]
    cases i with
    | zero => rw [if_pos negative, Nat.add_zero]
    | succ i =>
      have first : 0 ≤ sumFrom table sum 0 := nonneg 0 (by omega)
      have rest : ∀ j < i, 0 ≤ sumFrom (table.drop 4) (sumFrom table sum 0) j := fun j before => by
        rw [← sumFrom_succ]
        exact nonneg (j + 1) (by omega)
      rw [sumFrom_succ] at negative
      rw [if_neg (by omega), ih _ _ (length_behind long) (by omega) negative rest, ← sumFrom_succ,
        Nat.add_right_comm, Nat.add_assoc]

/-! ## Reading a table -/

variable {rows fileCount : Nat}

/-- The length of a chunk, if its sum is not negative. -/
def chunkLength (table : Bytes) (fileCount row ordinal : Nat) : Nat :=
  (runningSum table fileCount row ordinal).toNat

theorem chunkLength_le (table : Bytes) (fileCount row ordinal : Nat) :
    chunkLength table fileCount row ordinal ≤ (ordinal + 1) * 2 ^ 31 := by
  have bounded := (le_abs_self _).trans (abs_runningSum_le table fileCount row ordinal)
  rw [chunkLength, Int.toNat_le]
  exact_mod_cast bounded

/-- The lengths that a table stands for, if none of its sums is negative. -/
def lengthsOf (table : Bytes) (rows fileCount : Nat) : List (List Nat) :=
  (List.range rows).map fun row => (List.range fileCount).map (chunkLength table fileCount row)

theorem chunkLength_drop (table : Bytes) (fileCount row : Nat) :
    chunkLength (table.drop (4 * fileCount)) fileCount row = chunkLength table fileCount (row + 1) := by
  funext ordinal
  rw [chunkLength, chunkLength, runningSum_drop]

theorem lengthsOf_succ (table : Bytes) (rows fileCount : Nat) :
    lengthsOf table (rows + 1) fileCount =
      (List.range fileCount).map (chunkLength table fileCount 0) ::
        lengthsOf (table.drop (4 * fileCount)) rows fileCount := by
  simp only [lengthsOf, chunkLength_drop, List.range_succ_eq_map, List.map_cons, List.map_map,
    Function.comp_def]

variable (table rows fileCount) in
/-- No sum of the table is negative. -/
def Nonnegative : Prop :=
  ∀ row < rows, ∀ ordinal < fileCount, 0 ≤ runningSum table fileCount row ordinal

variable (table rows fileCount) in
/-- The sum of a cell is negative, and it is the first one: those of the rows before and of the cells before
in the same row are not. -/
structure FirstNegative (row ordinal : Nat) : Prop where
  row_lt : row < rows
  ordinal_lt : ordinal < fileCount
  negative : runningSum table fileCount row ordinal < 0
  above : ∀ earlier < row, ∀ ordinal < fileCount, 0 ≤ runningSum table fileCount earlier ordinal
  left : ∀ earlier < ordinal, 0 ≤ runningSum table fileCount row earlier

/-- If there is a negative sum, there is a first one. -/
theorem nonnegative_or_firstNegative (table : Bytes) (rows fileCount : Nat) :
    Nonnegative table rows fileCount ∨ ∃ row ordinal, FirstNegative table rows fileCount row ordinal := by
  by_cases nonneg : Nonnegative table rows fileCount
  · exact .inl nonneg
  · right
    have some : ∃ row, row < rows ∧ ∃ ordinal < fileCount,
        runningSum table fileCount row ordinal < 0 := by
      simpa [Nonnegative] using nonneg
    -- The least row that has one, and the least ordinal in it.
    classical
    have negative := (Nat.find_spec some).2
    refine ⟨Nat.find some, Nat.find negative, (Nat.find_spec some).1, (Nat.find_spec negative).1,
      (Nat.find_spec negative).2, ?_, ?_⟩
    · intro earlier before ordinal inside
      by_contra below
      exact Nat.find_min some before
        ⟨before.trans (Nat.find_spec some).1, ordinal, inside, not_le.1 below⟩
    · intro earlier before
      by_contra below
      exact Nat.find_min negative before ⟨before.trans (Nat.find_spec negative).1, not_le.1 below⟩

theorem Nonnegative.map_lengthsOf (nonneg : Nonnegative table rows fileCount) :
    (lengthsOf table rows fileCount).map (List.map Nat.cast) =
      (List.range rows).map fun row => (List.range fileCount).map (runningSum table fileCount row) := by
  rw [lengthsOf, List.map_map]
  refine List.map_congr_left fun row above => ?_
  rw [Function.comp_apply, List.map_map]
  exact List.map_congr_left fun ordinal inside =>
    Int.toNat_of_nonneg (nonneg row (List.mem_range.1 above) ordinal (List.mem_range.1 inside))

/-! One row on, everything holds of the rest of the table. -/

theorem length_rest (long : 4 * (rows + 1) * fileCount ≤ table.length) :
    4 * fileCount ≤ table.length ∧ 4 * rows * fileCount ≤ (table.drop (4 * fileCount)).length := by
  have cells : 4 * (rows + 1) * fileCount = 4 * rows * fileCount + 4 * fileCount := by ring
  rw [List.length_drop]
  omega

theorem Nonnegative.rest (nonneg : Nonnegative table (rows + 1) fileCount) :
    Nonnegative (table.drop (4 * fileCount)) rows fileCount := fun row above ordinal inside => by
  rw [runningSum_drop]
  exact nonneg (row + 1) (by omega) ordinal inside

theorem FirstNegative.rest {row ordinal : Nat}
    (first : FirstNegative table (rows + 1) fileCount (row + 1) ordinal) :
    FirstNegative (table.drop (4 * fileCount)) rows fileCount row ordinal where
  row_lt := Nat.lt_of_succ_lt_succ first.row_lt
  ordinal_lt := first.ordinal_lt
  negative := runningSum_drop table fileCount row ordinal ▸ first.negative
  above earlier before ordinal inside := by
    rw [runningSum_drop]
    exact first.above (earlier + 1) (by omega) ordinal inside
  left earlier before := by
    rw [runningSum_drop]
    exact first.left earlier before

theorem firstRow_eq_ok (long : 4 * fileCount ≤ table.length)
    (nonneg : ∀ ordinal < fileCount, 0 ≤ runningSum table fileCount 0 ordinal) :
    readRow fileCount 0 0 [] table =
      .ok ((List.range fileCount).map (chunkLength table fileCount 0), table.drop (4 * fileCount)) := by
  simp only [runningSum_zero] at nonneg
  have row : chunkLength table fileCount 0 = fun ordinal => (sumFrom table 0 ordinal).toNat := by
    funext ordinal
    rw [chunkLength, runningSum_zero]
  rw [readRow_eq_ok 0 [] long nonneg, row]
  rfl

/-- A table comes to its sums if none of them is negative. -/
theorem readRows_eq_ok (long : 4 * rows * fileCount ≤ table.length)
    (nonneg : Nonnegative table rows fileCount) :
    readRows fileCount rows table = .ok (lengthsOf table rows fileCount) := by
  induction rows generalizing table with
  | zero => rfl
  | succ rows ih =>
    obtain ⟨oneRow, others⟩ := length_rest long
    rw [readRows, firstRow_eq_ok oneRow (nonneg 0 (by omega)), lengthsOf_succ]
    simp only [bind, Except.bind, ih others nonneg.rest, pure, Except.pure]

/-- Otherwise it comes to the first negative one. -/
theorem readRows_eq_negative (long : 4 * rows * fileCount ≤ table.length) {row ordinal : Nat}
    (first : FirstNegative table rows fileCount row ordinal) :
    readRows fileCount rows table =
      .error (.negativeChunk ordinal (runningSum table fileCount row ordinal)) := by
  induction rows generalizing table row with
  | zero => exact absurd first.row_lt (by omega)
  | succ rows ih =>
    obtain ⟨oneRow, others⟩ := length_rest long
    cases row with
    | zero =>
      have top := runningSum_zero table fileCount
      have fails := readRow_eq_negative 0 [] oneRow first.ordinal_lt (top ordinal ▸ first.negative)
        fun earlier before => top earlier ▸ first.left earlier before
      rw [readRows, fails, top, Nat.zero_add]
      rfl
    | succ row =>
      rw [readRows, firstRow_eq_ok oneRow (first.above 0 (by omega))]
      simp only [bind, Except.bind, ih others first.rest, runningSum_drop]

/-! ## The table of a bundle -/

/-- The offset at which the table of a bundle starts. -/
def tableStart (bundle : Bytes) (chunks : UInt8) (fileCount : Nat) : Nat :=
  bundle.length - 1 - 4 * chunks.toNat * fileCount

/-- The table of a bundle. -/
def tableOf (bundle : Bytes) (chunks : UInt8) (fileCount : Nat) : Bytes :=
  (bundle.drop (tableStart bundle chunks fileCount)).take (4 * chunks.toNat * fileCount)

variable {bundle : Bytes} {chunks : UInt8}

theorem length_tableOf (fits : 4 * chunks.toNat * fileCount < bundle.length) :
    (tableOf bundle chunks fileCount).length = 4 * chunks.toNat * fileCount := by
  rw [tableOf, List.length_take, List.length_drop, tableStart]
  omega

theorem tableStart_le (bundle : Bytes) (chunks : UInt8) (fileCount : Nat) :
    tableStart bundle chunks fileCount ≤ bundle.length :=
  (Nat.sub_le _ _).trans (Nat.sub_le _ _)

/-- Behind the table there is one byte more. -/
theorem tableStart_add (fits : 4 * chunks.toNat * fileCount < bundle.length) :
    tableStart bundle chunks fileCount + 4 * chunks.toNat * fileCount + 1 = bundle.length := by
  rw [tableStart]
  omega

/-- The number of bytes that the chunks of all files take. -/
def chunkTotal (table : Bytes) (rows fileCount : Nat) : Nat :=
  ∑ row ∈ Finset.range rows, ∑ ordinal ∈ Finset.range fileCount, chunkLength table fileCount row ordinal

theorem sum_lengthsOf (table : Bytes) (rows fileCount : Nat) :
    (lengthsOf table rows fileCount).flatten.sum = chunkTotal table rows fileCount := by
  have entries : ∀ (count : Nat) (f : Nat → Nat),
      ((List.range count).map f).sum = ∑ i ∈ Finset.range count, f i := fun _ _ => rfl
  simp only [lengthsOf, chunkTotal, List.sum_flatten, List.map_map, Function.comp_def, entries]

/-! ## The contents of a bundle -/

theorem contents_of_tooLarge (large : bundle.length ≤ 4 * chunks.toNat * fileCount) :
    contents bundle chunks fileCount =
      .error (.trailerTooLarge chunks fileCount bundle.length) := by
  rw [contents, if_pos large]
  rfl

theorem contents_of_firstNegative (fits : 4 * chunks.toNat * fileCount < bundle.length)
    {row ordinal : Nat}
    (first : FirstNegative (tableOf bundle chunks fileCount) chunks.toNat fileCount row ordinal) :
    contents bundle chunks fileCount =
      .error (.negativeChunk ordinal
        (runningSum (tableOf bundle chunks fileCount) fileCount row ordinal)) := by
  have rows := readRows_eq_negative (length_tableOf fits).ge first
  rw [contents, if_neg (by omega)]
  show (readRows fileCount chunks.toNat (tableOf bundle chunks fileCount)).bind _ = _
  rw [rows]
  rfl

theorem contents_of_nonnegative (fits : 4 * chunks.toNat * fileCount < bundle.length)
    (nonneg : Nonnegative (tableOf bundle chunks fileCount) chunks.toNat fileCount) :
    contents bundle chunks fileCount =
      let total := chunkTotal (tableOf bundle chunks fileCount) chunks.toNat fileCount
      if tableStart bundle chunks fileCount < total then
        .error (.chunkOverflow total (tableStart bundle chunks fileCount))
      else .ok (gather fileCount
        (lengthsOf (tableOf bundle chunks fileCount) chunks.toNat fileCount) bundle) := by
  have rows := readRows_eq_ok (length_tableOf fits).ge nonneg
  rw [contents, if_neg (by omega)]
  show (readRows fileCount chunks.toNat (tableOf bundle chunks fileCount)).bind _ = _
  rw [rows, ← sum_lengthsOf, List.sum_eq_foldr]
  by_cases exceeds : tableStart bundle chunks fileCount <
      (lengthsOf (tableOf bundle chunks fileCount) chunks.toNat fileCount).flatten.foldr (· + ·) 0
  · exact (if_pos exceeds).trans (if_pos exceeds).symm
  · exact (if_neg exceeds).trans (if_neg exceeds).symm

end Bundle
end SectorVault
