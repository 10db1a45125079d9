import Mathlib
import SectorVault.Proofs.Group.Exactness

/-!
# How far words go

The sums of a row and the sizes of the files never leave their words on a bundle that is shorter than
`2 ^ 31` bytes.  The sum of the sizes may.  The sums of a row grow with its columns, so that the sum over all
chunks grows with the square of their number, and a little more than `2 ^ 19` bytes are enough for it to come
to `2 ^ 64`.

As long as the sum is a double word, a bundle is refused exactly if its chunks do not fit, with the sum as the
number of bytes that are needed.  Beyond that, never: a machine that stops does so before anything is compared;
and one that wraps around compares a remainder, so that either another number is named, or nothing is refused,
and the run ends where memory is taken for the files (`split_judges_sum_iff`).  Tables in which every cell is
the same, so that the lengths are the steps of a stair, show all of this (`splitUnder_stairs`).
-/

namespace SectorVault
namespace Bundle

/-! ## How large the sums are -/

variable (table : Bytes) (fileCount : Nat)

/-- The sum of the numbers up to `count`. -/
theorem sum_steps (count : Nat) : 2 * ∑ i ∈ Finset.range count, (i + 1) = count * (count + 1) := by
  have gauss := Finset.sum_range_id_mul_two (count + 1)
  rw [Finset.sum_range_succ', Nat.add_zero, Nat.add_sub_cancel] at gauss
  rw [Nat.mul_comm, gauss, Nat.mul_comm]

variable {table fileCount} {rows : Nat}

/-- The sum over all chunks is a double word in a table with fewer than `2 ^ 17` cells. -/
theorem chunkTotal_lt (few : rows * fileCount < 2 ^ 17) : chunkTotal table rows fileCount < 2 ^ 64 := by
  have oneRow : ∀ row, ∑ ordinal ∈ Finset.range fileCount, chunkLength table fileCount row ordinal ≤
      fileCount * (fileCount + 1) * 2 ^ 30 := fun row => by
    calc ∑ ordinal ∈ Finset.range fileCount, chunkLength table fileCount row ordinal
        ≤ ∑ ordinal ∈ Finset.range fileCount, (ordinal + 1) * 2 ^ 31 :=
          Finset.sum_le_sum fun ordinal _ => chunkLength_le table fileCount row ordinal
      _ = 2 * (∑ ordinal ∈ Finset.range fileCount, (ordinal + 1)) * 2 ^ 30 := by
          rw [← Finset.sum_mul]
          ring
      _ = fileCount * (fileCount + 1) * 2 ^ 30 := by rw [sum_steps]
  have total : chunkTotal table rows fileCount ≤ rows * fileCount * (fileCount + 1) * 2 ^ 30 := by
    calc chunkTotal table rows fileCount
        ≤ ∑ _row ∈ Finset.range rows, fileCount * (fileCount + 1) * 2 ^ 30 :=
          Finset.sum_le_sum fun row _ => oneRow row
      _ = rows * fileCount * (fileCount + 1) * 2 ^ 30 := by
          simp only [Finset.sum_const, Finset.card_range, smul_eq_mul]
          ring
  rcases Nat.eq_zero_or_pos rows with rfl | some
  · simp [chunkTotal]
  · have columns : fileCount ≤ rows * fileCount := Nat.le_mul_of_pos_left _ some
    calc chunkTotal table rows fileCount
        ≤ rows * fileCount * (fileCount + 1) * 2 ^ 30 := total
      _ ≤ (2 ^ 17 - 1) * 2 ^ 17 * 2 ^ 30 :=
          Nat.mul_le_mul_right _ (Nat.mul_le_mul (by omega) (by omega))
      _ < 2 ^ 64 := by norm_num

end Bundle

namespace Splitter

open SectorVault.Bundle (tableOf tableStart runningSum columnTotal chunkTotal Nonnegative FirstNegative)

/-! ## What a table comes to -/

section Judged

variable (overflow : Overflow) {bundle : Bytes} {chunks : UInt8} {fileCount : UInt64}
  (short : bundle.length < 2 ^ 31) (last : bundle.getLast? = some chunks) (several : 2 ≤ fileCount.toNat)
  (fits : 4 * chunks.toNat * fileCount.toNat < bundle.length)

include short fits

/-- Too many files for memory are too many for a table with a row. -/
theorem room_of_rows (rows : 0 < chunks.toNat) : 24 * fileCount.toNat < 2 ^ 63 := by
  have row : 4 * 1 * fileCount.toNat ≤ 4 * chunks.toNat * fileCount.toNat :=
    Nat.mul_le_mul_right _ (by omega)
  omega

/-- A sum that is no double word takes a row. -/
theorem room_of_no_word {table : Bytes}
    (large : 2 ^ 64 ≤ chunkTotal table chunks.toNat fileCount.toNat) : 24 * fileCount.toNat < 2 ^ 63 := by
  refine room_of_rows short fits (Nat.pos_of_ne_zero fun none => ?_)
  rw [none, chunkTotal, Finset.range_zero, Finset.sum_empty] at large
  omega

variable (ids : Array UInt32) (nameHashes : Array Int32)

include last several

theorem splitUnder_of_firstNegative {row ordinal : Nat}
    (first : FirstNegative (tableOf bundle chunks fileCount.toNat) chunks.toNat fileCount.toNat row
      ordinal) :
    splitUnder overflow bundle ids nameHashes fileCount =
      .error (.negativeChunk ordinal
        (runningSum (tableOf bundle chunks fileCount.toNat) fileCount.toNat row ordinal)) := by
  have room := room_of_rows short fits (Nat.zero_lt_of_lt first.row_lt)
  rw [splitUnder_of_several overflow last several,
    contentsUnder_of_firstNegative overflow (short.trans (by norm_num)) fits
      (inWords_of_small _ (fits.trans short)) (by omega) first]
  rfl

theorem splitUnder_of_no_room (large : 2 ^ 63 ≤ 24 * fileCount.toNat) :
    splitUnder overflow bundle ids nameHashes fileCount = .error .capacityOverflow := by
  rw [splitUnder_of_several overflow last several,
    contentsUnder_of_no_room overflow (short.trans (by norm_num)) fits short large]
  rfl

variable (nonneg : Nonnegative (tableOf bundle chunks fileCount.toNat) chunks.toNat fileCount.toNat)

include nonneg

/-- A sum that is a double word is judged as it is. -/
theorem splitUnder_of_word (room : 24 * fileCount.toNat < 2 ^ 63)
    (word : chunkTotal (tableOf bundle chunks fileCount.toNat) chunks.toNat fileCount.toNat < 2 ^ 64) :
    let total := chunkTotal (tableOf bundle chunks fileCount.toNat) chunks.toNat fileCount.toNat
    let available := tableStart bundle chunks fileCount.toNat
    let outcome := splitUnder overflow bundle ids nameHashes fileCount
    available < total ∧ outcome = .error (.chunkOverflow total available) ∨
      total ≤ available ∧ ∃ files, outcome = .ok files := by
  intro total available outcome
  have several := splitUnder_of_several overflow last several ids nameHashes
  rw [contentsUnder_of_word overflow (short.trans (by norm_num)) fits
      (inWords_of_small _ (fits.trans short)) nonneg room word,
    Bundle.contents_of_nonnegative fits nonneg] at several
  simp only [outcome, several]
  by_cases exceeds : available < total
  · exact .inl ⟨exceeds, congrArg (Except.map _) (if_pos exceeds)⟩
  · exact .inr ⟨not_lt.1 exceeds, _, congrArg (Except.map _) (if_neg exceeds)⟩

/-- A sum that is none ends the run, or its remainder is judged. -/
theorem splitUnder_of_no_word
    (large : 2 ^ 64 ≤ chunkTotal (tableOf bundle chunks fileCount.toNat) chunks.toNat fileCount.toNat) :
    let total := chunkTotal (tableOf bundle chunks fileCount.toNat) chunks.toNat fileCount.toNat
    let available := tableStart bundle chunks fileCount.toNat
    splitUnder overflow bundle ids nameHashes fileCount =
      match overflow with
      | .stops => .error .sumOverflow
      | .wraps =>
        if available < total % 2 ^ 64 then .error (.chunkOverflow (total % 2 ^ 64) available)
        else .error .outOfMemory := by
  intro total available
  have judged := contentsUnder_of_no_word overflow (short.trans (by norm_num)) fits
    (inWords_of_small _ (fits.trans short)) nonneg (room_of_no_word short fits large) large
  rw [splitUnder_of_several overflow last several, judged]
  cases overflow with
  | stops => rfl
  | wraps =>
    simp only
    split <;> rfl

/-- The sum is judged as it is exactly if there can be that many files and it is a double word. -/
theorem judges_sum_iff :
    let total := chunkTotal (tableOf bundle chunks fileCount.toNat) chunks.toNat fileCount.toNat
    let available := tableStart bundle chunks fileCount.toNat
    let outcome := splitUnder overflow bundle ids nameHashes fileCount
    (outcome = .error (.chunkOverflow total available) ↔ available < total) ∧
        (total ≤ available → ∃ files, outcome = .ok files) ↔
      24 * fileCount.toNat < 2 ^ 63 ∧ total < 2 ^ 64 := by
  intro total available outcome
  constructor
  · intro judges
    by_cases word : total < 2 ^ 64
    · refine ⟨?_, word⟩
      -- If there is no room, there is no row, so that nothing is needed, and yet there are no files.
      by_contra large
      have failed : outcome = .error .capacityOverflow :=
        splitUnder_of_no_room overflow short last several fits ids nameHashes (not_lt.1 large)
      rw [failed] at judges
      obtain ⟨named, accepts⟩ := judges
      obtain ⟨files, ⟨⟩⟩ := accepts (not_lt.1 fun exceeds => by cases named.2 exceeds)
    · -- If the sum is no double word, the chunks do not fit, and yet the sum is not what is named.
      have large : 2 ^ 64 ≤ total := not_lt.1 word
      have exceeds : available < total := by
        have within : available ≤ bundle.length := Bundle.tableStart_le bundle chunks fileCount.toNat
        omega
      have ends := splitUnder_of_no_word overflow short last several fits ids nameHashes nonneg large
      have named := ends.symm.trans (judges.1.2 exceeds)
      have remainder : total % 2 ^ 64 < 2 ^ 64 := Nat.mod_lt _ (by norm_num)
      cases overflow with
      | stops => cases named
      | wraps =>
        simp only at named
        split_ifs at named
        · injection named with named
          injection named with needed _
          omega
        · cases named
  · rintro ⟨room, word⟩
    obtain ⟨exceeds, named⟩ | ⟨within, files, accepted⟩ :=
      splitUnder_of_word overflow short last several fits ids nameHashes nonneg room word
    · exact ⟨iff_of_true named exceeds, fun within => absurd exceeds (not_lt.2 within)⟩
    · refine ⟨iff_of_false (fun other => ?_) (not_lt.2 within), fun _ => ⟨files, accepted⟩⟩
      have both := accepted.symm.trans other
      cases both

omit nonneg in
/-- If there are no files, it is for one of these reasons. -/
theorem splitUnder_eq_error {error : GroupError}
    (refused : splitUnder overflow bundle ids nameHashes fileCount = .error error) :
    let table := tableOf bundle chunks fileCount.toNat
    (∃ ordinal length, error = .negativeChunk ordinal length) ∨
      error = .capacityOverflow ∨
      (∃ needed available, error = .chunkOverflow needed available) ∨
      Nonnegative table chunks.toNat fileCount.toNat ∧
        2 ^ 64 ≤ chunkTotal table chunks.toNat fileCount.toNat ∧
        (error = .sumOverflow ∨ error = .outOfMemory) := by
  intro table
  rcases Bundle.nonnegative_or_firstNegative table chunks.toNat fileCount.toNat with
    nonneg | ⟨row, ordinal, first⟩
  swap
  · rw [splitUnder_of_firstNegative overflow short last several fits ids nameHashes first] at refused
    exact .inl ⟨_, _, (Except.error.inj refused).symm⟩
  by_cases room : 24 * fileCount.toNat < 2 ^ 63
  swap
  · rw [splitUnder_of_no_room overflow short last several fits ids nameHashes (not_lt.1 room)] at refused
    exact .inr (.inl (Except.error.inj refused).symm)
  by_cases word : chunkTotal table chunks.toNat fileCount.toNat < 2 ^ 64
  · obtain ⟨-, named⟩ | ⟨-, files, accepted⟩ :=
      splitUnder_of_word overflow short last several fits ids nameHashes nonneg room word
    · rw [named] at refused
      exact .inr (.inr (.inl ⟨_, _, (Except.error.inj refused).symm⟩))
    · rw [accepted] at refused
      cases refused
  · have large := not_lt.1 word
    rw [splitUnder_of_no_word overflow short last several fits ids nameHashes nonneg large] at refused
    cases overflow with
    | stops => exact .inr (.inr (.inr ⟨nonneg, large, .inl (Except.error.inj refused).symm⟩))
    | wraps =>
      simp only at refused
      split_ifs at refused
      · exact .inr (.inr (.inl ⟨_, _, (Except.error.inj refused).symm⟩))
      · exact .inr (.inr (.inr ⟨nonneg, large, .inr (Except.error.inj refused).symm⟩))

omit nonneg overflow in
/-- A machine that stops does so for the sum of the chunks only. -/
theorem split_eq_sumOverflow_iff :
    split bundle ids nameHashes fileCount = .error .sumOverflow ↔
      Nonnegative (tableOf bundle chunks fileCount.toNat) chunks.toNat fileCount.toNat ∧
        2 ^ 64 ≤ chunkTotal (tableOf bundle chunks fileCount.toNat) chunks.toNat fileCount.toNat := by
  constructor
  · intro ends
    obtain ⟨_, _, ⟨⟩⟩ | ⟨⟨⟩⟩ | ⟨_, _, ⟨⟩⟩ | ⟨nonneg, large, -⟩ :=
      splitUnder_eq_error .stops short last several fits ids nameHashes ends
    exact ⟨nonneg, large⟩
  · rintro ⟨nonneg, large⟩
    exact splitUnder_of_no_word .stops short last several fits ids nameHashes nonneg large

omit nonneg in
/-- No chunk is cut out beyond the end of the bundle. -/
theorem splitUnder_ne_outOfBounds :
    splitUnder overflow bundle ids nameHashes fileCount ≠ .error .outOfBounds := by
  intro beyond
  obtain ⟨_, _, ⟨⟩⟩ | ⟨⟨⟩⟩ | ⟨_, _, ⟨⟩⟩ | ⟨-, -, ⟨⟨⟩⟩ | ⟨⟨⟩⟩⟩ :=
    splitUnder_eq_error overflow short last several fits ids nameHashes beyond

end Judged

variable (bundle : Bytes) (ids : Array UInt32) (nameHashes : Array Int32) (fileCount : UInt64)

/-- **Chunks are judged by their sum exactly as long as it is a double word.**  No sum of a row and no size
of a file leaves its word, and neither does the sum over all chunks on a bundle of at most `2 ^ 19` bytes.  If
no sum of a row is negative, the sizes are those that the table stands for, and if that many files can be made
at all, the bundle is refused for the sum of its chunks exactly if they do not fit before the table, and split
otherwise, exactly if that sum is a double word.  If it is none, a machine that stops does so, and for no other
sum; on one that wraps around, the remainder is judged, and either named or taken for enough, and then there
is no memory for the files.  In no case is a chunk cut out beyond the end of the bundle. -/
theorem split_judges_sum_iff (chunks : UInt8) (short : bundle.length < 2 ^ 31)
    (last : bundle.getLast? = some chunks) (several : 2 ≤ fileCount.toNat)
    (fits : 4 * chunks.toNat * fileCount.toNat < bundle.length) :
    let table := tableOf bundle chunks fileCount.toNat
    let available := tableStart bundle chunks fileCount.toNat
    let total := chunkTotal table chunks.toNat fileCount.toNat
    (∀ row < chunks.toNat, ∀ ordinal < fileCount.toNat,
        |runningSum table fileCount.toNat row ordinal| ≤ 2 ^ 60) ∧
      (∀ count ≤ chunks.toNat, ∀ ordinal < fileCount.toNat,
        columnTotal table fileCount.toNat count ordinal ≤ 2 ^ 60) ∧
      (bundle.length ≤ 2 ^ 19 → total < 2 ^ 64) ∧
      (split bundle ids nameHashes fileCount = .error .sumOverflow ↔
        Nonnegative table chunks.toNat fileCount.toNat ∧ 2 ^ 64 ≤ total) ∧
      ∀ overflow,
        let outcome := splitUnder overflow bundle ids nameHashes fileCount
        (Nonnegative table chunks.toNat fileCount.toNat →
          (∃ sizes, walkRows overflow (addSize overflow) fileCount.toNat chunks.toNat
              (Array.replicate fileCount.toNat 0) table = .ok sizes ∧
            sizes.toList.map UInt64.toNat =
              (List.range fileCount.toNat).map (columnTotal table fileCount.toNat chunks.toNat)) ∧
          ((outcome = .error (.chunkOverflow total available) ↔ available < total) ∧
              (total ≤ available → ∃ files, outcome = .ok files) ↔
            24 * fileCount.toNat < 2 ^ 63 ∧ total < 2 ^ 64) ∧
          (2 ^ 63 ≤ 24 * fileCount.toNat → outcome = .error .capacityOverflow) ∧
          (2 ^ 64 ≤ total → outcome =
            match overflow with
            | .stops => .error .sumOverflow
            | .wraps =>
              if available < total % 2 ^ 64 then .error (.chunkOverflow (total % 2 ^ 64) available)
              else .error .outOfMemory)) ∧
        outcome ≠ .error .outOfBounds := by
  intro table available total
  have small : 4 * chunks.toNat * fileCount.toNat < 2 ^ 31 := fits.trans short
  have words := inWords_of_small table small
  refine ⟨?_, ?_, ?_, split_eq_sumOverflow_iff short last several fits ids nameHashes, ?_⟩
  · intro row above ordinal inside
    exact Bundle.abs_runningSum_le_of_small table small above inside
  · intro count above ordinal inside
    exact Bundle.columnTotal_le table small above inside
  · intro few
    have cells : 4 * chunks.toNat * fileCount.toNat = 4 * (chunks.toNat * fileCount.toNat) := by ring
    exact Bundle.chunkTotal_lt (by omega)
  intro overflow outcome
  refine ⟨?_, splitUnder_ne_outOfBounds overflow short last several fits ids nameHashes⟩
  intro nonneg
  refine ⟨⟨sizesAt table fileCount.toNat chunks.toNat 0, ?_, map_toNat_sizesAt words⟩, ?_, ?_, ?_⟩
  · exact walkRows_addSize_of_nonnegative (Bundle.length_tableOf fits).ge words nonneg
  · exact judges_sum_iff overflow short last several fits ids nameHashes nonneg
  · exact splitUnder_of_no_room overflow short last several fits ids nameHashes
  · exact splitUnder_of_no_word overflow short last several fits ids nameHashes nonneg

/-- One byte is missing before the table. -/
theorem split_judges_sum_of_missing_byte :
    split [7, 7, 7, 0, 0, 0, 2, 0, 0, 0, 0, 1] #[] #[] 2 = .error (.chunkOverflow 4 3) := by
  obtain ⟨-, -, few, -, judged⟩ := split_judges_sum_iff [7, 7, 7, 0, 0, 0, 2, 0, 0, 0, 0, 1] #[] #[] 2 1
    (by decide) rfl (by decide) (by decide)
  obtain ⟨-, judges, -⟩ := (judged .stops).1 (by unfold Nonnegative; decide)
  exact (judges.2 ⟨by decide, few (by decide)⟩).1.2 (by decide)

end Splitter

/-! ## Stairs -/

namespace Bundle

/-- A bundle of one row with a table in which every cell is the same, so that each length is by one step more
than the one before. -/
def stairs (padding count : Nat) (step : Int32) : Bytes :=
  List.replicate padding 0 ++ (List.replicate count (ofSigned step)).flatten ++ [1]

variable (padding count : Nat) (step : Int32)

theorem length_stairs : (stairs padding count step).length = padding + 4 * count + 1 := by
  simp [stairs]
  ring

theorem getLast?_stairs : (stairs padding count step).getLast? = some 1 := by
  simp [stairs]

theorem tableStart_stairs : tableStart (stairs padding count step) 1 count = padding := by
  have one : (1 : UInt8).toNat = 1 := rfl
  rw [tableStart, length_stairs, one]
  omega

theorem tableOf_stairs :
    tableOf (stairs padding count step) 1 count = (List.replicate count (ofSigned step)).flatten := by
  have one : 4 * (1 : UInt8).toNat * count = (List.replicate count (ofSigned step)).flatten.length := by
    simp [Nat.mul_comm]
  rw [tableOf, tableStart_stairs, one, stairs, List.append_assoc, List.drop_left' (by simp),
    List.take_left]

variable {count}

theorem cell_stairs {i : Nat} (inside : i < count) :
    cell (List.replicate count (ofSigned step)).flatten i = step.toInt := by
  have before : (List.replicate count (ofSigned step)).flatten =
      (List.replicate i (ofSigned step)).flatten ++
        (ofSigned step ++ (List.replicate (count - i - 1) (ofSigned step)).flatten) := by
    rw [← List.flatten_cons, ← List.flatten_append, ← List.replicate_succ, List.replicate_append_replicate]
    congr 2
    omega
  rw [cell, before, List.drop_left' (by simp [Nat.mul_comm]), List.take_left' (length_ofSigned step),
    signedOf_ofSigned]

theorem runningSum_stairs {ordinal : Nat} (inside : ordinal < count) :
    runningSum (List.replicate count (ofSigned step)).flatten count 0 ordinal =
      (ordinal + 1) * step.toInt := by
  rw [runningSum, Finset.sum_congr rfl fun i before => ?_, Finset.sum_const, Finset.card_range,
    nsmul_eq_mul]
  · push_cast
    rfl
  · have := Finset.mem_range.1 before
    rw [Nat.zero_mul, Nat.zero_add, cell_stairs step (by omega)]

variable {step} (rising : 0 ≤ step.toInt)

include rising

theorem nonnegative_stairs : Nonnegative (List.replicate count (ofSigned step)).flatten 1 count := by
  intro row top ordinal inside
  obtain rfl : row = 0 := by omega
  rw [runningSum_stairs step inside]
  positivity

theorem two_mul_chunkTotal_stairs (count : Nat) :
    2 * chunkTotal (List.replicate count (ofSigned step)).flatten 1 count =
      count * (count + 1) * step.toInt.toNat := by
  have lengths : ∀ ordinal ∈ Finset.range count,
      chunkLength (List.replicate count (ofSigned step)).flatten count 0 ordinal =
        (ordinal + 1) * step.toInt.toNat := fun ordinal inside => by
    rw [chunkLength, runningSum_stairs step (Finset.mem_range.1 inside)]
    obtain ⟨n, same⟩ := Int.eq_ofNat_of_zero_le rising
    rw [same]
    rfl
  rw [chunkTotal, Finset.sum_range_one, Finset.sum_congr rfl lengths, ← Finset.sum_mul, ← Nat.mul_assoc,
    sum_steps]

end Bundle

namespace Splitter

open SectorVault.Bundle (stairs tableOf tableStart chunkTotal Nonnegative)

/-- The outcome for stairs that are so steep that their sum is no double word. -/
theorem splitUnder_stairs {step : Int32} (rising : 0 ≤ step.toInt) (padding : Nat) (count : UInt64)
    {total : Nat} (sum : 2 * total = count.toNat * (count.toNat + 1) * step.toInt.toNat)
    (several : 2 ≤ count.toNat) (short : padding + 4 * count.toNat + 1 < 2 ^ 31) (large : 2 ^ 64 ≤ total)
    (ids : Array UInt32) (nameHashes : Array Int32) (overflow : Overflow) :
    splitUnder overflow (stairs padding count.toNat step) ids nameHashes count =
      match overflow with
      | .stops => .error .sumOverflow
      | .wraps =>
        if padding < total % 2 ^ 64 then .error (.chunkOverflow (total % 2 ^ 64) padding)
        else .error .outOfMemory := by
  have length := Bundle.length_stairs padding count.toNat step
  have one : 4 * (1 : UInt8).toNat * count.toNat = 4 * count.toNat := rfl
  have table := Bundle.tableOf_stairs padding count.toNat step
  have start := Bundle.tableStart_stairs padding count.toNat step
  have same : Bundle.chunkTotal (Bundle.tableOf (stairs padding count.toNat step) 1 count.toNat)
      (1 : UInt8).toNat count.toNat = total := by
    have doubled := Bundle.two_mul_chunkTotal_stairs rising count.toNat
    have lone : (1 : UInt8).toNat = 1 := rfl
    rw [table, lone]
    omega
  have judged := splitUnder_of_no_word overflow (by omega)
    (Bundle.getLast?_stairs padding count.toNat step) several (by omega) ids nameHashes
    (table ▸ Bundle.nonnegative_stairs rising) (same ▸ large)
  rwa [same, start] at judged

/-- In a bundle of `2 ^ 19 + 1` bytes, the sum is no double word, and the run ends; where it wraps around, the
refusal names another number.  In a longer one, the remainder fits before the table, so that where the sum
wraps around, the run goes on until there is no memory for the files. -/
theorem split_stairs_overflows :
    (stairs 0 131072 2147483647).length < 2 ^ 31 ∧
      (stairs 0 131072 2147483647).getLast? = some 1 ∧
      4 * 1 * 131072 < (stairs 0 131072 2147483647).length ∧
      Nonnegative (tableOf (stairs 0 131072 2147483647) 1 131072) 1 131072 ∧
      tableStart (stairs 0 131072 2147483647) 1 131072 = 0 ∧
      chunkTotal (tableOf (stairs 0 131072 2147483647) 1 131072) 1 131072 = 18446884802607906816 ∧
      (∀ overflow, splitUnder overflow (stairs 0 131072 2147483647) #[] #[] 131072 ≠
        .error (.chunkOverflow 18446884802607906816 0)) ∧
      split (stairs 0 131072 2147483647) #[] #[] 131072 = .error .sumOverflow ∧
      splitUnder .wraps (stairs 0 131072 2147483647) #[] #[] 131072 =
        .error (.chunkOverflow 140728898355200 0) ∧
      splitUnder .wraps (stairs 136904 174243 1215168620) #[] #[] 174243 = .error .outOfMemory := by
  have length := Bundle.length_stairs 0 131072 2147483647
  have rising : 0 ≤ (2147483647 : Int32).toInt := by decide
  have value : 2 * 18446884802607906816 = 131072 * (131072 + 1) * (2147483647 : Int32).toInt.toNat := by
    decide
  have total : chunkTotal (tableOf (stairs 0 131072 2147483647) 1 131072) 1 131072 =
      18446884802607906816 := by
    have doubled := Bundle.two_mul_chunkTotal_stairs rising 131072
    rw [Bundle.tableOf_stairs]
    omega
  have outcome : ∀ overflow, splitUnder overflow (stairs 0 131072 2147483647) #[] #[] 131072 = _ :=
    splitUnder_stairs rising 0 131072 value (by decide) (by decide) (by decide) #[] #[]
  have steeper : 2 * 18446744073709688520 = 174243 * (174243 + 1) * (1215168620 : Int32).toInt.toNat := by
    decide
  have missed : splitUnder .wraps (stairs 136904 174243 1215168620) #[] #[] 174243 = .error .outOfMemory :=
    splitUnder_stairs (by decide) 136904 174243 steeper (by decide) (by decide) (by decide) #[] #[] .wraps
  refine ⟨by omega, Bundle.getLast?_stairs 0 131072 2147483647, by omega, ?_,
    Bundle.tableStart_stairs 0 131072 2147483647, total, fun overflow => ?_, outcome .stops, outcome .wraps,
    missed⟩
  · rw [Bundle.tableOf_stairs]
    exact Bundle.nonnegative_stairs rising
  · rw [outcome]
    cases overflow <;> decide

end Splitter
end SectorVault
