import Mathlib
import SectorVault.Group.Splitter
import SectorVault.Proofs.Group.Pieces

/-!
# The two passes in words

Counting in words comes to what counting in numbers of any size comes to, as long as no number leaves its word.
There are four that could: the running sums of a row and the sizes of the files (`InWords`), the sum of the
sizes, and the number of files, for which memory is asked.  If none of them does, a machine that stops and one
that wraps around both split as `Bundle.split` says (`contentsUnder_eq`).  If it is the sum of the sizes that
is no double word, the one stops, and the other judges the remainder (`contentsUnder_of_no_word`); and if the
remainder passes, there is no memory for the files.  So if the second pass is reached at all, it goes over
chunks that fit before the table, and none of them is cut out beyond the end of the bundle.

On a bundle that is shorter than `2 ^ 31` bytes, the running sums and the sizes are within bounds, whatever the
table says: there are fewer than `2 ^ 29` cells, so that none leaves `2 ^ 60` (`inWords_of_small`).

A walk over a table is followed by the states it goes through, one for each cell that is reached, in a row
and at an ordinal.  If every visit takes the state of its cell to that of the next one, the walk ends in the
state behind the last cell (`walkRows_eq_ok`), and if a visit fails after that, so does the walk
(`walkRows_eq_error`).  The states of the first pass are the sizes of the files so far (`sizesAt`), and those
of the second one the offset and the contents of the files so far (`copiedAt`).
-/

namespace SectorVault

/-! ## Additions -/

namespace Overflow

variable (overflow : Overflow)

theorem settle_of_fits {α : Type} {fits : Bool} (holds : fits = true) (word : α) :
    overflow.settle fits word = some word := by
  subst holds
  cases overflow <;> rfl

/-- A signed word is added to a signed double word. -/
theorem addSigned_ofInt {sum : Int} (word : Int32) (before : -2 ^ 63 ≤ sum ∧ sum < 2 ^ 63)
    (behind : -2 ^ 63 ≤ sum + word.toInt ∧ sum + word.toInt < 2 ^ 63) :
    overflow.addSigned (Int64.ofInt sum) word.toInt64 = some (Int64.ofInt (sum + word.toInt)) := by
  have value : (Int64.ofInt sum).toInt = sum :=
    Int64.toInt_ofInt_of_le (by omega) (by omega)
  have next : Int64.ofInt sum + word.toInt64 = Int64.ofInt (sum + word.toInt) := by
    rw [Int64.ofInt_add, ← Int64.ofInt_int32ToInt]
  have lower : Int64.minValue.toInt ≤ sum + word.toInt := behind.1
  have upper : sum + word.toInt ≤ Int64.maxValue.toInt := Int.le_of_lt_add_one behind.2
  rw [addSigned, value, Int32.toInt_toInt64, next]
  exact overflow.settle_of_fits (decide_eq_true ⟨lower, upper⟩) _

theorem add_ofNat {a b : Nat} (word : a + b < 2 ^ 64) :
    overflow.add (UInt64.ofNat a) (UInt64.ofNat b) = some (UInt64.ofNat (a + b)) := by
  have left : (UInt64.ofNat a).toNat = a :=
    UInt64.toNat_ofNat_of_lt' ((Nat.le_add_right a b).trans_lt word)
  have right : (UInt64.ofNat b).toNat = b :=
    UInt64.toNat_ofNat_of_lt' ((Nat.le_add_left b a).trans_lt word)
  rw [add, left, right, ← UInt64.ofNat_add]
  exact overflow.settle_of_fits (decide_eq_true word) _

theorem foldlM_add (before : UInt64) (words : List UInt64) :
    words.foldlM overflow.add before =
      overflow.settle (before.toNat + (words.map UInt64.toNat).sum < UInt64.size)
        (UInt64.ofNat (before.toNat + (words.map UInt64.toNat).sum)) := by
  induction words generalizing before with
  | nil =>
    have fits : before.toNat < UInt64.size := before.toNat_lt
    simp [settle_of_fits, fits]
  | cons word words ih =>
    have sum : before.toNat + ((word :: words).map UInt64.toNat).sum =
        before.toNat + word.toNat + (words.map UInt64.toNat).sum := by
      rw [List.map_cons, List.sum_cons, Nat.add_assoc]
    have step := UInt64.toNat_add before word
    rw [List.foldlM_cons, add, sum]
    by_cases fits : before.toNat + word.toNat < UInt64.size
    · rw [Nat.mod_eq_of_lt fits] at step
      rw [overflow.settle_of_fits (decide_eq_true fits), ← step]
      exact ih (before + word)
    · have beyond : ¬ before.toNat + word.toNat + (words.map UInt64.toNat).sum < UInt64.size := by omega
      rw [decide_eq_false fits, decide_eq_false beyond]
      cases overflow with
      | stops => rfl
      | wraps =>
        have rest := ih (before + word)
        refine rest.trans (congrArg some ?_)
        rw [← UInt64.toNat_inj, UInt64.toNat_ofNat', UInt64.toNat_ofNat', step, Nat.mod_add_mod]

/-- A chain of additions comes to the sum if the sum is a word, and otherwise to what an overflow comes
to. -/
theorem sum_eq (words : List UInt64) :
    overflow.sum words = overflow.settle ((words.map UInt64.toNat).sum < UInt64.size)
      (UInt64.ofNat (words.map UInt64.toNat).sum) := by
  have start := overflow.foldlM_add 0 words
  rwa [UInt64.toNat_zero, Nat.zero_add] at start

end Overflow

namespace Splitter

open SectorVault.Bundle (sumFrom sumFrom_zero sumFrom_succ runningSum runningSum_drop runningSum_zero
  length_behind length_rest chunkTotal chunkOffset chunkOffset_zero chunkOffset_succ chunkOffset_fileCount
  chunkOffset_mono chunkOffset_le columnTotal columnTotal_mono columnTotal_le sum_columnTotal columnPieces
  piece tableOf tableStart Nonnegative FirstNegative)

/-! ## Memory -/

theorem reserve_of_room {count : UInt64} {itemSize : Nat} (room : itemSize * count.toNat < 2 ^ 63) :
    reserve count itemSize = .ok () :=
  if_pos (Nat.le_of_lt_succ room)

theorem reserve_of_no_room {count : UInt64} {itemSize : Nat} (large : 2 ^ 63 ≤ itemSize * count.toNat) :
    reserve count itemSize = .error .capacityOverflow :=
  if_neg (Nat.not_le_of_lt large)

theorem toNat_ofNat_of_room {count : Nat} (room : 24 * count < 2 ^ 63) :
    (UInt64.ofNat count).toNat = count :=
  UInt64.toNat_ofNat_of_lt' ((by omega : count < 2 ^ 64))

/-! ## The size of the table -/

theorem product?_eq_some {a b product : UInt64} :
    product? a b = some product ↔ product.toNat = a.toNat * b.toNat := by
  have value := UInt64.toNat_mul a b
  have product_lt : product.toNat < UInt64.size := product.toNat_lt
  rw [product?]
  split
  next fits =>
    rw [Nat.mod_eq_of_lt fits] at value
    rw [Option.some_inj, ← UInt64.toNat_inj, value, eq_comm]
  next large =>
    constructor
    · rintro ⟨⟩
    · omega

theorem product?_eq_none {a b : UInt64} : product? a b = none ↔ UInt64.size ≤ a.toNat * b.toNat := by
  rw [product?]
  split <;> simp <;> omega

/-- The checks of both multiplications refuse nothing that would fit. -/
theorem tableSize?_eq (chunks : UInt8) (fileCount : UInt64) {length : Nat} (short : length ≤ UInt64.size) :
    tableSize? chunks fileCount length =
      if 4 * chunks.toNat * fileCount.toNat < length then some (4 * chunks.toNat * fileCount.toNat)
      else none := by
  have inOrder : 4 * chunks.toNat * fileCount.toNat = chunks.toUInt64.toNat * fileCount.toNat * 4 := by
    rw [UInt8.toNat_toUInt64]
    ring
  rw [tableSize?, inOrder]
  cases cellsEq : product? chunks.toUInt64 fileCount with
  | none =>
    have large := product?_eq_none.1 cellsEq
    rw [if_neg (by omega)]
    rfl
  | some cells =>
    rw [← product?_eq_some.1 cellsEq]
    cases sizeEq : product? cells 4 with
    | none =>
      have large : UInt64.size ≤ cells.toNat * 4 := product?_eq_none.1 sizeEq
      rw [if_neg (by omega)]
      simp [sizeEq]
    | some size =>
      have value : size.toNat = cells.toNat * 4 := product?_eq_some.1 sizeEq
      rw [← value]
      simp [sizeEq]

/-! ## Walking over a row -/

section Walk

variable {overflow : Overflow} {σ : Type} {visit : Nat → Int64 → σ → Except GroupError σ}

/-- A cell of the table, if there is one. -/
theorem walkRow_succ {table : Bytes} (long : 4 ≤ table.length) (count ordinal : Nat) {sum : Int}
    (before : -2 ^ 63 ≤ sum ∧ sum < 2 ^ 63)
    (word : -2 ^ 63 ≤ sumFrom table sum 0 ∧ sumFrom table sum 0 < 2 ^ 63) (state : σ) :
    walkRow overflow visit (count + 1) ordinal (Int64.ofInt sum) state table =
      (visit ordinal (Int64.ofInt (sumFrom table sum 0)) state).bind fun state =>
        walkRow overflow visit count (ordinal + 1) (Int64.ofInt (sumFrom table sum 0)) state
          (table.drop 4) := by
  match table, long with
  | b0 :: b1 :: b2 :: b3 :: rest, _ =>
    have cell : sumFrom (b0 :: b1 :: b2 :: b3 :: rest) sum 0 =
        sum + (signedOf [b0, b1, b2, b3]).toInt := sumFrom_zero _ sum
    rw [cell] at word ⊢
    rw [walkRow, overflow.addSigned_ofInt _ before word]
    rfl

variable {count : Nat} {sum : Int} {table : Bytes} {states : Nat → σ}

/-- A row whose visits all take the state at their ordinal to that at the next one. -/
theorem walkRow_eq_ok (ordinal : Nat) (long : 4 * count ≤ table.length)
    (before : -2 ^ 63 ≤ sum ∧ sum < 2 ^ 63)
    (words : ∀ i < count, -2 ^ 63 ≤ sumFrom table sum i ∧ sumFrom table sum i < 2 ^ 63)
    (steps : ∀ i < count, visit (ordinal + i) (Int64.ofInt (sumFrom table sum i)) (states (ordinal + i)) =
      .ok (states (ordinal + i + 1))) :
    walkRow overflow visit count ordinal (Int64.ofInt sum) (states ordinal) table =
      .ok (states (ordinal + count), table.drop (4 * count)) := by
  induction count generalizing ordinal sum table with
  | zero => simp [walkRow]
  | succ count ih =>
    have first := steps 0 (by omega)
    have word := words 0 (by omega)
    have rest := ih (ordinal + 1) (length_behind long) word
      (fun i inside => by
        rw [← sumFrom_succ]
        exact words (i + 1) (by omega))
      fun i inside => by
        have step := steps (i + 1) (by omega)
        rwa [sumFrom_succ, Nat.add_right_comm, ← Nat.add_assoc, Nat.add_right_comm ordinal] at step
    rw [Nat.add_zero] at first
    rw [walkRow_succ (by omega) _ _ before word, first]
    simp only [Except.bind, rest, List.drop_drop]
    congr 3 <;> ring

/-- A row with a visit that fails after visits that do not. -/
theorem walkRow_eq_error (ordinal : Nat) (long : 4 * count ≤ table.length) {i : Nat} (inside : i < count)
    (before : -2 ^ 63 ≤ sum ∧ sum < 2 ^ 63)
    (words : ∀ i < count, -2 ^ 63 ≤ sumFrom table sum i ∧ sumFrom table sum i < 2 ^ 63)
    {error : GroupError}
    (steps : ∀ j < i, visit (ordinal + j) (Int64.ofInt (sumFrom table sum j)) (states (ordinal + j)) =
      .ok (states (ordinal + j + 1)))
    (fails : visit (ordinal + i) (Int64.ofInt (sumFrom table sum i)) (states (ordinal + i)) =
      .error error) :
    walkRow overflow visit count ordinal (Int64.ofInt sum) (states ordinal) table = .error error := by
  induction count generalizing ordinal sum table i with
  | zero => omega
  | succ count ih =>
    have word := words 0 (by omega)
    rw [walkRow_succ (by omega) _ _ before word]
    cases i with
    | zero =>
      rw [Nat.add_zero] at fails
      rw [fails]
      rfl
    | succ i =>
      have first := steps 0 (by omega)
      rw [Nat.add_zero] at first
      rw [first]
      refine ih (ordinal + 1) (length_behind long) (Nat.lt_of_succ_lt_succ inside) word
        (fun i inside => ?_) (fun j before => ?_) ?_
      · rw [← sumFrom_succ]
        exact words (i + 1) (by omega)
      · have step := steps (j + 1) (by omega)
        rwa [sumFrom_succ, Nat.add_right_comm, ← Nat.add_assoc, Nat.add_right_comm ordinal] at step
      · rwa [sumFrom_succ, ← Nat.add_assoc, Nat.add_right_comm ordinal] at fails

/-! ## Walking over a table -/

variable {rows fileCount ordinal : Nat}

variable (table rows fileCount) in
/-- The running sums of the table are signed double words. -/
def SumsInWords : Prop :=
  ∀ row < rows, ∀ ordinal < fileCount,
    -2 ^ 63 ≤ runningSum table fileCount row ordinal ∧ runningSum table fileCount row ordinal < 2 ^ 63

theorem SumsInWords.rest (words : SumsInWords table (rows + 1) fileCount) :
    SumsInWords (table.drop (4 * fileCount)) rows fileCount := fun row above ordinal inside => by
  rw [runningSum_drop]
  exact words (row + 1) (by omega) ordinal inside

theorem walkRows_succ (state : σ) :
    walkRows overflow visit fileCount (rows + 1) state table =
      (walkRow overflow visit fileCount 0 (Int64.ofInt 0) state table).bind fun walked =>
        walkRows overflow visit fileCount rows walked.1 walked.2 := rfl

theorem firstRow_eq_ok (long : 4 * fileCount ≤ table.length)
    (words : SumsInWords table (rows + 1) fileCount) {states : Nat → σ}
    (steps : ∀ ordinal < fileCount,
      visit ordinal (Int64.ofInt (runningSum table fileCount 0 ordinal)) (states ordinal) =
        .ok (states (ordinal + 1))) :
    walkRow overflow visit fileCount 0 (Int64.ofInt 0) (states 0) table =
      .ok (states fileCount, table.drop (4 * fileCount)) := by
  have first := words 0 (by omega)
  simp only [runningSum_zero] at steps first
  rw [walkRow_eq_ok 0 long (by norm_num) first (by simpa only [Nat.zero_add] using steps), Nat.zero_add]

/-- A walk whose visits all take the state of their cell to that of the next one. -/
theorem walkRows_eq_ok (states : Nat → Nat → σ) (long : 4 * rows * fileCount ≤ table.length)
    (words : SumsInWords table rows fileCount)
    (turns : ∀ row, states row fileCount = states (row + 1) 0)
    (steps : ∀ row < rows, ∀ ordinal < fileCount,
      visit ordinal (Int64.ofInt (runningSum table fileCount row ordinal)) (states row ordinal) =
        .ok (states row (ordinal + 1))) :
    walkRows overflow visit fileCount rows (states 0 0) table = .ok (states rows 0) := by
  induction rows generalizing table states with
  | zero => rfl
  | succ rows ih =>
    obtain ⟨oneRow, others⟩ := length_rest long
    -- The states of the rows behind the first one are those of the rest of the table.
    have rest := ih (fun row => states (row + 1)) others words.rest (fun row => turns (row + 1))
      fun row above ordinal inside => by
        rw [runningSum_drop]
        exact steps (row + 1) (by omega) ordinal inside
    rw [walkRows_succ, firstRow_eq_ok oneRow words (steps 0 (by omega)), turns]
    exact rest

/-- A walk with a visit that fails after visits that do not. -/
theorem walkRows_eq_error (states : Nat → Nat → σ) (long : 4 * rows * fileCount ≤ table.length)
    (words : SumsInWords table rows fileCount)
    (turns : ∀ row, states row fileCount = states (row + 1) 0) {row ordinal : Nat} (row_lt : row < rows)
    (ordinal_lt : ordinal < fileCount) {error : GroupError}
    (above : ∀ earlier < row, ∀ ordinal < fileCount,
      visit ordinal (Int64.ofInt (runningSum table fileCount earlier ordinal)) (states earlier ordinal) =
        .ok (states earlier (ordinal + 1)))
    (left : ∀ earlier < ordinal,
      visit earlier (Int64.ofInt (runningSum table fileCount row earlier)) (states row earlier) =
        .ok (states row (earlier + 1)))
    (fails : visit ordinal (Int64.ofInt (runningSum table fileCount row ordinal)) (states row ordinal) =
      .error error) :
    walkRows overflow visit fileCount rows (states 0 0) table = .error error := by
  induction rows generalizing table states row with
  | zero => omega
  | succ rows ih =>
    obtain ⟨oneRow, others⟩ := length_rest long
    rw [walkRows_succ]
    cases row with
    | zero =>
      have first := words 0 (by omega)
      simp only [runningSum_zero] at left fails first
      have here : visit (0 + ordinal) (Int64.ofInt (sumFrom table 0 ordinal)) (states 0 (0 + ordinal)) =
          .error error := by rwa [Nat.zero_add]
      rw [walkRow_eq_error 0 oneRow ordinal_lt (by norm_num) first
        (by simpa only [Nat.zero_add] using left) here]
      rfl
    | succ row =>
      rw [firstRow_eq_ok oneRow words (above 0 (by omega)), turns]
      refine ih (fun row => states (row + 1)) others words.rest (fun row => turns (row + 1))
        (Nat.lt_of_succ_lt_succ row_lt) ?_ ?_ ?_
      · intro earlier before ordinal inside
        rw [runningSum_drop]
        exact above (earlier + 1) (by omega) ordinal inside
      · intro earlier before
        rw [runningSum_drop]
        exact left earlier before
      · rwa [runningSum_drop]

end Walk

/-! ## What the files have got so far -/

section Files

variable {α : Type} {fileCount row ordinal : Nat}

/-- What each file has got from the chunks before a cell, if `part count file` is what a file gets from its
first `count` chunks. -/
def filesAt (part : Nat → Nat → α) (fileCount row ordinal : Nat) : Array α :=
  ((List.range fileCount).map fun file => part (if file < ordinal then row + 1 else row) file).toArray

variable {part : Nat → Nat → α}

theorem filesAt_start {none : α} (empty : ∀ file, part 0 file = none) :
    filesAt part fileCount 0 0 = Array.replicate fileCount none := by
  simp [filesAt, empty]

/-- What the file of a cell has got before it. -/
theorem getD_filesAt (inside : ordinal < fileCount) (default : α) :
    (filesAt part fileCount row ordinal).getD ordinal default = part row ordinal := by
  simp [filesAt, inside, Array.getD_eq_getD_getElem?]

/-- The chunk of a cell is one more for its file, and nothing for the others. -/
theorem filesAt_succ {add : α → α} (step : add (part row ordinal) = part (row + 1) ordinal) :
    (filesAt part fileCount row ordinal).modify ordinal add = filesAt part fileCount row (ordinal + 1) := by
  apply Array.ext
  · simp [filesAt]
  · intro file _ _
    rw [Array.getElem_modify]
    by_cases here : ordinal = file
    · subst here
      simp [filesAt, step]
    · have same : file ≤ ordinal ↔ file < ordinal := by omega
      simp [filesAt, here, same]

/-- Behind the last cell of a row, every file has got one more chunk. -/
theorem filesAt_turn : filesAt part fileCount row fileCount = filesAt part fileCount (row + 1) 0 := by
  rw [filesAt, filesAt, List.map_congr_left fun file inside => ?_]
  simp [List.mem_range.1 inside]

theorem toList_filesAt : (filesAt part fileCount row 0).toList = (List.range fileCount).map (part row) := by
  simp [filesAt]

end Files

/-! ## The first pass -/

section Sizes

variable {overflow : Overflow} {table : Bytes} {rows fileCount row ordinal : Nat}

variable (table rows fileCount) in
/-- The running sums of the table and the sizes of the files are double words. -/
structure InWords : Prop where
  sums : SumsInWords table rows fileCount
  sizes : ∀ ordinal < fileCount, columnTotal table fileCount rows ordinal < 2 ^ 64

/-- Words are long enough for a table with fewer than `2 ^ 29` cells. -/
theorem inWords_of_small (table : Bytes) (small : 4 * rows * fileCount < 2 ^ 31) :
    InWords table rows fileCount where
  sums row above ordinal inside := by
    have bounded := abs_le.1 (Bundle.abs_runningSum_le_of_small table small above inside)
    omega
  sizes ordinal inside := by
    have bounded := columnTotal_le table small le_rfl inside
    omega

/-- The sizes of the files before a cell. -/
def sizesAt (table : Bytes) (fileCount row ordinal : Nat) : Array UInt64 :=
  filesAt (fun count file => UInt64.ofNat (columnTotal table fileCount count file)) fileCount row ordinal

theorem toUInt64_ofInt_of_nonneg {length : Int} (nonneg : 0 ≤ length) :
    (Int64.ofInt length).toUInt64 = UInt64.ofNat length.toNat := by
  obtain ⟨n, rfl⟩ := Int.eq_ofNat_of_zero_le nonneg
  exact Int64.toUInt64_ofNat'

/-- A length that is a signed double word is refused if it is negative, and otherwise added. -/
theorem addSize_ofInt {length : Int} (word : -2 ^ 63 ≤ length ∧ length < 2 ^ 63)
    (sizes : Array UInt64) :
    addSize overflow ordinal (Int64.ofInt length) sizes =
      if length < 0 then .error (.negativeChunk ordinal length)
      else (sumOrEnd (overflow.add (sizes.getD ordinal 0) (UInt64.ofNat length.toNat))).map
        fun size => sizes.modify ordinal fun _ => size := by
  have value : (Int64.ofInt length).toInt = length :=
    Int64.toInt_ofInt_of_le (by omega) (by omega)
  have sign : Int64.ofInt length < 0 ↔ length < 0 := by
    rw [Int64.lt_iff_toInt_lt, value]
    rfl
  rw [addSize, value]
  split
  next negative => rw [if_pos (sign.1 negative)]
  next nonneg =>
    rw [if_neg (mt sign.2 nonneg), toUInt64_ofInt_of_nonneg (not_lt.1 (mt sign.2 nonneg))]
    cases sumOrEnd (overflow.add (sizes.getD ordinal 0) (UInt64.ofNat length.toNat)) <;> rfl

theorem addSize_step (words : InWords table rows fileCount) (above : row < rows)
    (inside : ordinal < fileCount) (nonneg : 0 ≤ runningSum table fileCount row ordinal) :
    addSize overflow ordinal (Int64.ofInt (runningSum table fileCount row ordinal))
        (sizesAt table fileCount row ordinal) =
      .ok (sizesAt table fileCount row (ordinal + 1)) := by
  have more : columnTotal table fileCount (row + 1) ordinal =
      columnTotal table fileCount row ordinal + (runningSum table fileCount row ordinal).toNat :=
    Finset.sum_range_succ _ _
  have size : columnTotal table fileCount (row + 1) ordinal < 2 ^ 64 :=
    (columnTotal_mono table fileCount ordinal above).trans_lt (words.sizes ordinal inside)
  rw [addSize_ofInt (words.sums row above ordinal inside), if_neg (not_lt.2 nonneg), sizesAt,
    getD_filesAt inside, overflow.add_ofNat (more ▸ size), ← more]
  exact congrArg Except.ok (filesAt_succ rfl)

theorem sizesAt_start (table : Bytes) (fileCount : Nat) :
    sizesAt table fileCount 0 0 = Array.replicate fileCount 0 :=
  filesAt_start fun file => by simp [columnTotal]

/-- The first pass comes to the sizes of the files, if no sum is negative. -/
theorem walkRows_addSize_of_nonnegative (long : 4 * rows * fileCount ≤ table.length)
    (words : InWords table rows fileCount) (nonneg : Nonnegative table rows fileCount) :
    walkRows overflow (addSize overflow) fileCount rows (Array.replicate fileCount 0) table =
      .ok (sizesAt table fileCount rows 0) := by
  rw [← sizesAt_start table]
  exact walkRows_eq_ok (sizesAt table fileCount) long words.sums (fun _ => filesAt_turn)
    fun row above ordinal inside => addSize_step words above inside (nonneg row above ordinal inside)

/-- Otherwise it comes to the first sum that is. -/
theorem walkRows_addSize_of_firstNegative (long : 4 * rows * fileCount ≤ table.length)
    (words : InWords table rows fileCount) (first : FirstNegative table rows fileCount row ordinal) :
    walkRows overflow (addSize overflow) fileCount rows (Array.replicate fileCount 0) table =
      .error (.negativeChunk ordinal (runningSum table fileCount row ordinal)) := by
  rw [← sizesAt_start table]
  refine walkRows_eq_error (sizesAt table fileCount) long words.sums (fun _ => filesAt_turn) first.row_lt
    first.ordinal_lt ?_ ?_ ?_
  · intro earlier before ordinal inside
    exact addSize_step words (before.trans first.row_lt) inside (first.above earlier before ordinal inside)
  · intro earlier before
    exact addSize_step words first.row_lt (before.trans first.ordinal_lt) (first.left earlier before)
  · rw [addSize_ofInt (words.sums row first.row_lt ordinal first.ordinal_lt), if_pos first.negative]

/-- The sizes of the files are exact. -/
theorem map_toNat_sizesAt (words : InWords table rows fileCount) :
    (sizesAt table fileCount rows 0).toList.map UInt64.toNat =
      (List.range fileCount).map (columnTotal table fileCount rows) := by
  rw [sizesAt, toList_filesAt, List.map_map]
  exact List.map_congr_left fun file inside =>
    UInt64.toNat_ofNat_of_lt' (words.sizes file (List.mem_range.1 inside))

theorem sum_sizesAt (words : InWords table rows fileCount) :
    ((sizesAt table fileCount rows 0).toList.map UInt64.toNat).sum = chunkTotal table rows fileCount := by
  rw [map_toNat_sizesAt words, ← sum_columnTotal]
  rfl

theorem reserved_sizesAt (words : InWords table rows fileCount) :
    reserved (sizesAt table fileCount rows 0) = chunkTotal table rows fileCount := by
  rw [reserved, ← List.sum_eq_foldr, sum_sizesAt words]

end Sizes

/-! ## The second pass -/

section Copies

variable {overflow : Overflow} {bundle table : Bytes} {rows fileCount row ordinal : Nat}

/-- How far copying has come before a cell. -/
def copiedAt (bundle table : Bytes) (fileCount row ordinal : Nat) : Copied where
  offset := UInt64.ofNat (chunkOffset table fileCount row ordinal)
  files := filesAt (columnPieces bundle table fileCount) fileCount row ordinal

theorem copiedAt_start (bundle table : Bytes) (fileCount : Nat) :
    copiedAt bundle table fileCount 0 0 = ⟨0, Array.replicate fileCount []⟩ := by
  rw [copiedAt, filesAt_start fun _ => rfl, chunkOffset_zero]
  rfl

theorem copiedAt_turn (row : Nat) :
    copiedAt bundle table fileCount row fileCount = copiedAt bundle table fileCount (row + 1) 0 := by
  rw [copiedAt, copiedAt, filesAt_turn, chunkOffset_fileCount, chunkOffset_zero]

/-- A chunk that is within the bundle is copied. -/
theorem copyChunk_step (word : bundle.length < 2 ^ 64)
    (nonneg : 0 ≤ runningSum table fileCount row ordinal)
    (within : chunkOffset table fileCount row (ordinal + 1) ≤ bundle.length) :
    copyChunk overflow bundle.toArray ordinal (Int64.ofInt (runningSum table fileCount row ordinal))
        (copiedAt bundle table fileCount row ordinal) =
      .ok (copiedAt bundle table fileCount row (ordinal + 1)) := by
  have ordered : chunkOffset table fileCount row ordinal ≤ chunkOffset table fileCount row (ordinal + 1) :=
    chunkOffset_mono table fileCount row (Nat.le_succ ordinal)
  have small : chunkOffset table fileCount row (ordinal + 1) < 2 ^ 64 := within.trans_lt word
  have start : (UInt64.ofNat (chunkOffset table fileCount row ordinal)).toNat =
      chunkOffset table fileCount row ordinal :=
    UInt64.toNat_ofNat_of_lt' (ordered.trans_lt small)
  have stop : (UInt64.ofNat (chunkOffset table fileCount row (ordinal + 1))).toNat =
      chunkOffset table fileCount row (ordinal + 1) :=
    UInt64.toNat_ofNat_of_lt' small
  have chunk : slice bundle.toArray (chunkOffset table fileCount row ordinal)
      (chunkOffset table fileCount row (ordinal + 1)) = piece bundle table fileCount row ordinal := by
    rw [slice_toArray, piece, chunkOffset_succ, Nat.add_sub_cancel_left]
  have further : chunkOffset table fileCount row ordinal + (runningSum table fileCount row ordinal).toNat =
      chunkOffset table fileCount row (ordinal + 1) :=
    (chunkOffset_succ table fileCount row ordinal).symm
  have next : overflow.add (UInt64.ofNat (chunkOffset table fileCount row ordinal))
        (Int64.ofInt (runningSum table fileCount row ordinal)).toUInt64 =
      some (UInt64.ofNat (chunkOffset table fileCount row (ordinal + 1))) := by
    rw [toUInt64_ofInt_of_nonneg nonneg, overflow.add_ofNat (further ▸ small), further]
  have files : (filesAt (columnPieces bundle table fileCount) fileCount row ordinal).modify ordinal
        (· ++ piece bundle table fileCount row ordinal) =
      filesAt (columnPieces bundle table fileCount) fileCount row (ordinal + 1) :=
    filesAt_succ (by simp [columnPieces, List.range_succ])
  simp only [copyChunk, copiedAt, next, sumOrEnd, bind, Except.bind, UInt64.le_iff_toNat_le, start, stop,
    ordered, true_and, List.size_toArray, within, if_true, chunk, files]

/-- The second pass comes to the columns of the pieces, if all chunks are within the bundle. -/
theorem walkRows_copyChunk_of_within (long : 4 * rows * fileCount ≤ table.length)
    (words : SumsInWords table rows fileCount) (word : bundle.length < 2 ^ 64)
    (nonneg : Nonnegative table rows fileCount)
    (within : chunkTotal table rows fileCount ≤ bundle.length) :
    walkRows overflow (copyChunk overflow bundle.toArray) fileCount rows
        ⟨0, Array.replicate fileCount []⟩ table =
      .ok (copiedAt bundle table fileCount rows 0) := by
  rw [← copiedAt_start bundle table]
  exact walkRows_eq_ok (copiedAt bundle table fileCount) long words copiedAt_turn
    fun row above ordinal inside => copyChunk_step word (nonneg row above ordinal inside)
      ((chunkOffset_le table fileCount above inside).trans within)

end Copies

/-! ## The contents of a bundle -/

section Contents

variable (overflow : Overflow) {bundle : Bytes} {chunks : UInt8} {fileCount : UInt64}

theorem contentsUnder_of_tooLarge (word : bundle.length < 2 ^ 64)
    (large : bundle.length ≤ 4 * chunks.toNat * fileCount.toNat) :
    contentsUnder overflow bundle chunks fileCount =
      .error (.trailerTooLarge chunks fileCount.toNat bundle.length) := by
  rw [contentsUnder, tableSize?_eq chunks fileCount word.le, if_neg (not_lt.2 large)]

section Fits

variable (word : bundle.length < 2 ^ 64) (fits : 4 * chunks.toNat * fileCount.toNat < bundle.length)
  (words : InWords (tableOf bundle chunks fileCount.toNat) chunks.toNat fileCount.toNat)

include word fits

/-- If the table fits, splitting comes to the two passes over it and what is asked for between them. -/
theorem contentsUnder_of_fits :
    let table := tableOf bundle chunks fileCount.toNat
    let available := tableStart bundle chunks fileCount.toNat
    contentsUnder overflow bundle chunks fileCount =
      (reserve fileCount 8).bind fun _ =>
        (walkRows overflow (addSize overflow) fileCount.toNat chunks.toNat
          (Array.replicate fileCount.toNat 0) table).bind fun sizes =>
          (sumOrEnd (overflow.sum sizes.toList)).bind fun needed =>
            if available < needed.toNat then .error (.chunkOverflow needed.toNat available)
            else (reserve fileCount 24).bind fun _ =>
              if UInt64.size ≤ reserved sizes then .error .outOfMemory
              else (walkRows overflow (copyChunk overflow bundle.toArray) fileCount.toNat chunks.toNat
                ⟨0, Array.replicate fileCount.toNat []⟩ table).bind fun copied =>
                  .ok copied.files.toList := by
  intro table available
  rw [contentsUnder, tableSize?_eq chunks fileCount word.le, if_pos fits]
  rfl

include words

/-- A negative sum is refused. -/
theorem contentsUnder_of_firstNegative {row ordinal : Nat} (room : 8 * fileCount.toNat < 2 ^ 63)
    (first : FirstNegative (tableOf bundle chunks fileCount.toNat) chunks.toNat fileCount.toNat row
      ordinal) :
    contentsUnder overflow bundle chunks fileCount =
      .error (.negativeChunk ordinal
        (runningSum (tableOf bundle chunks fileCount.toNat) fileCount.toNat row ordinal)) := by
  have long := (Bundle.length_tableOf fits).ge
  rw [contentsUnder_of_fits overflow word fits, reserve_of_room room,
    walkRows_addSize_of_firstNegative long words first]
  rfl

variable (nonneg : Nonnegative (tableOf bundle chunks fileCount.toNat) chunks.toNat fileCount.toNat)

include nonneg

/-- If no sum is negative, what happens next depends on the sum of the sizes. -/
theorem contentsUnder_of_nonnegative (room : 8 * fileCount.toNat < 2 ^ 63) :
    let table := tableOf bundle chunks fileCount.toNat
    let available := tableStart bundle chunks fileCount.toNat
    let total := chunkTotal table chunks.toNat fileCount.toNat
    contentsUnder overflow bundle chunks fileCount =
      (sumOrEnd (overflow.settle (total < 2 ^ 64) (UInt64.ofNat total))).bind fun needed =>
        if available < needed.toNat then .error (.chunkOverflow needed.toNat available)
        else (reserve fileCount 24).bind fun _ =>
          if 2 ^ 64 ≤ total then .error .outOfMemory
          else (walkRows overflow (copyChunk overflow bundle.toArray) fileCount.toNat chunks.toNat
            ⟨0, Array.replicate fileCount.toNat []⟩ table).bind fun copied =>
              .ok copied.files.toList := by
  have long := (Bundle.length_tableOf fits).ge
  rw [contentsUnder_of_fits overflow word fits, reserve_of_room room,
    walkRows_addSize_of_nonnegative long words nonneg]
  simp only [Except.bind, overflow.sum_eq, sum_sizesAt words, reserved_sizesAt words]
  rfl

/-- A sum that is a double word is judged as it is, and the second pass cuts what the lengths say. -/
theorem contentsUnder_of_word (room : 24 * fileCount.toNat < 2 ^ 63)
    (small : chunkTotal (tableOf bundle chunks fileCount.toNat) chunks.toNat fileCount.toNat < 2 ^ 64) :
    contentsUnder overflow bundle chunks fileCount = Bundle.contents bundle chunks fileCount.toNat := by
  have long := (Bundle.length_tableOf fits).ge
  rw [contentsUnder_of_nonnegative overflow word fits words nonneg (by omega),
    Bundle.contents_of_nonnegative fits nonneg, overflow.settle_of_fits (decide_eq_true small),
    reserve_of_room room]
  set total := chunkTotal (tableOf bundle chunks fileCount.toNat) chunks.toNat fileCount.toNat
  have needed : (UInt64.ofNat total).toNat = total := UInt64.toNat_ofNat_of_lt' small
  simp only [sumOrEnd, Except.bind, needed]
  by_cases exceeds : tableStart bundle chunks fileCount.toNat < total
  · rw [if_pos exceeds, if_pos exceeds]
  · have within : total ≤ bundle.length :=
      (not_lt.1 exceeds).trans (Bundle.tableStart_le bundle chunks fileCount.toNat)
    rw [if_neg exceeds, if_neg exceeds, if_neg (not_le.2 small),
      walkRows_copyChunk_of_within long words.sums word nonneg within, Bundle.gather_lengthsOf within,
      ← toList_filesAt]
    rfl

/-- Of a sum that is none, a machine that stops says nothing, and one that wraps around judges the
remainder. -/
theorem contentsUnder_of_no_word (room : 24 * fileCount.toNat < 2 ^ 63)
    (large : 2 ^ 64 ≤ chunkTotal (tableOf bundle chunks fileCount.toNat) chunks.toNat fileCount.toNat) :
    let total := chunkTotal (tableOf bundle chunks fileCount.toNat) chunks.toNat fileCount.toNat
    let available := tableStart bundle chunks fileCount.toNat
    contentsUnder overflow bundle chunks fileCount =
      match overflow with
      | .stops => .error .sumOverflow
      | .wraps =>
        if available < total % 2 ^ 64 then .error (.chunkOverflow (total % 2 ^ 64) available)
        else .error .outOfMemory := by
  intro total available
  have beyond : ¬ total < 2 ^ 64 := not_lt.2 large
  have remainder : (UInt64.ofNat total).toNat = total % 2 ^ 64 := UInt64.toNat_ofNat'
  rw [contentsUnder_of_nonnegative overflow word fits words nonneg (by omega), decide_eq_false beyond]
  cases overflow with
  | stops => rfl
  | wraps =>
    simp only [Overflow.settle, sumOrEnd, Except.bind, reserve_of_room room]
    rw [if_pos large, remainder]

omit words nonneg in
/-- If there are so many files that nothing can stand for them, there are no rows, and the run ends. -/
theorem contentsUnder_of_no_room (short : bundle.length < 2 ^ 31)
    (large : 2 ^ 63 ≤ 24 * fileCount.toNat) :
    contentsUnder overflow bundle chunks fileCount = .error .capacityOverflow := by
  have none : chunks.toNat = 0 := by
    by_contra some
    have row : 4 * 1 * fileCount.toNat ≤ 4 * chunks.toNat * fileCount.toNat :=
      Nat.mul_le_mul_right _ (by omega)
    omega
  by_cases room : 8 * fileCount.toNat < 2 ^ 63
  · have words := inWords_of_small (tableOf bundle chunks fileCount.toNat) (fits.trans short)
    have nonneg : Nonnegative (tableOf bundle chunks fileCount.toNat) chunks.toNat fileCount.toNat :=
      fun row above => absurd above (by omega)
    have total : chunkTotal (tableOf bundle chunks fileCount.toNat) chunks.toNat fileCount.toNat = 0 := by
      rw [none]
      rfl
    rw [contentsUnder_of_nonnegative overflow word fits words nonneg room, total, reserve_of_no_room large]
    cases overflow <;> rfl
  · rw [contentsUnder_of_fits overflow word fits, reserve_of_no_room (not_lt.1 room)]
    rfl

end Fits

end Contents

/-! ## Splitting -/

section Split

variable (overflow : Overflow) {bundle : Bytes} {chunks : UInt8} {fileCount : UInt64}

theorem splitUnder_of_several (last : bundle.getLast? = some chunks) (several : 2 ≤ fileCount.toNat)
    (ids : Array UInt32) (nameHashes : Array Int32) :
    splitUnder overflow bundle ids nameHashes fileCount =
      (contentsUnder overflow bundle chunks fileCount).map fun files =>
        files.zipIdx.map fun (data, ordinal) => Bundle.label ids nameHashes ordinal data := by
  have notLone : ¬ fileCount ≤ 1 := by
    rw [UInt64.le_iff_toNat_le]
    exact Nat.not_le.2 several
  rw [splitUnder, last]
  simp only
  rw [if_neg notLone]
  cases contentsUnder overflow bundle chunks fileCount <;> rfl

/-- A bundle of one file is the file. -/
theorem splitUnder_of_lone (lone : bundle = [] ∨ fileCount.toNat ≤ 1) (ids : Array UInt32)
    (nameHashes : Array Int32) :
    splitUnder overflow bundle ids nameHashes fileCount =
      .ok [Bundle.label ids nameHashes 0 bundle] := by
  rw [splitUnder]
  rcases lone with rfl | lone
  · rfl
  · cases bundle.getLast? with
    | none => rfl
    | some chunks => exact if_pos (UInt64.le_iff_toNat_le.2 lone)

end Split

end Splitter
end SectorVault
