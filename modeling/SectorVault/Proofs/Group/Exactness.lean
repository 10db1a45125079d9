import Mathlib
import SectorVault.Proofs.Group.Passes

/-!
# What is accepted and what is refused

A bundle is cut apart by nothing but its last bytes, which may be anything, and by a number that comes from
outside.  Here is what can be said of the outcome for all of them, as long as the bundle is shorter than
`2 ^ 31` bytes.

If there are files, the bytes before the table are cut into them without a loss: a matrix of pieces, one after
another row by row, that have the lengths the table says, and the files are its columns
(`split_cuts_front`).  What is left between the pieces and the table belongs to no file, and neither does the
table.

If a bundle is refused for its table, it is for one of two reasons, and always for these: the table is not
shorter than the bundle, where the size of the table is a product that no word has to hold, or one of its sums
is negative, and then the first one is named (`split_refuses_table`).  There are as many cells as are
read, so that no table ends too early.
-/

namespace SectorVault

namespace Bundle

variable {bundle : Bytes} {chunks : UInt8} {fileCount : Nat}

/-! ## The contents of several files -/

/-- If there are contents, no sum is negative, the chunks fit before the table, and the contents are the
columns of the pieces. -/
theorem contents_eq_ok {files : List Bytes}
    (accepted : contents bundle chunks fileCount = .ok files) :
    let table := tableOf bundle chunks fileCount
    4 * chunks.toNat * fileCount < bundle.length ∧
      Nonnegative table chunks.toNat fileCount ∧
      chunkTotal table chunks.toNat fileCount ≤ tableStart bundle chunks fileCount ∧
      files = (List.range fileCount).map (columnPieces bundle table fileCount chunks.toNat) := by
  intro table
  by_cases fits : 4 * chunks.toNat * fileCount < bundle.length
  · rcases nonnegative_or_firstNegative table chunks.toNat fileCount with nonneg | ⟨row, ordinal, first⟩
    · rw [contents_of_nonnegative fits nonneg] at accepted
      simp only at accepted
      split_ifs at accepted with overflows
      have before : chunkTotal table chunks.toNat fileCount ≤ tableStart bundle chunks fileCount :=
        not_lt.1 overflows
      refine ⟨fits, nonneg, before, ?_⟩
      rw [← gather_lengthsOf (before.trans (tableStart_le bundle chunks fileCount))]
      exact (Except.ok.inj accepted).symm
    · rw [contents_of_firstNegative fits first] at accepted
      cases accepted
  · rw [contents_of_tooLarge (not_lt.1 fits)] at accepted
    cases accepted

/-- If there are none, it is for one of three reasons. -/
theorem contents_eq_error {error : GroupError} (refused : contents bundle chunks fileCount = .error error) :
    let table := tableOf bundle chunks fileCount
    let available := tableStart bundle chunks fileCount
    (bundle.length ≤ 4 * chunks.toNat * fileCount ∧
        error = .trailerTooLarge chunks fileCount bundle.length) ∨
      4 * chunks.toNat * fileCount < bundle.length ∧
        ((∃ row ordinal, FirstNegative table chunks.toNat fileCount row ordinal ∧
            error = .negativeChunk ordinal (runningSum table fileCount row ordinal)) ∨
          error = .chunkOverflow (chunkTotal table chunks.toNat fileCount) available) := by
  intro table available
  by_cases fits : 4 * chunks.toNat * fileCount < bundle.length
  · refine .inr ⟨fits, ?_⟩
    rcases nonnegative_or_firstNegative table chunks.toNat fileCount with nonneg | ⟨row, ordinal, first⟩
    · rw [contents_of_nonnegative fits nonneg] at refused
      simp only at refused
      split_ifs at refused
      exact .inr (Except.error.inj refused).symm
    · rw [contents_of_firstNegative fits first] at refused
      exact .inl ⟨row, ordinal, first, (Except.error.inj refused).symm⟩
  · rw [contents_of_tooLarge (not_lt.1 fits)] at refused
    exact .inl ⟨not_lt.1 fits, (Except.error.inj refused).symm⟩

theorem contents_eq_tooLarge_iff :
    contents bundle chunks fileCount = .error (.trailerTooLarge chunks fileCount bundle.length) ↔
      bundle.length ≤ 4 * chunks.toNat * fileCount := by
  refine ⟨fun refused => ?_, contents_of_tooLarge⟩
  obtain ⟨large, -⟩ | ⟨-, ⟨_, _, -, other⟩ | other⟩ := contents_eq_error refused
  · exact large
  all_goals cases other

theorem contents_eq_negative_iff (fits : 4 * chunks.toNat * fileCount < bundle.length) {ordinal : Nat}
    {length : Int} :
    contents bundle chunks fileCount = .error (.negativeChunk ordinal length) ↔
      ∃ row, FirstNegative (tableOf bundle chunks fileCount) chunks.toNat fileCount row ordinal ∧
        length = runningSum (tableOf bundle chunks fileCount) fileCount row ordinal := by
  constructor
  · intro refused
    obtain ⟨-, other⟩ | ⟨-, ⟨row, _, first, same⟩ | other⟩ := contents_eq_error refused
    · cases other
    · cases same
      exact ⟨row, first, rfl⟩
    · cases other
  · rintro ⟨row, first, rfl⟩
    exact contents_of_firstNegative fits first

theorem contents_ne_unexpectedEnd : contents bundle chunks fileCount ≠ .error .unexpectedEnd := by
  intro early
  obtain ⟨-, other⟩ | ⟨-, ⟨_, _, -, other⟩ | other⟩ := contents_eq_error early
  all_goals cases other

/-! ## Files as columns -/

theorem label_map_range (ids : Array UInt32) (nameHashes : Array Int32) (data : Nat → Bytes) (count : Nat) :
    (((List.range count).map data).zipIdx.map fun (data, ordinal) => label ids nameHashes ordinal data) =
      (List.range count).map fun ordinal => label ids nameHashes ordinal (data ordinal) := by
  apply List.ext_getElem
  · simp
  · intro ordinal _ _
    simp

/-- The columns hold the same bytes as the rows. -/
theorem columnPieces_perm (bundle table : Bytes) (rows fileCount : Nat) :
    ((List.range fileCount).flatMap (columnPieces bundle table fileCount rows)).Perm
      (bundle.take (chunkTotal table rows fileCount)) := by
  have rowwise : bundle.take (chunkTotal table rows fileCount) =
      (List.range rows).flatMap fun row =>
        (List.range fileCount).flatMap (piece bundle table fileCount row) := by
    rw [← flatten_pieces, pieces]
    simp only [List.flatMap_def, List.flatten_flatten, List.map_map, Function.comp_def]
  rw [rowwise, ← Multiset.coe_eq_coe]
  simp only [columnPieces, ← Multiset.coe_bind]
  exact Multiset.bind_bind _ _

end Bundle

namespace Splitter

open SectorVault.Bundle (label column pieces columnPieces tableOf tableStart runningSum chunkTotal
  Nonnegative FirstNegative)

/-! ## What a machine makes of it -/

section Short

variable (overflow : Overflow) {bundle : Bytes} (chunks : UInt8) (fileCount : UInt64)

/-- A machine splits a short bundle as it is meant to be split, or ends the run on one whose table is
without fault. -/
theorem contentsUnder_of_short (short : bundle.length < 2 ^ 31) :
    contentsUnder overflow bundle chunks fileCount = Bundle.contents bundle chunks fileCount.toNat ∨
      4 * chunks.toNat * fileCount.toNat < bundle.length ∧
        Nonnegative (tableOf bundle chunks fileCount.toNat) chunks.toNat fileCount.toNat ∧
        ∃ error, contentsUnder overflow bundle chunks fileCount = .error error ∧
          (error.endsRun = true ∨ ∃ needed available, error = .chunkOverflow needed available) := by
  have word : bundle.length < 2 ^ 64 := short.trans (by norm_num)
  by_cases fits : 4 * chunks.toNat * fileCount.toNat < bundle.length
  swap
  · left
    rw [contentsUnder_of_tooLarge overflow word (not_lt.1 fits), Bundle.contents_of_tooLarge (not_lt.1 fits)]
  have words := inWords_of_small (tableOf bundle chunks fileCount.toNat) (fits.trans short)
  rcases Bundle.nonnegative_or_firstNegative (tableOf bundle chunks fileCount.toNat) chunks.toNat
    fileCount.toNat with nonneg | ⟨row, ordinal, first⟩
  swap
  · left
    have rows := first.row_lt
    have room : 8 * fileCount.toNat < 2 ^ 63 := by
      have row : 4 * 1 * fileCount.toNat ≤ 4 * chunks.toNat * fileCount.toNat :=
        Nat.mul_le_mul_right _ (by omega)
      omega
    rw [contentsUnder_of_firstNegative overflow word fits words room first,
      Bundle.contents_of_firstNegative fits first]
  by_cases room : 24 * fileCount.toNat < 2 ^ 63
  swap
  · exact .inr ⟨fits, nonneg, _, contentsUnder_of_no_room overflow word fits short (not_lt.1 room), .inl rfl⟩
  by_cases small : chunkTotal (tableOf bundle chunks fileCount.toNat) chunks.toNat fileCount.toNat < 2 ^ 64
  · exact .inl (contentsUnder_of_word overflow word fits words nonneg room small)
  refine .inr ⟨fits, nonneg, ?_⟩
  rw [contentsUnder_of_no_word overflow word fits words nonneg room (not_lt.1 small)]
  cases overflow with
  | stops => exact ⟨_, rfl, .inl rfl⟩
  | wraps =>
    simp only
    split
    · exact ⟨_, rfl, .inr ⟨_, _, rfl⟩⟩
    · exact ⟨_, rfl, .inl rfl⟩

variable {overflow chunks fileCount} in
/-- What a machine accepts is meant to be accepted. -/
theorem contents_of_contentsUnder (short : bundle.length < 2 ^ 31) {files : List Bytes}
    (accepted : contentsUnder overflow bundle chunks fileCount = .ok files) :
    Bundle.contents bundle chunks fileCount.toNat = .ok files := by
  obtain same | ⟨-, -, _, refused, -⟩ := contentsUnder_of_short overflow chunks fileCount short
  · rw [← same, accepted]
  · rw [refused] at accepted
    cases accepted

/-- What a machine refuses for the fault of a table is meant to be refused for it, and nothing else is. -/
theorem contentsUnder_eq_error_iff (short : bundle.length < 2 ^ 31) {error : GroupError}
    (answered : error.endsRun = false)
    (other : ∀ needed available, error ≠ .chunkOverflow needed available) :
    contentsUnder overflow bundle chunks fileCount = .error error ↔
      Bundle.contents bundle chunks fileCount.toNat = .error error := by
  obtain same | ⟨fits, nonneg, failure, refused, ends⟩ :=
    contentsUnder_of_short overflow chunks fileCount short
  · rw [same]
  refine iff_of_false (fun blamed => ?_) fun blamed => ?_
  · rw [refused] at blamed
    cases blamed
    obtain ends | ⟨needed, available, rfl⟩ := ends
    · rw [answered] at ends
      cases ends
    · exact other _ _ rfl
  · rw [Bundle.contents_of_nonnegative fits nonneg] at blamed
    simp only at blamed
    split_ifs at blamed
    exact other _ _ (Except.error.inj blamed).symm

end Short

variable (bundle : Bytes) (ids : Array UInt32) (nameHashes : Array Int32) (fileCount : UInt64)

/-! ## What is accepted -/

/-- **Splitting neither loses, duplicates nor reorders bytes.**  If a bundle is split, it is a lone file; or
its last byte tells the number of rows of a matrix of pieces, whose lengths are the running sums of the
table, which put together row by row are a front of the bundle that ends before the table, and whose columns
are the files, in the order of their ordinals. -/
theorem split_cuts_front {files : List File} (short : bundle.length < 2 ^ 31)
    (accepted : split bundle ids nameHashes fileCount = .ok files) :
    (bundle = [] ∨ fileCount.toNat ≤ 1 → files = [label ids nameHashes 0 bundle]) ∧
      ∀ chunks, bundle.getLast? = some chunks → 2 ≤ fileCount.toNat →
        let table := tableOf bundle chunks fileCount.toNat
        let start := tableStart bundle chunks fileCount.toNat
        start + 4 * chunks.toNat * fileCount.toNat + 1 = bundle.length ∧
          ∃ (matrix : List (List Bytes)) (stop : Nat),
            matrix.map (List.map fun piece => (piece.length : Int)) =
              ((List.range chunks.toNat).map fun row =>
                (List.range fileCount.toNat).map (runningSum table fileCount.toNat row)) ∧
            stop = (matrix.flatten.map List.length).sum ∧ stop ≤ start ∧
            matrix.flatten.flatten = bundle.take stop ∧
            files = ((List.range fileCount.toNat).map fun ordinal =>
              label ids nameHashes ordinal (column matrix ordinal)) ∧
            (files.map fun file => file.data.length).sum = stop ∧
            (files.flatMap File.data).Perm (bundle.take stop) := by
  rw [split] at accepted
  constructor
  · intro lone
    rw [splitUnder_of_lone .stops lone] at accepted
    exact (Except.ok.inj accepted).symm
  intro chunks last several table start
  rw [splitUnder_of_several .stops last several] at accepted
  obtain ⟨contents, read, rfl⟩ := map_eq_ok.1 accepted
  obtain ⟨fits, nonneg, before, rfl⟩ := Bundle.contents_eq_ok (contents_of_contentsUnder short read)
  have within : chunkTotal table chunks.toNat fileCount.toNat ≤ bundle.length :=
    before.trans (Bundle.tableStart_le bundle chunks fileCount.toNat)
  have front : (bundle.take (chunkTotal table chunks.toNat fileCount.toNat)).length = _ :=
    List.length_take_of_le within
  have lengths := Bundle.map_length_pieces within
  have together := Bundle.flatten_pieces bundle table fileCount.toNat chunks.toNat
  have perm := Bundle.columnPieces_perm bundle table chunks.toNat fileCount.toNat
  have data : ((List.range fileCount.toNat).map fun ordinal =>
        label ids nameHashes ordinal (columnPieces bundle table fileCount.toNat chunks.toNat ordinal)).flatMap
          File.data =
      (List.range fileCount.toNat).flatMap (columnPieces bundle table fileCount.toNat chunks.toNat) :=
    List.flatMap_map _ _ _
  rw [Bundle.label_map_range]
  refine ⟨Bundle.tableStart_add fits, pieces bundle table fileCount.toNat chunks.toNat,
    chunkTotal table chunks.toNat fileCount.toNat, ?_, ?_, before, together, ?_, ?_, ?_⟩
  · rw [← nonneg.map_lengthsOf, ← lengths]
    simp
  · rw [← List.length_flatten, together, front]
  · exact List.map_congr_left fun ordinal inside => by
      rw [Bundle.column_pieces bundle table fileCount.toNat (List.mem_range.1 inside)]
  · rw [← List.length_flatMap, data, perm.length_eq, front]
  · rwa [data]

/-- Two rows of two files, with a byte between the chunks and the table that belongs to neither. -/
def interleaved : Bytes :=
  [1, 2, 3, 4, 9, 0, 0, 0, 2, 255, 255, 255, 255, 0, 0, 0, 0, 0, 0, 0, 1, 2]

theorem split_cuts_front_interleaved :
    split interleaved #[] #[] 2 = .ok [⟨0, -1, [1, 2]⟩, ⟨1, -1, [3, 4]⟩] ∧
      ∃ (matrix : List (List Bytes)) (stop : Nat),
        matrix.map (List.map fun piece => (piece.length : Int)) = [[2, 1], [0, 1]] ∧
          stop ≤ 5 ∧ matrix.flatten.flatten = interleaved.take stop ∧
          [[1, 2], [3, 4]] = (List.range 2).map (column matrix) := by
  have accepted : split interleaved #[] #[] 2 = .ok [⟨0, -1, [1, 2]⟩, ⟨1, -1, [3, 4]⟩] := by decide
  obtain ⟨-, several⟩ := split_cuts_front interleaved #[] #[] 2 (by decide) accepted
  obtain ⟨-, matrix, stop, lengths, -, before, front, files, -, -⟩ := several 2 rfl (by decide)
  exact ⟨accepted, matrix, stop, lengths.trans (by decide), before, front,
    congrArg (List.map File.data) files⟩

/-! ## What is refused -/

/-- **The refusals of a table are exact.**  A bundle is refused for the size of its table exactly if the
table, in whole numbers, is not shorter than the bundle.  If it is shorter, there are as many cells as are
read, and the bundle is refused for a negative length exactly if a running sum is negative; the ordinal and
the length are those of the first one, row by row.  And no table ends too early. -/
theorem split_refuses_table (chunks : UInt8) (short : bundle.length < 2 ^ 31)
    (last : bundle.getLast? = some chunks) (several : 2 ≤ fileCount.toNat) :
    let table := tableOf bundle chunks fileCount.toNat
    let outcome := split bundle ids nameHashes fileCount
    (outcome = .error (.trailerTooLarge chunks fileCount.toNat bundle.length) ↔
        bundle.length ≤ 4 * chunks.toNat * fileCount.toNat) ∧
      (4 * chunks.toNat * fileCount.toNat < bundle.length →
        table.length = 4 * chunks.toNat * fileCount.toNat ∧
          ((∃ ordinal length, outcome = .error (.negativeChunk ordinal length)) ↔
            ∃ row < chunks.toNat, ∃ ordinal < fileCount.toNat,
              runningSum table fileCount.toNat row ordinal < 0) ∧
          ∀ ordinal length, outcome = .error (.negativeChunk ordinal length) ↔
            ∃ row, FirstNegative table chunks.toNat fileCount.toNat row ordinal ∧
              length = runningSum table fileCount.toNat row ordinal) ∧
      outcome ≠ .error .unexpectedEnd := by
  intro table outcome
  have refused : ∀ error : GroupError, error.endsRun = false →
      (∀ needed available, error ≠ .chunkOverflow needed available) →
      (outcome = .error error ↔ Bundle.contents bundle chunks fileCount.toNat = .error error) :=
    fun error answered other => by
      show splitUnder .stops bundle ids nameHashes fileCount = _ ↔ _
      rw [splitUnder_of_several .stops last several, map_eq_error]
      exact contentsUnder_eq_error_iff .stops chunks fileCount short answered other
  have tooLarge := refused (.trailerTooLarge chunks fileCount.toNat bundle.length) rfl nofun
  have negative := fun ordinal length => refused (.negativeChunk ordinal length) rfl nofun
  have early := refused .unexpectedEnd rfl nofun
  refine ⟨tooLarge.trans Bundle.contents_eq_tooLarge_iff, fun fits => ⟨Bundle.length_tableOf fits, ?_, ?_⟩,
    mt early.1 Bundle.contents_ne_unexpectedEnd⟩
  · simp only [negative, Bundle.contents_eq_negative_iff fits]
    constructor
    · rintro ⟨ordinal, _, row, first, -⟩
      exact ⟨row, first.row_lt, ordinal, first.ordinal_lt, first.negative⟩
    · rintro ⟨row, above, ordinal, inside, negative⟩
      rcases Bundle.nonnegative_or_firstNegative table chunks.toNat fileCount.toNat with
        nonneg | ⟨row, ordinal, first⟩
      · exact absurd (nonneg row above ordinal inside) (not_le.2 negative)
      · exact ⟨ordinal, _, row, first, rfl⟩
  · intro ordinal length
    rw [negative, Bundle.contents_eq_negative_iff fits]

/-- A count for which the size of the table is no double word, and a length that is less than the one
before. -/
theorem split_refuses_table_samples :
    split [1, 2, 3, 255] #[] #[] 18446744073709551615 =
        .error (.trailerTooLarge 255 18446744073709551615 4) ∧
      split [0, 0, 0, 1, 255, 255, 255, 250, 1] #[] #[] 2 = .error (.negativeChunk 1 (-5)) := by
  obtain ⟨large, -, -⟩ := split_refuses_table [1, 2, 3, 255] #[] #[] 18446744073709551615 255
    (by decide) rfl (by decide)
  obtain ⟨-, small, -⟩ := split_refuses_table [0, 0, 0, 1, 255, 255, 255, 250, 1] #[] #[] 2 1
    (by decide) rfl (by decide)
  obtain ⟨-, -, negative⟩ := small (by decide)
  refine ⟨large.2 (by decide), (negative 1 (-5)).2 ⟨0, ?_, by decide⟩⟩
  exact
    { row_lt := by decide
      ordinal_lt := by decide
      negative := by decide
      above := by decide
      left := by decide }

end Splitter
end SectorVault
