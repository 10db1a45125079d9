import Mathlib
import SectorVault.Bytes

/-!
# Fields read back

What is written as a field of a fixed width reads back as it was, as long as it fits the width.  A
reader that needs four bytes takes them one by one off the front of a string, so a field is also
wanted as four single bytes; since its length is known, `List.length_eq_four` gives them.

A file that is written block by block, in blocks of one length, is read block by block as well:
`slice_block` says that a slice within a block is a piece of that block.
-/

namespace SectorVault

/-! ## Numbers -/

/-- A number written at some width reads back modulo what the width can hold. -/
theorem bigEndian_toBigEndian (width n : Nat) :
    bigEndian (toBigEndian width n) = n % 256 ^ width := by
  induction width generalizing n with
  | zero => simp [toBigEndian, bigEndian, Nat.mod_one]
  | succ width ih =>
    rw [toBigEndian, bigEndian_append_singleton, ih, Nat.pow_succ', Nat.mod_mul]
    simp [UInt8.toNat_ofNat']
    omega

/-! ## Words -/

@[simp] theorem length_ofWord (w : UInt32) : (ofWord w).length = 4 :=
  length_toBigEndian 4 w.toNat

@[simp] theorem length_ofSigned (w : Int32) : (ofSigned w).length = 4 :=
  length_ofWord w.toUInt32

@[simp] theorem wordOf_ofWord (w : UInt32) : wordOf (ofWord w) = w := by
  have small : w.toNat < 256 ^ 4 := w.toNat_lt
  rw [wordOf, ofWord, bigEndian_toBigEndian, Nat.mod_eq_of_lt small, UInt32.ofNat_toNat]

@[simp] theorem signedOf_ofSigned (w : Int32) : signedOf (ofSigned w) = w := by
  rw [signedOf, ofSigned, wordOf_ofWord, Int32.toInt32_toUInt32]

/-! ## Strings as numbers -/

/-- A number that fits its width reads back. -/
theorem bigEndian_toBigEndian_of_lt {width n : Nat} (h : n < 256 ^ width) :
    bigEndian (toBigEndian width n) = n := by
  rw [bigEndian_toBigEndian, Nat.mod_eq_of_lt h]

/-- A length below `2 ^ 31` reads back from its four bytes as a signed word. -/
theorem toInt_signedOf_toBigEndian {n : Nat} (h : n < 2 ^ 31) :
    (signedOf (toBigEndian 4 n)).toInt = n := by
  rw [signedOf, wordOf, bigEndian_toBigEndian_of_lt (by omega), UInt32.toInt32_ofNat',
    Int32.toInt_ofNat_of_lt h]

theorem bigEndian_lt (bytes : Bytes) : bigEndian bytes < 256 ^ bytes.length := by
  induction bytes using List.reverseRecOn with
  | nil => simp [bigEndian]
  | append_singleton bytes b ih =>
    have small : b.toNat < 256 := b.toNat_lt
    rw [bigEndian_append_singleton, List.length_append, List.length_singleton, Nat.pow_succ]
    omega

/-- A string is the number it denotes, written at its own length. -/
theorem toBigEndian_bigEndian (bytes : Bytes) :
    toBigEndian bytes.length (bigEndian bytes) = bytes := by
  induction bytes using List.reverseRecOn with
  | nil => rfl
  | append_singleton bytes b ih =>
    have small : b.toNat < 256 := b.toNat_lt
    have high : (256 * bigEndian bytes + b.toNat) / 256 = bigEndian bytes := by omega
    have low : UInt8.ofNat (256 * bigEndian bytes + b.toNat) = b := by
      rw [← UInt8.toNat_inj, UInt8.toNat_ofNat']
      omega
    rw [bigEndian_append_singleton, List.length_append, List.length_singleton, toBigEndian, high,
      low, ih]

theorem ofWord_wordOf {bytes : Bytes} (h : bytes.length = 4) : ofWord (wordOf bytes) = bytes := by
  have small : bigEndian bytes < 2 ^ 32 := by
    have := bigEndian_lt bytes
    rwa [h] at this
  have value : (wordOf bytes).toNat = bigEndian bytes := by
    rw [wordOf, UInt32.toNat_ofNat', Nat.mod_eq_of_lt small]
  rw [ofWord, value, ← h, toBigEndian_bigEndian]

/-! ## Files of blocks -/

theorem slice_toArray (bytes : Bytes) (start stop : Nat) :
    slice bytes.toArray start stop = (bytes.drop start).take (stop - start) := by
  simp [slice, List.extract_eq_take_drop]

theorem slice_eq (file : Array UInt8) (start stop : Nat) :
    slice file start stop = (file.toList.drop start).take (stop - start) :=
  slice_toArray file.toList start stop

/-- The front of a slice is a shorter slice. -/
theorem take_slice (file : Array UInt8) (start size n : Nat) :
    (slice file start (start + size)).take n = slice file start (start + min size n) := by
  rw [slice_eq, slice_eq, List.take_take, Nat.add_sub_cancel_left, Nat.add_sub_cancel_left,
    min_comm]

/-- A slice depends on no byte outside it. -/
theorem slice_congr {file other : Array UInt8} {start stop : Nat}
    (same : ∀ offset, start ≤ offset → offset < stop → other[offset]? = file[offset]?) :
    slice other start stop = slice file start stop := by
  rw [slice_eq, slice_eq]
  refine List.ext_getElem? fun i => ?_
  simp only [List.getElem?_take, List.getElem?_drop, Array.getElem?_toList]
  split
  · exact same (start + i) (by omega) (by omega)
  · rfl

theorem length_flatten_blocks {blocks : List Bytes} {size : Nat}
    (uniform : ∀ block ∈ blocks, block.length = size) :
    blocks.flatten.length = size * blocks.length := by
  rw [List.length_flatten, List.map_congr_left uniform, List.map_const', List.sum_replicate,
    smul_eq_mul, Nat.mul_comm]

/-- In a file of blocks of one length, a slice within a block is a piece of it. -/
theorem slice_block {blocks : List Bytes} {size : Nat}
    (uniform : ∀ block ∈ blocks, block.length = size) {i : Nat} {block : Bytes}
    (found : blocks[i]? = some block) {start stop : Nat} (inside : stop ≤ size) :
    slice blocks.flatten.toArray (size * i + start) (size * i + stop) =
      (block.take stop).drop start := by
  obtain ⟨h, rfl⟩ := List.getElem?_eq_some_iff.1 found
  have before : (blocks.take i).flatten.length = size * i := by
    rw [length_flatten_blocks fun block mem => uniform block (List.mem_of_mem_take mem),
      List.length_take_of_le (by omega)]
  have blocks_eq : blocks.flatten =
      (blocks.take i).flatten ++ (blocks[i] ++ (blocks.drop (i + 1)).flatten) := by
    rw [← List.flatten_cons, ← List.flatten_append, List.getElem_cons_drop, List.take_append_drop]
  have here : blocks.flatten.drop (size * i + start) =
      (blocks[i] ++ (blocks.drop (i + 1)).flatten).drop start := by
    rw [blocks_eq, ← List.drop_drop, List.drop_left' before]
  have length := uniform blocks[i] (List.getElem_mem h)
  rw [slice_toArray, here, Nat.add_sub_add_left, ← List.drop_take, List.take_append_of_le_length]
  omega

end SectorVault
