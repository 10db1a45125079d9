import Mathlib
import SectorVault.Proofs.Cipher.Xtea

/-!
# Deciphering block by block

The cipher is usually given as a loop with a sum that runs along: from zero upwards when a block is
enciphered, and from `32 * delta` down to zero when it is deciphered.  The constants of the rounds are the
values of that sum, so the loops are the rounds (`iterate_forward`, `iterate_backward`).

In a string every block is treated on its own: what stands at its place afterwards is what the loop makes of
it (`blockAt_overBlocks`).  The bytes behind the last whole block stay as they are
(`drop_overBlocks`), and a string of whole blocks can be cut off the front (`overBlocks_append`).
-/

namespace SectorVault
namespace Xtea

/-! ## The loops -/

/-- A turn of the loop that enciphers: the sum steps between the changes of the two halves. -/
def forward (key : Key) : Block × UInt32 → Block × UInt32
  | (⟨left, right⟩, sum) =>
    let left := left + mix right sum (key.word sum)
    let sum := sum + delta
    (⟨left, right + mix left sum (key.word (sum >>> 11))⟩, sum)

/-- A turn of the loop that deciphers. -/
def backward (key : Key) : Block × UInt32 → Block × UInt32
  | (⟨left, right⟩, sum) =>
    let right := right - mix left sum (key.word (sum >>> 11))
    let sum := sum - delta
    (⟨left - mix right sum (key.word sum), right⟩, sum)

theorem forward_eq (key : Key) (block : Block) (sum : UInt32) :
    forward key (block, sum) = (round key block sum, sum + delta) := rfl

theorem backward_eq (key : Key) (block : Block) (sum : UInt32) :
    backward key (block, sum + delta) = (unround key block sum, sum) := by
  simp [backward, unround]

theorem delta_mul_succ (n : Nat) :
    delta * UInt32.ofNat (n + 1) = delta * UInt32.ofNat n + delta := by
  rw [UInt32.ofNat_add, UInt32.mul_add]
  simp

theorem iterate_forward (key : Key) (block : Block) (n : Nat) :
    (forward key)^[n] (block, 0) =
      (((List.range n).map fun i => delta * UInt32.ofNat i).foldl (round key) block,
        delta * UInt32.ofNat n) := by
  induction n with
  | zero => simp
  | succ n ih =>
    rw [Function.iterate_succ_apply', ih, forward_eq, ← delta_mul_succ, List.range_succ,
      List.map_append, List.foldl_append]
    rfl

theorem iterate_backward (key : Key) (block : Block) (n : Nat) :
    (backward key)^[n] (block, delta * UInt32.ofNat n) =
      (((List.range n).map fun i => delta * UInt32.ofNat i).reverse.foldl (unround key) block, 0) := by
  induction n generalizing block with
  | zero => simp
  | succ n ih =>
    rw [Function.iterate_succ_apply, delta_mul_succ, backward_eq, ih, List.range_succ,
      List.map_append, List.reverse_append]
    rfl

/-- Enciphering a block is the loop from zero on. -/
theorem encipherBlock_eq (key : Key) (block : Block) :
    encipherBlock key block = ((forward key)^[32] (block, 0)).1 := by
  rw [iterate_forward]
  rfl

/-- Deciphering a block is the loop back from where the other one ends. -/
theorem decipherBlock_eq (key : Key) (block : Block) :
    decipherBlock key block = ((backward key)^[32] (block, delta * 32)).1 := by
  have start : delta * 32 = delta * UInt32.ofNat 32 := rfl
  rw [start, iterate_backward]
  rfl

/-! ## Blocks at their places -/

/-- The block that eight bytes are. -/
def Block.ofBytes (bytes : Bytes) : Block :=
  ⟨wordOf (bytes.take 4), wordOf (bytes.drop 4)⟩

/-- The eight bytes of the block at a place of a string. -/
def blockAt (bytes : Bytes) (i : Nat) : Bytes :=
  (bytes.drop (8 * i)).take 8

@[simp] theorem Block.ofBytes_toBytes (block : Block) : Block.ofBytes block.toBytes = block := by
  unfold Block.ofBytes Block.toBytes
  rw [List.take_left' (length_ofWord _), List.drop_left' (length_ofWord _), wordOf_ofWord,
    wordOf_ofWord]

/-- Behind a block the string that it is in front of goes on. -/
theorem drop_toBytes_append (block : Block) (rest : Bytes) (n : Nat) :
    (block.toBytes ++ rest).drop (8 + n) = rest.drop n := by
  rw [← block.length_toBytes]
  exact List.drop_length_add_append n

theorem blockAt_zero (block : Block) (rest : Bytes) :
    blockAt (block.toBytes ++ rest) 0 = block.toBytes :=
  List.take_left' block.length_toBytes

theorem blockAt_succ (block : Block) (rest : Bytes) (i : Nat) :
    blockAt (block.toBytes ++ rest) (i + 1) = blockAt rest i := by
  unfold blockAt
  rw [Nat.mul_succ, Nat.add_comm, drop_toBytes_append]

/-- At the place of a block stands what comes of that block. -/
theorem blockAt_overBlocks (f : Block → Block) {bytes : Bytes} {i : Nat}
    (inside : i < bytes.length / 8) :
    blockAt (overBlocks f bytes []) i = (f (Block.ofBytes (blockAt bytes i))).toBytes := by
  induction bytes using induction_on_blocks generalizing i with
  | tail bytes short => omega
  | step block rest ih =>
    rw [overBlocks_cons]
    cases i with
    | zero => rw [blockAt_zero, blockAt_zero, Block.ofBytes_toBytes]
    | succ i =>
      rw [blockAt_succ, blockAt_succ]
      rw [List.length_append, Block.length_toBytes] at inside
      exact ih (by omega)

/-- The bytes behind the last whole block are left alone. -/
theorem drop_overBlocks (f : Block → Block) (bytes : Bytes) :
    (overBlocks f bytes []).drop (bytes.length - bytes.length % 8) =
      bytes.drop (bytes.length - bytes.length % 8) := by
  induction bytes using induction_on_blocks with
  | tail bytes short => rw [overBlocks_of_short f short]; rfl
  | step block rest ih =>
    have whole : (block.toBytes ++ rest).length - (block.toBytes ++ rest).length % 8 =
        8 + (rest.length - rest.length % 8) := by
      rw [List.length_append, Block.length_toBytes]
      omega
    rw [overBlocks_cons, whole, drop_toBytes_append, drop_toBytes_append, ih]

/-- A string of whole blocks in front of another one is treated on its own. -/
theorem overBlocks_append (f : Block → Block) {bytes : Bytes} (whole : 8 ∣ bytes.length)
    (more : Bytes) : overBlocks f (bytes ++ more) [] = overBlocks f bytes [] ++ overBlocks f more [] := by
  induction bytes using induction_on_blocks with
  | tail bytes short =>
    obtain rfl : bytes = [] := List.eq_nil_of_length_eq_zero (Nat.eq_zero_of_dvd_of_lt whole short)
    rfl
  | step block rest ih =>
    rw [List.length_append, Block.length_toBytes] at whole
    have behind : 8 ∣ rest.length := (Nat.dvd_add_right (dvd_refl 8)).1 whole
    rw [List.append_assoc, overBlocks_cons, overBlocks_cons, ih behind, List.append_assoc]

/-! ## Strings -/

/-- **Deciphering and enciphering are inverse to each other**, and they keep the length and the last
`length % 8` bytes of a string.  At the place of a block stands what the loop with the running sum makes of
this block under the key, so nothing else in the string matters to it; and whole blocks in front of a string
are treated on their own. -/
theorem decipher_blockwise (key : Key) :
    (∀ bytes, decipher key (encipher key bytes) = bytes ∧
      encipher key (decipher key bytes) = bytes) ∧
    (∀ bytes, (decipher key bytes).length = bytes.length ∧
      (encipher key bytes).length = bytes.length) ∧
    (∀ bytes : Bytes, let whole := bytes.length - bytes.length % 8
      (decipher key bytes).drop whole = bytes.drop whole ∧
      (encipher key bytes).drop whole = bytes.drop whole) ∧
    (∀ (bytes : Bytes) (i : Nat), i < bytes.length / 8 →
      let block := Block.ofBytes (blockAt bytes i)
      blockAt (decipher key bytes) i = ((backward key)^[32] (block, delta * 32)).1.toBytes ∧
      blockAt (encipher key bytes) i = ((forward key)^[32] (block, 0)).1.toBytes) ∧
    (∀ bytes more : Bytes, 8 ∣ bytes.length →
      decipher key (bytes ++ more) = decipher key bytes ++ decipher key more ∧
      encipher key (bytes ++ more) = encipher key bytes ++ encipher key more) := by
  refine ⟨fun bytes => ⟨decipher_encipher key bytes, encipher_decipher key bytes⟩,
    fun bytes => ⟨length_decipher key bytes, length_encipher key bytes⟩,
    fun bytes => ⟨drop_overBlocks _ bytes, drop_overBlocks _ bytes⟩, fun bytes i inside => ?_,
    fun bytes more whole => ⟨overBlocks_append _ whole more, overBlocks_append _ whole more⟩⟩
  intro block
  rw [← decipherBlock_eq, ← encipherBlock_eq]
  exact ⟨blockAt_overBlocks _ inside, blockAt_overBlocks _ inside⟩

/-- The key of a published test vector. -/
def vectorKey : Key := ⟨0x00010203, 0x04050607, 0x08090A0B, 0x0C0D0E0F⟩

/-- The enciphered block of the vector, twice, and three bytes more. -/
theorem decipher_blockwise_vector :
    let block : Bytes := [0x49, 0x7D, 0xF3, 0xD0, 0x72, 0x61, 0x2C, 0xB5]
    let bytes := block ++ block ++ [1, 2, 3]
    1 < bytes.length / 8 ∧
      blockAt (decipher vectorKey bytes) 1 = [0x41, 0x42, 0x43, 0x44, 0x45, 0x46, 0x47, 0x48] ∧
      8 ∣ block.length ∧
      decipher vectorKey (block ++ [1, 2, 3]) = decipher vectorKey block ++ decipher vectorKey [1, 2, 3] := by
  intro block bytes
  obtain ⟨-, -, -, places, fronts⟩ := decipher_blockwise vectorKey
  have inside : 1 < bytes.length / 8 := by decide
  have whole : 8 ∣ block.length := by decide
  refine ⟨inside, (places bytes 1 inside).1.trans ?_, whole, (fronts block [1, 2, 3] whole).1⟩
  decide +kernel

end Xtea
end SectorVault
