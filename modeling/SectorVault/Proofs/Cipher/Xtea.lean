import Mathlib
import SectorVault.Cipher.Xtea
import SectorVault.Proofs.Bytes

/-!
# Deciphering undoes enciphering

A round changes one half of a block by an amount that depends on the other half only, so taking the
same amount away undoes it, whatever the key and the constant are.  The rounds of a block are therefore
undone from the last to the first (`foldl_unround_foldl_round`), and the other way round
(`foldl_round_foldl_unround`).

A string is a row of blocks and a tail that is left alone, and facts about strings are proved along
that division (`induction_on_blocks`): for a tail of fewer than eight bytes, and for a block in front
of a string.
-/

namespace SectorVault
namespace Xtea

/-! ## Rounds -/

@[simp] theorem unround_round (key : Key) (block : Block) (constant : UInt32) :
    unround key (round key block constant) constant = block := by
  simp [unround, round]

@[simp] theorem round_unround (key : Key) (block : Block) (constant : UInt32) :
    round key (unround key block constant) constant = block := by
  simp [unround, round]

/-- Rounds are undone from the last to the first. -/
theorem foldl_unround_foldl_round (key : Key) (constants : List UInt32) (block : Block) :
    constants.reverse.foldl (unround key) (constants.foldl (round key) block) = block := by
  induction constants generalizing block with
  | nil => rfl
  | cons constant constants ih =>
    rw [List.foldl_cons, List.reverse_cons, List.foldl_append, ih]
    exact unround_round key block constant

/-- And what undoes rounds is undone by them. -/
theorem foldl_round_foldl_unround (key : Key) (constants : List UInt32) (block : Block) :
    constants.foldl (round key) (constants.reverse.foldl (unround key) block) = block := by
  induction constants generalizing block with
  | nil => rfl
  | cons constant constants ih =>
    rw [List.foldl_cons, List.reverse_cons, List.foldl_append, List.foldl_cons, List.foldl_nil,
      round_unround]
    exact ih block

@[simp] theorem decipherBlock_encipherBlock (key : Key) (block : Block) :
    decipherBlock key (encipherBlock key block) = block :=
  foldl_unround_foldl_round key schedule block

@[simp] theorem encipherBlock_decipherBlock (key : Key) (block : Block) :
    encipherBlock key (decipherBlock key block) = block :=
  foldl_round_foldl_unround key schedule block

/-! ## Blocks of a string -/

@[simp] theorem Block.length_toBytes (block : Block) : block.toBytes.length = 8 := by
  simp [Block.toBytes]

/-- The first eight bytes of a string are a block. -/
theorem exists_block {bytes : Bytes} (h : 8 ≤ bytes.length) :
    ∃ (block : Block) (rest : Bytes), bytes = block.toBytes ++ rest := by
  refine ⟨⟨wordOf (bytes.take 4), wordOf ((bytes.drop 4).take 4)⟩, bytes.drop 8, ?_⟩
  have left : ofWord (wordOf (bytes.take 4)) = bytes.take 4 :=
    ofWord_wordOf (by rw [List.length_take]; omega)
  have right : ofWord (wordOf ((bytes.drop 4).take 4)) = (bytes.drop 4).take 4 :=
    ofWord_wordOf (by rw [List.length_take, List.length_drop]; omega)
  rw [Block.toBytes, left, right, List.append_assoc]
  conv_lhs => rw [← List.take_append_drop 4 bytes, ← List.take_append_drop 4 (bytes.drop 4)]
  rw [List.drop_drop]

/-- A property of strings holds of all if it holds of every tail, and of a block in front of a string
that has it. -/
theorem induction_on_blocks {P : Bytes → Prop} (tail : ∀ bytes, bytes.length < 8 → P bytes)
    (step : ∀ (block : Block) (rest : Bytes), P rest → P (block.toBytes ++ rest))
    (bytes : Bytes) : P bytes := by
  induction h : bytes.length using Nat.strong_induction_on generalizing bytes with
  | _ length ih =>
    by_cases short : bytes.length < 8
    · exact tail bytes short
    · obtain ⟨block, rest, rfl⟩ := exists_block (not_lt.1 short)
      rw [List.length_append, Block.length_toBytes] at h
      exact step block rest (ih rest.length (by omega) rest rfl)

theorem overBlocks_of_short (f : Block → Block) {bytes : Bytes} (h : bytes.length < 8)
    (done : Bytes) : overBlocks f bytes done = done.reverse ++ bytes := by
  unfold overBlocks
  split
  · simp at h
    omega
  · rfl

theorem overBlocks_toBytes (f : Block → Block) (block : Block) (rest done : Bytes) :
    overBlocks f (block.toBytes ++ rest) done =
      overBlocks f rest ((f block).toBytes.reverse ++ done) := by
  obtain ⟨b0, b1, b2, b3, left⟩ := List.length_eq_four.1 (length_ofWord block.left)
  obtain ⟨b4, b5, b6, b7, right⟩ := List.length_eq_four.1 (length_ofWord block.right)
  have wordLeft : wordOf [b0, b1, b2, b3] = block.left := by rw [← left, wordOf_ofWord]
  have wordRight : wordOf [b4, b5, b6, b7] = block.right := by rw [← right, wordOf_ofWord]
  conv_lhs => rw [Block.toBytes, left, right]
  simp only [List.cons_append, List.nil_append, overBlocks, wordLeft, wordRight]

/-- What is already produced stands in front of the rest. -/
theorem overBlocks_done (f : Block → Block) (bytes done : Bytes) :
    overBlocks f bytes done = done.reverse ++ overBlocks f bytes [] := by
  induction bytes using induction_on_blocks generalizing done with
  | tail bytes short => rw [overBlocks_of_short f short, overBlocks_of_short f short]; rfl
  | step block rest ih =>
    rw [overBlocks_toBytes, overBlocks_toBytes, ih, ih ((f block).toBytes.reverse ++ [])]
    simp

/-- A block in front of a string is treated on its own. -/
theorem overBlocks_cons (f : Block → Block) (block : Block) (rest : Bytes) :
    overBlocks f (block.toBytes ++ rest) [] = (f block).toBytes ++ overBlocks f rest [] := by
  rw [overBlocks_toBytes, overBlocks_done]
  simp

theorem length_overBlocks (f : Block → Block) (bytes : Bytes) :
    (overBlocks f bytes []).length = bytes.length := by
  induction bytes using induction_on_blocks with
  | tail bytes short => rw [overBlocks_of_short f short]; rfl
  | step block rest ih => rw [overBlocks_cons]; simp [ih]

/-- What undoes `f` on blocks undoes it on strings. -/
theorem overBlocks_overBlocks {f g : Block → Block} (undoes : ∀ block, g (f block) = block)
    (bytes : Bytes) : overBlocks g (overBlocks f bytes []) [] = bytes := by
  induction bytes using induction_on_blocks with
  | tail bytes short =>
    rw [overBlocks_of_short f short, List.reverse_nil, List.nil_append,
      overBlocks_of_short g short]
    rfl
  | step block rest ih => rw [overBlocks_cons, overBlocks_cons, undoes, ih]

@[simp] theorem decipher_encipher (key : Key) (bytes : Bytes) :
    decipher key (encipher key bytes) = bytes :=
  overBlocks_overBlocks (decipherBlock_encipherBlock key) bytes

@[simp] theorem encipher_decipher (key : Key) (bytes : Bytes) :
    encipher key (decipher key bytes) = bytes :=
  overBlocks_overBlocks (encipherBlock_decipherBlock key) bytes

@[simp] theorem length_encipher (key : Key) (bytes : Bytes) :
    (encipher key bytes).length = bytes.length :=
  length_overBlocks _ bytes

@[simp] theorem length_decipher (key : Key) (bytes : Bytes) :
    (decipher key bytes).length = bytes.length :=
  length_overBlocks _ bytes

end Xtea

@[simp] theorem decipherWith_encipherWith (key : Option Key) (bytes : Bytes) :
    decipherWith key (encipherWith key bytes) = bytes := by
  cases key with
  | none => rfl
  | some key => exact Xtea.decipher_encipher key bytes

@[simp] theorem length_encipherWith (key : Option Key) (bytes : Bytes) :
    (encipherWith key bytes).length = bytes.length := by
  cases key with
  | none => rfl
  | some key => exact Xtea.length_encipher key bytes

@[simp] theorem length_decipherWith (key : Option Key) (bytes : Bytes) :
    (decipherWith key bytes).length = bytes.length := by
  cases key with
  | none => rfl
  | some key => exact Xtea.length_decipher key bytes

end SectorVault
