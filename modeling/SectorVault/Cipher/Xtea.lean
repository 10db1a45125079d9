import SectorVault.Bytes

/-!
# The block cipher of containers

A container may be enciphered under a key of four words.  The cipher works on blocks of eight
bytes, each taken as two big-endian words, and mixes the halves alternately for 32 rounds.  A round
changes one half by a function of the other half, the key and the round's constant, so it is undone
by taking the same amount away again, and running the rounds backwards deciphers a block.

A string of bytes is a row of whole blocks and a tail of fewer than eight bytes.  Each block is
treated on its own and the tail is left alone, so enciphering keeps the length and its last
`length % 8` bytes.
-/

namespace SectorVault

/-- A cipher key: four words. -/
structure Key where
  /-- The word used when the selector is 0. -/
  word0 : UInt32
  /-- The word used when the selector is 1. -/
  word1 : UInt32
  /-- The word used when the selector is 2. -/
  word2 : UInt32
  /-- The word used when the selector is 3. -/
  word3 : UInt32
  deriving DecidableEq, Repr

/-- The key word that the two lowest bits of a selector name. -/
def Key.word (key : Key) (selector : UInt32) : UInt32 :=
  match selector &&& 3 with
  | 0 => key.word0
  | 1 => key.word1
  | 2 => key.word2
  | _ => key.word3

namespace Xtea

/-- One block: eight bytes as two words. -/
structure Block where
  /-- The word of the first four bytes. -/
  left : UInt32
  /-- The word of the last four bytes. -/
  right : UInt32
  deriving DecidableEq, Repr

/-! ## Rounds -/

/-- The step between the constants of two successive rounds. -/
def delta : UInt32 := 0x9E3779B9

/-- The number of rounds. -/
def roundCount : Nat := 32

/-- The constant each round starts from, in the order of enciphering. -/
def schedule : List UInt32 :=
  (List.range roundCount).map fun i => delta * UInt32.ofNat i

/-- The amount by which one half changes, given the other half and a round's constant and word. -/
def mix (half constant word : UInt32) : UInt32 :=
  (((half <<< 4) ^^^ (half >>> 5)) + half) ^^^ (constant + word)

/-- One round of enciphering: the left half changes, then the constant steps, then the right half
changes. -/
def round (key : Key) (block : Block) (constant : UInt32) : Block :=
  let left := block.left + mix block.right constant (key.word constant)
  let next := constant + delta
  ⟨left, block.right + mix left next (key.word (next >>> 11))⟩

/-- One round of deciphering: the right half goes back, then the left half. -/
def unround (key : Key) (block : Block) (constant : UInt32) : Block :=
  let next := constant + delta
  let right := block.right - mix block.left next (key.word (next >>> 11))
  ⟨block.left - mix right constant (key.word constant), right⟩

/-- Enciphers one block. -/
def encipherBlock (key : Key) (block : Block) : Block :=
  schedule.foldl (round key) block

/-- Deciphers one block: the rounds undone from the last to the first. -/
def decipherBlock (key : Key) (block : Block) : Block :=
  schedule.reverse.foldl (unround key) block

/-! ## Strings of bytes -/

/-- The eight bytes of a block. -/
def Block.toBytes (block : Block) : Bytes :=
  ofWord block.left ++ ofWord block.right

/-- Applies `f` to every whole block of a byte string; `done` holds the bytes already produced, last
byte first. -/
def overBlocks (f : Block → Block) : Bytes → Bytes → Bytes
  | b0 :: b1 :: b2 :: b3 :: b4 :: b5 :: b6 :: b7 :: rest, done =>
    let block := f ⟨wordOf [b0, b1, b2, b3], wordOf [b4, b5, b6, b7]⟩
    overBlocks f rest (block.toBytes.reverse ++ done)
  | tail, done => done.reverse ++ tail

/-- Enciphers the whole blocks of a byte string and leaves its tail alone. -/
def encipher (key : Key) (bytes : Bytes) : Bytes :=
  overBlocks (encipherBlock key) bytes []

/-- Deciphers the whole blocks of a byte string and leaves its tail alone. -/
def decipher (key : Key) (bytes : Bytes) : Bytes :=
  overBlocks (decipherBlock key) bytes []

end Xtea

/-- Deciphers under a key if there is one. -/
def decipherWith : Option Key → Bytes → Bytes
  | some key, bytes => Xtea.decipher key bytes
  | none, bytes => bytes

/-- Enciphers under a key if there is one. -/
def encipherWith : Option Key → Bytes → Bytes
  | some key, bytes => Xtea.encipher key bytes
  | none, bytes => bytes

end SectorVault
