import SectorVault.Bytes

/-!
# The digest of stored bytes

Reference tables may list, beside the checksum of a record, a digest of 64 bytes, which unlike the
checksum cannot be forged.  It is the Whirlpool hash: the message is padded to whole blocks of 64
bytes, and a block cipher of ten rounds, keyed by the digest so far, is run on each block in turn.

## The state

Block, key and digest are all matrices of eight rows and eight columns of bytes, kept here as eight
words, a word to a row with the first column in the highest byte.  A round replaces every byte by
its substitute, rotates column `j` down by `j` rows, multiplies every row by a fixed matrix, and
adds the round's key.  Substitution, rotation and multiplication act on each byte alone, so the
three together are a sum, over the eight columns, of one word looked up by one byte: `spread` is
that word for the first column, and the words of the other columns are the same bytes rotated.

## The substitution

The substitute of a byte is computed from two boxes on half bytes, an exponential map and a
pseudo-random one, so no table of 256 entries has to be trusted: `substitute` is the definition and
`spreadTable` is computed from it.
-/

namespace SectorVault

/-- A digest: 64 bytes. -/
abbrev Digest := Vector UInt8 64

/-- The digest of all zeros, which stands where none was computed. -/
def Digest.zero : Digest := Vector.replicate 64 0

namespace Whirlpool

/-! ## Substitution of bytes -/

/-- The exponential box on half bytes. -/
def exponential : List Nat := [1, 11, 9, 12, 13, 6, 15, 3, 14, 8, 7, 4, 10, 2, 5, 0]

/-- The pseudo-random box on half bytes. -/
def scrambled : List Nat := [7, 12, 11, 13, 14, 4, 9, 15, 6, 3, 8, 10, 2, 5, 1, 0]

/-- The value of a box at a half byte. -/
def boxAt (box : List Nat) (half : Nat) : Nat := box.getD half 0

/-- The half byte at which a box takes a value. -/
def boxInverse (box : List Nat) (value : Nat) : Nat := box.idxOf value

/-- The substitute of a byte: its halves go through the exponential box and its inverse, are mixed
through the pseudo-random box, and go through the same two boxes again. -/
def substitute (byte : Nat) : Nat :=
  let high := boxAt exponential (byte / 16)
  let low := boxInverse exponential (byte % 16)
  let mixed := boxAt scrambled (high ^^^ low)
  16 * boxAt exponential (high ^^^ mixed) + boxInverse exponential (low ^^^ mixed)

/-! ## Diffusion -/

/-- The double of a byte in the field of 256 elements that the row matrix is taken over. -/
def double (byte : Nat) : Nat :=
  if byte < 128 then 2 * byte else (2 * byte) ^^^ 0x11D

/-- The product of a byte and a coefficient below sixteen in that field. -/
def scale (coefficient byte : Nat) : Nat :=
  let two := double byte
  let four := double two
  let eight := double four
  (if coefficient.testBit 0 then byte else 0) ^^^ (if coefficient.testBit 1 then two else 0) ^^^
    (if coefficient.testBit 2 then four else 0) ^^^ (if coefficient.testBit 3 then eight else 0)

/-- The first row of the row matrix; each further row is the one before it rotated by one place. -/
def coefficients : List Nat := [1, 1, 4, 1, 8, 5, 2, 9]

/-- What a byte of the first column contributes to its row. -/
def spread (byte : Nat) : UInt64 :=
  let s := substitute byte
  coefficients.foldl (fun word c => (word <<< 8) ||| UInt64.ofNat (scale c s)) 0

/-- `spread` at every byte. -/
def spreadTable : Vector UInt64 256 := Vector.ofFn fun i => spread i.val

/-- A word rotated towards its low end by whole bytes, fewer than eight of them. -/
def rotate (word : UInt64) (bytes : Nat) : UInt64 :=
  if bytes = 0 then word
  else (word >>> UInt64.ofNat (8 * bytes)) ||| (word <<< UInt64.ofNat (64 - 8 * bytes))

/-! ## Rounds -/

/-- A matrix of bytes as eight words, a word to a row. -/
abbrev State := Vector UInt64 8

/-- The byte in column `column` of a row. -/
def columnOf (row : UInt64) (column : Nat) : UInt8 :=
  (row >>> UInt64.ofNat (56 - 8 * column)).toUInt8

/-- The contribution of column `column` to row `i` of the next state, before the round key. -/
def contribution (state : State) (i : Nat) (column : Nat) : UInt64 :=
  let byte := columnOf (state.get ⟨(i + 8 - column) % 8, Nat.mod_lt _ (by decide)⟩) column
  rotate (spreadTable.get ⟨byte.toNat, byte.toNat_lt⟩) column

/-- One round, up to the round key. -/
def diffuse (state : State) : State :=
  Vector.ofFn fun i =>
    contribution state i 0 ^^^ contribution state i 1 ^^^ contribution state i 2 ^^^
      contribution state i 3 ^^^ contribution state i 4 ^^^ contribution state i 5 ^^^
      contribution state i 6 ^^^ contribution state i 7

/-- The sum of two states. -/
def combine (a b : State) : State := Vector.zipWith (· ^^^ ·) a b

/-- The constant of a round, counted from zero: eight successive substitutes in the first row. -/
def roundConstant (r : Nat) : UInt64 :=
  (List.range 8).foldl (fun word j => (word <<< 8) ||| UInt64.ofNat (substitute (8 * r + j))) 0

/-- The constants of the ten rounds. -/
def roundConstants : List UInt64 := (List.range 10).map roundConstant

/-- One round of key and block together: the key goes through a round keyed by the constant, and
the block through a round keyed by the new key. -/
def roundStep (keyAndBlock : State × State) (constant : UInt64) : State × State :=
  let (key, block) := keyAndBlock
  let diffused := diffuse key
  let next := diffused.set 0 (diffused[0] ^^^ constant)
  (next, combine (diffuse block) next)

/-- The digest state after one more block: the block enciphered under the state, plus the state and
the block. -/
def compress (state block : State) : State :=
  let (_, enciphered) := roundConstants.foldl roundStep (state, combine block state)
  combine (combine enciphered state) block

/-! ## Messages -/

/-- The message followed by a set bit, zeros up to half a block short of a whole number of blocks,
and the message's length in bits as a number of 32 bytes. -/
def pad (message : Bytes) : Bytes :=
  let zeros := (95 - message.length % 64) % 64
  message ++ (0x80 :: List.replicate zeros 0) ++ toBigEndian 32 (8 * message.length)

/-- A block of 64 bytes as a state. -/
def blockOf (bytes : Bytes) : State :=
  Vector.ofFn fun i => UInt64.ofNat (bigEndian ((bytes.drop (8 * i.val)).take 8))

/-- The state after the next `count` blocks of a string. -/
def absorb : Nat → Bytes → State → State
  | 0, _, state => state
  | count + 1, bytes, state => absorb count (bytes.drop 64) (compress state (blockOf (bytes.take 64)))

/-- The bytes of a state, row by row. -/
def toDigest (state : State) : Digest :=
  Vector.ofFn fun i => columnOf (state.get ⟨i.val / 8, by omega⟩) (i.val % 8)

end Whirlpool

/-- The digest of a byte string. -/
def whirlpool (message : Bytes) : Digest :=
  let padded := Whirlpool.pad message
  Whirlpool.toDigest (Whirlpool.absorb (padded.length / 64) padded (Vector.replicate 8 0))

end SectorVault
