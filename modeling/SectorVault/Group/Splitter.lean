import SectorVault.Group.Bundle
import SectorVault.Overflow

/-!
# Splitting in words

`Bundle.split` says what comes out of a bundle, and counts in numbers of any size.  The program counts in
words, and goes over the table twice, so that the files can be given their sizes before the chunks are copied:

* the number of files is a double word; the size of the table is the product of three numbers, and both
  multiplications are checked;
* the running sum of a row is a signed double word;
* the sizes of the files, their sum and the offset in the bundle are unsigned double words.

None of the additions is meant to wrap around, and none sees to it that it does not.  So they all take an
`Overflow`; `Splitter.split` is splitting on a machine that stops.

Both passes walk over the table in the same way and differ only in what they do with a length: the first
one refuses it if it is negative, and adds it to the size of the file; the second one copies that many bytes
to the file.  The second pass relies on the first one for its offsets.  A chunk that is not within the bundle
would end the run.

## Memory

Memory is asked for three times: for the sizes of the files, for what stands for the files while they are
made, and for their contents.  Nothing can be asked for that is longer than a signed double word can say,
which is for the caller to see to: the number of files comes from outside, and if there are no rows, no bundle
is too short for it.  And an address is a double word, so that files of `2 ^ 64` bytes or more are in no memory.
In both cases the run ends.  Otherwise, how much memory there is does not matter here.
-/

namespace SectorVault
namespace Splitter

/-! ## The size of the table -/

/-- The product of two double words, if it is one. -/
def product? (a b : UInt64) : Option UInt64 :=
  if a.toNat * b.toNat < UInt64.size then some (a * b) else none

/-- The size of the table, if it is shorter than the bundle. -/
def tableSize? (chunks : UInt8) (fileCount : UInt64) (length : Nat) : Option Nat := do
  let cells ← product? chunks.toUInt64 fileCount
  let size ← product? cells 4
  if size.toNat < length then some size.toNat else none

/-! ## What ends a run -/

/-- Goes on with a sum, if there is one. -/
def sumOrEnd {α : Type} : Option α → Except GroupError α
  | some sum => .ok sum
  | none => .error .sumOverflow

/-- Asks for memory for some items of the same size. -/
def reserve (count : UInt64) (itemSize : Nat) : Except GroupError Unit :=
  if itemSize * count.toNat ≤ Int64.maxValue.toNatClampNeg then .ok () else .error .capacityOverflow

section Passes

variable (overflow : Overflow)

/-! ## Walking over the table -/

section Walk

variable {σ : Type} (visit : Nat → Int64 → σ → Except GroupError σ)

/-- Walks over `count` more cells of a row, from the ordinal `ordinal` on: `sum` is the length before, and
`visit` is told the ordinal and the length. -/
def walkRow : Nat → Nat → Int64 → σ → Bytes → Except GroupError (σ × Bytes)
  | 0, _, _, state, table => .ok (state, table)
  | count + 1, ordinal, sum, state, b0 :: b1 :: b2 :: b3 :: table => do
    let length ← sumOrEnd (overflow.addSigned sum (signedOf [b0, b1, b2, b3]).toInt64)
    let state ← visit ordinal length state
    walkRow count (ordinal + 1) length state table
  | _ + 1, _, _, _, _ => .error .unexpectedEnd

/-- Walks over `rows` rows of `fileCount` cells each. -/
def walkRows (fileCount : Nat) : Nat → σ → Bytes → Except GroupError σ
  | 0, state, _ => .ok state
  | rows + 1, state, table => do
    let (state, table) ← walkRow overflow visit fileCount 0 0 state table
    walkRows fileCount rows state table

end Walk

/-! ## The two passes -/

/-- Adds a length to the size of a file. -/
def addSize (ordinal : Nat) (length : Int64) (sizes : Array UInt64) :
    Except GroupError (Array UInt64) :=
  if length < 0 then .error (.negativeChunk ordinal length.toInt)
  else do
    let size ← sumOrEnd (overflow.add (sizes.getD ordinal 0) length.toUInt64)
    return sizes.modify ordinal fun _ => size

/-- The number of bytes that are taken for the contents of files of the given sizes. -/
def reserved (sizes : Array UInt64) : Nat := (sizes.toList.map UInt64.toNat).foldr (· + ·) 0

/-- How far copying has come. -/
structure Copied where
  /-- The offset of the next chunk. -/
  offset : UInt64
  /-- The contents of the files so far. -/
  files : Array Bytes

/-- Copies the next chunk to a file. -/
def copyChunk (bundle : Array UInt8) (ordinal : Nat) (length : Int64) (copied : Copied) :
    Except GroupError Copied := do
  let stop ← sumOrEnd (overflow.add copied.offset length.toUInt64)
  if copied.offset ≤ stop ∧ stop.toNat ≤ bundle.size then
    let chunk := slice bundle copied.offset.toNat stop.toNat
    .ok ⟨stop, copied.files.modify ordinal (· ++ chunk)⟩
  else .error .outOfBounds

/-! ## Splitting -/

/-- The contents of the files in a bundle of more than one file. -/
def contentsUnder (bundle : Bytes) (chunks : UInt8) (fileCount : UInt64) :
    Except GroupError (List Bytes) :=
  match tableSize? chunks fileCount bundle.length with
  | none => .error (.trailerTooLarge chunks fileCount.toNat bundle.length)
  | some tableSize => do
    let available := bundle.length - 1 - tableSize
    let table := (bundle.drop available).take tableSize
    reserve fileCount 8
    let sizes ← walkRows overflow (addSize overflow) fileCount.toNat chunks.toNat
      (Array.replicate fileCount.toNat 0) table
    let needed ← sumOrEnd (overflow.sum sizes.toList)
    if available < needed.toNat then .error (.chunkOverflow needed.toNat available)
    else
      reserve fileCount 24
      if UInt64.size ≤ reserved sizes then .error .outOfMemory
      else
        let copied ← walkRows overflow (copyChunk overflow bundle.toArray) fileCount.toNat
          chunks.toNat ⟨0, Array.replicate fileCount.toNat []⟩ table
        return copied.files.toList

/-- The files of a bundle that is said to hold `fileCount` of them, in the order of their ordinals, as far
as a machine gets. -/
def splitUnder (bundle : Bytes) (ids : Array UInt32) (nameHashes : Array Int32)
    (fileCount : UInt64) : Except GroupError (List File) :=
  match bundle.getLast? with
  | none => .ok [Bundle.label ids nameHashes 0 bundle]
  | some chunks =>
    if fileCount ≤ 1 then .ok [Bundle.label ids nameHashes 0 bundle]
    else do
      let files ← contentsUnder overflow bundle chunks fileCount
      return files.zipIdx.map fun (data, ordinal) => Bundle.label ids nameHashes ordinal data

end Passes

/-- The files of a bundle that is said to hold `fileCount` of them, in the order of their ordinals. -/
def split (bundle : Bytes) (ids : Array UInt32) (nameHashes : Array Int32) (fileCount : UInt64) :
    Except GroupError (List File) :=
  splitUnder .stops bundle ids nameHashes fileCount

end Splitter
end SectorVault
