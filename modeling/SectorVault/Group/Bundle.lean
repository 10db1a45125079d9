import SectorVault.Group.Error
import SectorVault.NameHash

/-!
# Bundles of files

The files of a group are stored together as one byte string, a bundle.  A lone file is its own
bundle.  Several files are cut into chunks, one chunk of every file to a row, and the bundle is

* the chunks, row by row,
* a table of their lengths in the same order, four bytes each,
* the number of rows, in one byte.

The table does not hold the lengths themselves but, within a row, the difference of each length to
the one before; the sum restarts in every row.  A file is the concatenation of its chunks from the
first row to the last.

## What is refused

The table must be shorter than the bundle, no sum may be negative, and the chunks must fit before
the table; whatever is left between them and the table belongs to no file.  The bundle does not say
how many files it holds: that number comes from outside, and a bundle that is empty, or is said to
hold at most one file, is a lone file.

What is said here is what a bundle stands for, in numbers of any size.  The program that takes bundles
apart is `Splitter.split`; it counts in words, and they may be too small.

## Labels

A bundle holds no ids and no names either.  They come from outside, by ordinal; a file for which
there is no id has its ordinal for an id, and one for which there is no name is unnamed.
-/

namespace SectorVault

/-- One file of a group. -/
structure File where
  /-- The file's id within its group. -/
  id : UInt32
  /-- The hash of the file's name. -/
  nameHash : Int32
  /-- The contents. -/
  data : Bytes
  deriving DecidableEq, Repr

namespace Bundle

/-! ## Labels -/

/-- The file with the given contents at an ordinal. -/
def label (ids : Array UInt32) (nameHashes : Array Int32) (ordinal : Nat) (data : Bytes) : File where
  id := (ids[ordinal]?).getD (UInt32.ofNat ordinal)
  nameHash := (nameHashes[ordinal]?).getD unnamed
  data := data

/-! ## The table of lengths -/

/-- Reads `count` more cells of a row as lengths, from the ordinal `ordinal` on: `sum` is the length
before, and `done` holds those already read, the last one first. -/
def readRow : Nat → Nat → Int → List Nat → Bytes → Except GroupError (List Nat × Bytes)
  | 0, _, _, done, table => .ok (done.reverse, table)
  | count + 1, ordinal, sum, done, b0 :: b1 :: b2 :: b3 :: table =>
    let length := sum + (signedOf [b0, b1, b2, b3]).toInt
    if length < 0 then .error (.negativeChunk ordinal length)
    else readRow count (ordinal + 1) length (length.toNat :: done) table
  | _ + 1, _, _, _, _ => .error .unexpectedEnd

/-- Reads the lengths of `rows` rows of `fileCount` chunks each. -/
def readRows (fileCount : Nat) : Nat → Bytes → Except GroupError (List (List Nat))
  | 0, _ => .ok []
  | rows + 1, table => do
    let (row, rest) ← readRow fileCount 0 0 [] table
    return row :: (← readRows fileCount rows rest)

/-! ## Chunks -/

/-- Cuts pieces of the given lengths off a byte string; `done` holds those already cut, the last one
first. -/
def cut : List Nat → Bytes → List Bytes → List Bytes × Bytes
  | [], bytes, done => (done.reverse, bytes)
  | length :: lengths, bytes, done =>
    cut lengths (bytes.drop length) (bytes.take length :: done)

/-- The contents of the files, from the lengths of their chunks and the chunks. -/
def gather (fileCount : Nat) : List (List Nat) → Bytes → List Bytes
  | [], _ => List.replicate fileCount []
  | row :: rows, bytes =>
    let (chunks, rest) := cut row bytes []
    List.zipWith (· ++ ·) chunks (gather fileCount rows rest)

/-! ## Splitting -/

/-- The contents of the files in a bundle of more than one file. -/
def contents (bundle : Bytes) (chunks : UInt8) (fileCount : Nat) :
    Except GroupError (List Bytes) := do
  let tableSize := 4 * chunks.toNat * fileCount
  if bundle.length ≤ tableSize then
    throw (.trailerTooLarge chunks fileCount bundle.length)
  let available := bundle.length - 1 - tableSize
  let rows ← readRows fileCount chunks.toNat ((bundle.drop available).take tableSize)
  let needed := rows.flatten.foldr (· + ·) 0
  if available < needed then throw (.chunkOverflow needed available)
  return gather fileCount rows bundle

/-- The files of a bundle that is said to hold `fileCount` of them, in the order of their
ordinals. -/
def split (bundle : Bytes) (ids : Array UInt32) (nameHashes : Array Int32) (fileCount : Nat) :
    Except GroupError (List File) :=
  match bundle.getLast? with
  | none => .ok [label ids nameHashes 0 bundle]
  | some chunks =>
    if fileCount ≤ 1 then .ok [label ids nameHashes 0 bundle]
    else do
      let files ← contents bundle chunks fileCount
      return files.zipIdx.map fun (data, ordinal) => label ids nameHashes ordinal data

/-! ## Bundling -/

/-- The differences of successive numbers, the first one to `before`. -/
def differences : Int → List Nat → List Int
  | _, [] => []
  | before, n :: ns => (n - before) :: differences n ns

/-- The table of lengths of one row of chunks. -/
def tableRow (row : List Bytes) : Bytes :=
  (differences 0 (row.map List.length)).flatMap fun d => ofSigned (Int32.ofInt d)

/-- The bundle of a matrix of chunks, given by its rows. -/
def ofRows (rows : List (List Bytes)) : Bytes :=
  rows.flatten.flatten ++ rows.flatMap tableRow ++ [UInt8.ofNat rows.length]

/-- The bundle of some files in one row; a lone file is its own bundle. -/
def ofFiles : List Bytes → Bytes
  | [file] => file
  | files => ofRows [files]

end Bundle

end SectorVault
