import SectorVault.Compression.PrefixCode

/-!
# Blocks of the block-sorting format

A block lists the byte values that occur in it and is then a string of symbols, coded by several
prefix codes that take turns every fifty symbols.  The symbols are places in the list of byte values
in the order of their last use, with the most recent one first.  Runs of the most recent value are
written as numbers in a notation with the digits one and two, lowest digit first, and the last
symbol says that the block ends.

Reading a block gives its bytes in sorted order.  The codes need not be complete, and may even
assign more strings than there are; a string belongs to no symbol only once it is longer than the
format allows.
-/

namespace SectorVault

namespace Bzip2

/-! ## Symbols to bytes -/

/-- The bytes of a block so far. -/
structure Unranked where
  /-- The byte values, most recently used first. -/
  recent : Bytes
  /-- The length of the run that is being read. -/
  run : Nat
  /-- The weight of the next digit of that length. -/
  weight : Nat
  /-- The bytes read, without that run. -/
  bytes : Array UInt8

/-- The weight at which a run is too long for any block. -/
def maxWeight : Nat := 2 * 1024 * 1024

namespace Unranked

/-- The state before the first symbol of a block. -/
def start (values : Bytes) : Unranked := ⟨values, 0, 1, #[]⟩

/-- Ends the run that is being read, in a block of at most `capacity` bytes. -/
def endRun (capacity : Nat) : Unranked → Except Fault Unranked
  | ⟨recent, run, _, bytes⟩ =>
    if bytes.size + run ≤ capacity then
      .ok ⟨recent, 0, 1, (List.replicate run (recent.headD 0)).foldl Array.push bytes⟩
    else .error .corrupt

/-- Takes in the value at a place of the list and moves it to the front. -/
def use (capacity place : Nat) : Unranked → Except Fault Unranked
  | ⟨recent, run, weight, bytes⟩ =>
    if bytes.size < capacity then
      let byte := (recent[place]?).getD 0
      .ok ⟨byte :: recent.eraseIdx place, run, weight, bytes.push byte⟩
    else .error .corrupt

/-- Takes in a symbol: the first two are digits, the others places in the list, from one on. -/
def absorb (capacity symbol : Nat) (state : Unranked) : Except Fault Unranked :=
  if symbol < 2 then
    if state.weight < maxWeight then
      match state with
      | ⟨recent, run, weight, bytes⟩ =>
        .ok ⟨recent, run + (symbol + 1) * weight, 2 * weight, bytes⟩
    else .error .corrupt
  else
    match state.endRun capacity with
    | .ok state => state.use capacity (symbol - 1)
    | .error fault => .error fault

end Unranked

/-! ## Parts of a block -/

/-- The greatest length of a string in a code. -/
def maxCodeLength : Nat := 20

/-- The number of symbols after which the next code takes its turn. -/
def turnLength : Nat := 50

/-- The number of turns beyond which transmitted turns are read and not used. -/
def maxTurns : Nat := 18002

/-- Reads sixteen bits as the list of the places of those that are set. -/
def readPlaces : BitReader (List Nat) := do
  let bits ← BitReader.number 16
  return (List.range 16).filter fun i => bits.testBit (15 - i)

/-- Reads the byte values that occur in a block, in ascending order. -/
def readValues : BitReader Bytes := do
  let rows ← (← readPlaces).mapM fun row => do
    let places ← readPlaces
    return places.map fun place => UInt8.ofNat (16 * row + place)
  return rows.flatten

/-- Reads a number below `limit` as that many set bits and a clear one; `n` bits were already
read. -/
def readUnary (limit : Nat) : Nat → Nat → BitReader Nat
  | 0, _ => BitReader.corrupt
  | fuel + 1, n => do
    if (← BitReader.bit) = 0 then return n
    else if n + 1 < limit then readUnary limit fuel (n + 1)
    else BitReader.corrupt

/-- The codes of successive turns, from their places in the list of codes in the order of their last
use. -/
def unrankTurns : List Nat → List Nat → List Nat → List Nat
  | _, [], done => done.reverse
  | recent, place :: places, done =>
    let code := (recent[place]?).getD 0
    unrankTurns (code :: recent.eraseIdx place) places (code :: done)

/-- Reads the code of every turn, of `codeCount` codes. -/
def readTurns (codeCount : Nat) : BitReader (List Nat) := do
  let turnCount ← BitReader.number 15
  BitReader.require (1 ≤ turnCount)
  let places ← BitReader.repeatedly (readUnary codeCount codeCount 0) turnCount
  return unrankTurns (List.range codeCount) (places.take maxTurns) []

/-- Reads the next code length, as changes by one to the last one, in at most `fuel` steps. -/
def readLength : Nat → Nat → BitCursor → Except Fault (Nat × BitCursor)
  | 0, _, _ => .error .exhausted
  | fuel + 1, length, cursor =>
    if 1 ≤ length ∧ length ≤ maxCodeLength then
      match BitReader.bit cursor with
      | .error fault => .error fault
      | .ok (0, cursor) => .ok (length, cursor)
      | .ok (_, cursor) =>
        match BitReader.bit cursor with
        | .error fault => .error fault
        | .ok (0, cursor) => readLength fuel (length + 1) cursor
        | .ok (_, cursor) => readLength fuel (length - 1) cursor
    else .error .corrupt

/-- Reads `count` more code lengths after the length `last`; `done` holds those already read, the
last one first. -/
def readCodeLengths : Nat → Nat → List Nat → BitReader (List Nat)
  | 0, _, done => pure done.reverse
  | count + 1, last, done => do
    let length ← fun cursor => readLength (cursor.remaining + 1) last cursor
    readCodeLengths count length (length :: done)

/-- Reads one code for `symbolCount` symbols. -/
def readCode (symbolCount : Nat) : BitReader PrefixCode := do
  let first ← BitReader.number 5
  let lengths ← readCodeLengths symbolCount first []
  return PrefixCode.ofLengths (maxCodeLength + 1) lengths

/-! ## The symbols -/

/-- The code that is used next. -/
structure Turn where
  /-- The current code. -/
  code : PrefixCode
  /-- The number of symbols left in the current turn. -/
  left : Nat
  /-- The codes of the turns to come. -/
  coming : List Nat

/-- The code for the next symbol, and the state after it; none if there are no more turns. -/
def Turn.next (codes : Array PrefixCode) : Turn → Option Turn
  | ⟨code, left + 1, coming⟩ => some ⟨code, left, coming⟩
  | ⟨_, 0, []⟩ => none
  | ⟨code, 0, place :: coming⟩ => some ⟨(codes[place]?).getD code, turnLength - 1, coming⟩

/-- Reads symbols up to the end symbol, in at most `fuel` steps. -/
def readSymbols (capacity : Nat) (codes : Array PrefixCode) (endSymbol : Nat) :
    Nat → Turn → Unranked → BitCursor → Except Fault (Array UInt8 × BitCursor)
  | 0, _, _, _ => .error .exhausted
  | fuel + 1, turn, state, cursor =>
    match turn.next codes with
    | none => .error .corrupt
    | some turn =>
      match turn.code.read cursor with
      | .error fault => .error fault
      | .ok (symbol, cursor) =>
        if symbol = endSymbol then
          match state.endRun capacity with
          | .ok state => .ok (state.bytes, cursor)
          | .error fault => .error fault
        else
          match state.absorb capacity symbol with
          | .ok state => readSymbols capacity codes endSymbol fuel turn state cursor
          | .error fault => .error fault

/-- A block as it is transmitted. -/
structure Block where
  /-- The checksum of the bytes that the block stands for. -/
  checksum : UInt32
  /-- Whether some bytes were flipped before sorting. -/
  randomized : Bool
  /-- The rank of the block among its sorted rotations. -/
  origin : Nat
  /-- The bytes in sorted order. -/
  bytes : Array UInt8

/-- Reads the rest of a block of at most `capacity` bytes, after its mark. -/
def readBlock (capacity : Nat) : BitReader Block := do
  let checksum ← BitReader.number 32
  let randomized ← BitReader.bit
  let origin ← BitReader.number 24
  BitReader.require (origin ≤ capacity + 10)
  let values ← readValues
  BitReader.require (!values.isEmpty)
  let codeCount ← BitReader.number 3
  BitReader.require (2 ≤ codeCount && codeCount ≤ 6)
  let turns ← readTurns codeCount
  let codes ← BitReader.repeatedly (readCode (values.length + 2)) codeCount
  let bytes ← fun cursor =>
    readSymbols capacity codes.toArray (values.length + 1) (cursor.remaining + 1)
      ⟨⟨[], #[]⟩, 0, turns⟩ (Unranked.start values) cursor
  BitReader.require (origin < bytes.size)
  return ⟨UInt32.ofNat checksum, randomized == 1, origin, bytes⟩

end Bzip2

end SectorVault
