import SectorVault.Compression.PrefixCode

/-!
# Inflating

Deflated data is a row of blocks.  A block is stored, and then its bytes follow as they are, or it
is coded, and then its symbols follow: a symbol is a byte, the end of the block, or a length, in
which case a distance follows and that many bytes are repeated from that far back.  The codes of the
symbols and of the distances are fixed or are transmitted at the start of the block.

The decoder is a machine (`Inflater`) of which every step reads at least one bit, but for the step
that leaves a stored block.  So it takes at most two steps for a bit of input, and `inflate` needs no
other bound.  It hands its output out through a window of 32768 bytes, the greatest distance, and
works ahead as far as the window.

## What is refused

* a block of the third, reserved kind;
* a stored block whose length and its complement disagree;
* transmitted codes with more symbols than the format has, or with a run that repeats nothing or
  goes too far;
* an incomplete code for the code lengths, and an incomplete code for symbols or distances unless it
  is empty or has one string, of one bit;
* a string that no symbol has, and a symbol that has no meaning.

A distance that reaches back before the first byte of output is not refused: what was never written
reads as zero.

Decoders of the format do not agree on all of this, least of all on incomplete codes: there are some that
take a lone string of any length.  This one was seen to refuse it, in the symbols as in the distances, and
even where the string is never read, as in the block `0de0010100000080106cf5ff4425`: it has one byte,
repeats nothing, and its only distance has a string of two bits.
-/

namespace SectorVault

namespace Deflate

/-! ## The window -/

/-- The greatest distance over which bytes are repeated. -/
def windowSize : Nat := 32768

/-- The most recent output, as a ring. -/
structure Window where
  /-- The ring; the place of a byte is its index in the output modulo the size of the ring. -/
  ring : Array UInt8
  /-- The number of bytes output so far. -/
  written : Nat

namespace Window

/-- The window before the first byte. -/
def empty : Window := ⟨Array.replicate windowSize 0, 0⟩

/-- The window after one more byte. -/
def push : Window → UInt8 → Window
  | ⟨ring, written⟩, byte => ⟨ring.setIfInBounds (written % windowSize) byte, written + 1⟩

/-- The byte `distance` places back. -/
def back (window : Window) (distance : Nat) : UInt8 :=
  (window.ring[(window.written + windowSize - distance) % windowSize]?).getD 0

/-- Repeats `count` bytes from `distance` back; `copied` holds those already repeated, the last one
first.  A count above the distance repeats what it has itself written. -/
def repeatBack (distance : Nat) : Nat → Window → Bytes → Bytes × Window
  | 0, window, copied => (copied.reverse, window)
  | count + 1, window, copied =>
    let byte := window.back distance
    repeatBack distance count (window.push byte) (byte :: copied)

end Window

/-! ## Codes -/

/-- The code whose symbols have the given lengths.  It is as deep as its longest string and at least
one bit deep, so a bit that starts no string is refused as soon as it is read, and even the empty code
reads a bit to find that it has no string. -/
def codeOf (lengths : List Nat) : PrefixCode :=
  PrefixCode.ofLengths (lengths.foldl max 1) lengths

/-- The lengths of the fixed code for symbols. -/
def fixedLengths : List Nat :=
  List.replicate 144 8 ++ List.replicate 112 9 ++ List.replicate 24 7 ++ List.replicate 8 8

/-- The fixed code for symbols. -/
def fixedSymbols : PrefixCode := codeOf fixedLengths

/-- The fixed code for distances. -/
def fixedDistances : PrefixCode := codeOf (List.replicate 32 5)

/-- The order in which the lengths of the code for code lengths are transmitted. -/
def lengthOrder : List Nat := [16, 17, 18, 0, 8, 7, 9, 6, 10, 5, 11, 4, 12, 3, 13, 2, 14, 1, 15]

/-- The shortest repetition each length symbol stands for, and the number of extra bits that add to
it; the first of these symbols is 257. -/
def lengthTable : Array (Nat × Nat) :=
  #[(3, 0), (4, 0), (5, 0), (6, 0), (7, 0), (8, 0), (9, 0), (10, 0), (11, 1), (13, 1), (15, 1),
    (17, 1), (19, 2), (23, 2), (27, 2), (31, 2), (35, 3), (43, 3), (51, 3), (59, 3), (67, 4),
    (83, 4), (99, 4), (115, 4), (131, 5), (163, 5), (195, 5), (227, 5), (258, 0)]

/-- The shortest distance each distance symbol stands for, and the number of extra bits that add to
it. -/
def distanceTable : Array (Nat × Nat) :=
  #[(1, 0), (2, 0), (3, 0), (4, 0), (5, 1), (7, 1), (9, 2), (13, 2), (17, 3), (25, 3), (33, 4),
    (49, 4), (65, 5), (97, 5), (129, 6), (193, 6), (257, 7), (385, 7), (513, 8), (769, 8), (1025, 9),
    (1537, 9), (2049, 10), (3073, 10), (4097, 11), (6145, 11), (8193, 12), (12289, 12), (16385, 13),
    (24577, 13)]

/-- The value a symbol of a table stands for, read with its extra bits. -/
def tableValue (table : Array (Nat × Nat)) (symbol : Nat) : BitReader Nat :=
  match table[symbol]? with
  | some (base, extra) => return base + (← BitReader.number extra)
  | none => BitReader.corrupt

/-- Reads transmitted code lengths until there are `total` or more of them, in at most `fuel`
steps; `done` holds those already read, the last one first. -/
def readLengths (code : PrefixCode) (total : Nat) : Nat → List Nat → BitReader (List Nat)
  | 0, _ => BitReader.corrupt
  | fuel + 1, done => do
    if total ≤ done.length then
      BitReader.require (done.length == total)
      return done.reverse
    else
      match ← code.read with
      | 16 =>
        match done with
        | [] => BitReader.corrupt
        | last :: _ =>
          let count := 3 + (← BitReader.number 2)
          readLengths code total fuel (List.replicate count last ++ done)
      | 17 =>
        let count := 3 + (← BitReader.number 3)
        readLengths code total fuel (List.replicate count 0 ++ done)
      | 18 =>
        let count := 11 + (← BitReader.number 7)
        readLengths code total fuel (List.replicate count 0 ++ done)
      | length => readLengths code total fuel (length :: done)

/-- Whether a transmitted code for symbols or distances may be used: it is complete, or it has at most
one string, and that of one bit.  A lone string of more bits makes the code unusable. -/
def isUsable (code : PrefixCode) : Bool :=
  code.isComplete || (code.used ≤ 1 && code.depth ≤ 1)

/-- Reads the codes for symbols and distances that a block transmits. -/
def readCodes : BitReader (PrefixCode × PrefixCode) := do
  let symbolCount := 257 + (← BitReader.number 5)
  let distanceCount := 1 + (← BitReader.number 5)
  let lengthCount := 4 + (← BitReader.number 4)
  BitReader.require (symbolCount ≤ 286 && distanceCount ≤ 30)
  let transmitted ← BitReader.repeatedly (BitReader.number 3) lengthCount
  let ordered := lengthOrder.zip transmitted
  let lengthCode := PrefixCode.ofLengths 7 <|
    (List.range 19).map fun symbol => (ordered.lookup symbol).getD 0
  BitReader.require lengthCode.isComplete
  let total := symbolCount + distanceCount
  let lengths ← readLengths lengthCode total (total + 1) []
  let distances := codeOf (lengths.drop symbolCount)
  let symbols := codeOf (lengths.take symbolCount)
  BitReader.require (isUsable distances && isUsable symbols)
  return (symbols, distances)

/-! ## The machine -/

/-- What the decoder is in the middle of. -/
inductive Mode where
  /-- Between two blocks. -/
  | between
  /-- In a stored block with some bytes left. -/
  | stored (left : Nat)
  /-- In a coded block. -/
  | coded (symbols distances : PrefixCode)

/-- The state of the decoder. -/
structure Inflater where
  /-- What the decoder is in the middle of. -/
  mode : Mode
  /-- Whether the current block is the last one. -/
  last : Bool
  /-- The most recent output. -/
  window : Window

/-- What a step of the decoder comes to, besides moving the cursor. -/
inductive Outcome where
  /-- The last block has ended. -/
  | ended
  /-- The decoder is in a new mode and has output nothing. -/
  | entered (mode : Mode) (last : Bool)
  /-- The decoder outputs a byte and stays in a mode. -/
  | literal (byte : UInt8) (mode : Mode)
  /-- The decoder repeats bytes and stays in a coded block. -/
  | repetition (length distance : Nat)

/-- A block has ended. -/
def endBlock (last : Bool) : Outcome :=
  if last then .ended else .entered .between false

/-- Reads the start of a block. -/
def readBlockStart : BitReader Outcome := do
  let last := (← BitReader.bit) == 1
  match ← BitReader.number 2 with
  | 0 =>
    BitReader.align
    let length ← BitReader.number 16
    let complement ← BitReader.number 16
    BitReader.require (length + complement == 0xFFFF)
    return if length = 0 then endBlock last else .entered (.stored length) last
  | 1 => return .entered (.coded fixedSymbols fixedDistances) last
  | 2 =>
    let (symbols, distances) ← readCodes
    return .entered (.coded symbols distances) last
  | _ => BitReader.corrupt

/-- Reads one step's worth of input. -/
def readOutcome (mode : Mode) (last : Bool) : BitReader Outcome :=
  match mode with
  | .between => readBlockStart
  | .stored 0 => return endBlock last
  | .stored (left + 1) => return .literal (← BitReader.byte) (.stored left)
  | .coded symbols distances => do
    let symbol ← symbols.read
    if symbol < 256 then
      return .literal (UInt8.ofNat symbol) mode
    else if symbol = 256 then
      return endBlock last
    else
      let length ← tableValue lengthTable (symbol - 257)
      let distanceSymbol ← distances.read
      let distance ← tableValue distanceTable distanceSymbol
      return .repetition length distance

/-- One step of the decoder. -/
def step : Inflater × BitCursor → ByteStream.Step (Inflater × BitCursor) Nat
  | (⟨mode, last, window⟩, cursor) =>
    match (readOutcome mode last).run cursor with
    | .error fault => .fault fault
    | .ok (.ended, cursor) => .halt cursor.byteOffset
    | .ok (.entered mode last, cursor) => .silent (⟨mode, last, window⟩, cursor)
    | .ok (.literal byte mode, cursor) => .emit byte [] (⟨mode, last, window.push byte⟩, cursor)
    | .ok (.repetition length distance, cursor) =>
      match window.repeatBack distance length [] with
      | ([], window) => .silent (⟨mode, last, window⟩, cursor)
      | (byte :: bytes, window) => .emit byte bytes (⟨mode, last, window⟩, cursor)

/-- The bytes deflated in `bytes` from an offset on; the result is the offset of the first byte
after them. -/
def inflate (bytes : Array UInt8) (offset : Nat) : ByteStream Nat :=
  let cursor := BitCursor.start .lowFirst bytes offset
  (ByteStream.unfold step (2 * cursor.remaining + 2) (⟨.between, false, Window.empty⟩, cursor)).inPortions
    windowSize

end Deflate

end SectorVault
