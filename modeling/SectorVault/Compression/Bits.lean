import SectorVault.Compression.Stream

/-!
# Reading bits

Compressed data is a string of bits that ignores the bounds of bytes.  The two formats this library
reads disagree on the order of the bits in a byte, and on which bit of a number comes first: one
starts at the low end in both respects, the other at the high end.  A `BitCursor` knows its order
and its position, counted in bits from the start, and a `BitReader` is a computation that moves a
cursor and fails when the bits run out.
-/

namespace SectorVault

/-- Which end of a byte, and of a number, comes first. -/
inductive BitOrder where
  /-- The lowest bit of a byte first; a number starts with its lowest bit. -/
  | lowFirst
  /-- The highest bit of a byte first; a number starts with its highest bit. -/
  | highFirst
  deriving DecidableEq, Repr

/-- A place in a string of bits. -/
structure BitCursor where
  /-- The order of the bits in a byte. -/
  order : BitOrder
  /-- The bytes that are read. -/
  bytes : Array UInt8
  /-- The number of bits already read. -/
  position : Nat

/-- A computation that reads bits. -/
abbrev BitReader := StateT BitCursor (Except Fault)

namespace BitCursor

/-- The start of a byte string, from byte `offset` on. -/
def start (order : BitOrder) (bytes : Array UInt8) (offset : Nat) : BitCursor :=
  ⟨order, bytes, 8 * offset⟩

/-- The number of bits not yet read. -/
def remaining (cursor : BitCursor) : Nat :=
  8 * cursor.bytes.size - cursor.position

/-- The bit under the cursor, as 0 or 1. -/
def peek? (cursor : BitCursor) : Option Nat :=
  match cursor.bytes[cursor.position / 8]? with
  | none => none
  | some byte =>
    let place := cursor.position % 8
    let shift := match cursor.order with
      | .lowFirst => place
      | .highFirst => 7 - place
    some (byte.toNat >>> shift % 2)

/-- The cursor moved past one bit. -/
def advance (cursor : BitCursor) : BitCursor :=
  { cursor with position := cursor.position + 1 }

/-- The offset of the next whole byte. -/
def byteOffset (cursor : BitCursor) : Nat :=
  (cursor.position + 7) / 8

end BitCursor

namespace BitReader

/-- Reads one bit. -/
def bit : BitReader Nat := fun cursor =>
  match cursor.peek? with
  | some b => .ok (b, cursor.advance)
  | none => .error .exhausted

/-- Reads `count` more bits of a number of which `done` bits, of value `value`, were read. -/
def extend : Nat → Nat → Nat → BitReader Nat
  | 0, _, value => pure value
  | count + 1, done, value => do
    let b ← bit
    let cursor ← get
    match cursor.order with
    | .lowFirst => extend count (done + 1) (value + b <<< done)
    | .highFirst => extend count (done + 1) (2 * value + b)

/-- Reads a number of `count` bits. -/
def number (count : Nat) : BitReader Nat :=
  extend count 0 0

/-- Reads one byte, whatever the cursor's place in the current byte. -/
def byte : BitReader UInt8 := do
  return UInt8.ofNat (← number 8)

/-- Skips to the next whole byte. -/
def align : BitReader Unit :=
  modify fun cursor => { cursor with position := 8 * cursor.byteOffset }

/-- Gives up on the input. -/
def corrupt {α : Type} : BitReader α := throw .corrupt

/-- Gives up on the input unless a condition holds. -/
def require (condition : Bool) : BitReader Unit :=
  if condition then pure () else corrupt

/-- Reads `count` more items in a row; `done` holds those already read, the last one first. -/
def repeatFrom {α : Type} (item : BitReader α) :
    Nat → List α → BitCursor → Except Fault (List α × BitCursor)
  | 0, done, cursor => .ok (done.reverse, cursor)
  | count + 1, done, cursor =>
    match item cursor with
    | .ok (a, cursor) => repeatFrom item count (a :: done) cursor
    | .error fault => .error fault

/-- Reads `count` items in a row. -/
def repeatedly {α : Type} (item : BitReader α) (count : Nat) : BitReader (List α) :=
  fun cursor => repeatFrom item count [] cursor

end BitReader

end SectorVault
