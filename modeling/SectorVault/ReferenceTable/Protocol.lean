import SectorVault.ReferenceTable.Reader

/-!
# Protocols of reference tables

A reference table starts with the number of its protocol.  The protocols differ in two respects:
from the second one on a table has a revision, and in the third one counts and differences of ids are
of variable width.  Such a field takes two bytes if the first bit is clear and otherwise four, of
which that bit is not part of the number; in the other two protocols it always takes two.
-/

namespace SectorVault

/-- A protocol of reference tables. -/
inductive Protocol where
  /-- Without a revision. -/
  | unversioned
  /-- With a revision. -/
  | versioned
  /-- With a revision and fields of variable width. -/
  | variableWidth
  deriving DecidableEq, Repr

namespace Protocol

/-- The number of a protocol. -/
def number : Protocol → UInt8
  | .unversioned => 5
  | .versioned => 6
  | .variableWidth => 7

/-- The protocol with a number. -/
def ofNumber (number : UInt8) : Except TableError Protocol :=
  match number with
  | 5 => .ok .unversioned
  | 6 => .ok .versioned
  | 7 => .ok .variableWidth
  | _ => .error (.unsupportedProtocol number)

/-- Whether tables of a protocol have a revision. -/
def hasRevision : Protocol → Bool
  | .unversioned => false
  | .versioned | .variableWidth => true

/-- Takes a field of variable width. -/
def variableField : TableReader Nat := fun bytes =>
  match bytes with
  | b :: _ =>
    if b &&& 0x80 = 0 then TableReader.short bytes
    else (TableReader.word.map fun w => (w &&& 0x7FFFFFFF).toNat) bytes
  | [] => .error .truncated

/-- Takes a count, or a difference of ids. -/
def field : Protocol → TableReader Nat
  | .unversioned | .versioned => TableReader.short
  | .variableWidth => variableField

/-- The fields at the front of a string, up to `count` of them, and whether the string ended before
there were that many; `done` holds those already read, the last one first. -/
def fields (protocol : Protocol) : Nat → List Nat → Bytes → List Nat × Bool
  | 0, done, _ => (done.reverse, false)
  | count + 1, done, bytes =>
    match protocol.field bytes with
    | .ok (n, rest) => protocol.fields count (n :: done) rest
    | .error _ => (done.reverse, true)

/-- The bytes of a count, or of a difference of ids, that the protocol can hold. -/
def encodeField (protocol : Protocol) (n : Nat) : Bytes :=
  match protocol with
  | .unversioned | .versioned => toBigEndian 2 n
  | .variableWidth => if n < 0x8000 then toBigEndian 2 n else toBigEndian 4 (0x80000000 + n)

end Protocol

end SectorVault
