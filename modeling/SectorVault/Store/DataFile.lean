import SectorVault.Store.IndexFile

/-!
# The data file

All records of all archives are in one data file, which is divided into sectors of 520 bytes.  A
record is cut into parts, each part is in a sector of its own, and each sector points to the next
one, so a record is a chain of sectors in any order.  A sector starts with a header, which says whose
part it is:

* the id of the group, in two bytes, or in four if it does not fit two,
* the number of the part, in two bytes, from zero on,
* the next sector of the chain, in three bytes, or zero at its end,
* the archive, in one byte.

So a sector holds 512 bytes of a record, or 510 if its header is of the extended kind.

## Following a chain

A locator that points to sector zero, or beyond the file, stands for an absent record, which reads
as empty.  From there on everything has to agree.  For each part, in this order: the chain must not
have ended; the header and as many bytes as the record has left must be in the file; the header must
name the group, the part and the archive; and the next sector must not be beyond the file.  Only then
do the bytes of the part count.  The numbers of the parts make a chain that runs into itself an error.

The file may end within the last sector, right behind the bytes that are needed.  The sectors are
counted by their whole number in the file, in a word, and that count is itself a sector that may be
pointed to.
-/

namespace SectorVault

/-- The header of a sector. -/
structure SectorHeader where
  /-- The id of the group that the sector is of. -/
  owner : UInt32
  /-- The number of the part that the sector holds. -/
  part : UInt16
  /-- The next sector of the chain, or zero. -/
  nextSector : Nat
  /-- The archive that the group is of. -/
  archive : UInt8
  deriving DecidableEq, Repr

/-- How a header is shown in a message. -/
def SectorHeader.text (header : SectorHeader) : String :=
  s!"SectorHeader \x7b owner_id: {header.owner}, part: {header.part}, " ++
    s!"next_sector: {header.nextSector}, category: {header.archive} \x7d"

/-! ## Failures -/

/-- Why a record cannot be read from the data file. -/
inductive SectorError where
  /-- The file could not be opened. -/
  | unopenable
  /-- The chain ended after `read` bytes of `length`. -/
  | truncatedChain (archive : UInt8) (owner : UInt32) (read length : Nat)
  /-- A sector is not of the record, or not of this part of it. -/
  | sectorMismatch (sector : Nat) (expected found : SectorHeader)
  /-- A sector points beyond the file. -/
  | outOfRange (archive : UInt8) (owner : UInt32) (sector nextSector sectorCount : Nat)
  /-- The file ends within the bytes of a sector that are needed. -/
  | shortRead (archive : UInt8) (owner : UInt32) (sector : Nat)
  deriving DecidableEq, Repr

namespace SectorError

/-- What a failure is called. -/
def message : SectorError → String
  | .unopenable => "io error: cannot open file"
  | .truncatedChain archive owner read length =>
    s!"chain of group {owner} in archive {archive} ended after {read} of {length} bytes"
  | .sectorMismatch sector expected found =>
    s!"sector {sector} mismatch (expected {expected.text}, found {found.text})"
  | .outOfRange archive owner sector nextSector sectorCount =>
    s!"sector {sector} of group {owner} in archive {archive} points to sector {nextSector}, " ++
      s!"beyond the {sectorCount} sectors of the data file"
  | .shortRead archive owner sector =>
    s!"sector {sector} of group {owner} in archive {archive} runs past the end of the data file"

/-- The class of a failure. -/
def errorClass : SectorError → ErrorClass
  | .unopenable => .unreadable
  | .truncatedChain _ _ _ _ | .sectorMismatch _ _ _ | .outOfRange _ _ _ _ _
  | .shortRead _ _ _ => .corruption

end SectorError

/-! ## Sectors -/

/-- The data file. -/
structure DataFile where
  /-- The contents. -/
  bytes : Array UInt8

/-- Whose record a chain of sectors is. -/
structure Owner where
  /-- The archive that the group is of. -/
  archive : UInt8
  /-- The id of the group. -/
  group : UInt32
  deriving DecidableEq, Repr

namespace Owner

/-- Whether an owner's headers are of the extended kind. -/
def isExtended (owner : Owner) : Bool := 0xFFFF < owner.group

/-- The number of bytes of an owner's headers. -/
def headerSize (owner : Owner) : Nat := if owner.isExtended then 10 else 8

/-- The number of bytes of a sector. -/
def sectorSize : Nat := 520

/-- The number of bytes of a record that one of an owner's sectors holds. -/
def payloadSize (owner : Owner) : Nat := sectorSize - owner.headerSize

/-- The header that an owner's sector starts with. -/
def headerOf (owner : Owner) (bytes : Bytes) : SectorHeader :=
  let idSize := if owner.isExtended then 4 else 2
  let rest := bytes.drop idSize
  { owner := wordOf (bytes.take idSize)
    part := UInt16.ofNat (bigEndian (rest.take 2))
    nextSector := bigEndian ((rest.drop 2).take 3)
    archive := (rest.drop 5).headD 0 }

/-- The header of the sector with a part of an owner's record. -/
def header (owner : Owner) (part : UInt16) (nextSector : Nat) : SectorHeader :=
  ⟨owner.group, part, nextSector, owner.archive⟩

/-- The bytes of the header of the sector with a part of an owner's record. -/
def encodeHeader (owner : Owner) (part : UInt16) (nextSector : Nat) : Bytes :=
  toBigEndian (if owner.isExtended then 4 else 2) owner.group.toNat ++
    toBigEndian 2 part.toNat ++ toBigEndian 3 nextSector ++ [owner.archive]

end Owner

namespace DataFile

/-- The number of whole sectors in the file, which is kept in a word. -/
def sectorCount (file : DataFile) : Nat :=
  file.bytes.size / Owner.sectorSize % UInt32.size

/-- Whether a locator points to a sector of the file. -/
def holds (file : DataFile) (locator : Locator) : Bool :=
  locator.startSector != 0 && locator.startSector ≤ file.sectorCount

/-- Reads part `i` of a record of `length` bytes from a sector: the bytes of the part and the next
sector.  The number in the header has two bytes, so parts are numbered modulo its range. -/
def readPart (file : DataFile) (owner : Owner) (length i sector : Nat) :
    Except SectorError (Bytes × Nat) :=
  let before := i * owner.payloadSize
  if sector = 0 then .error (.truncatedChain owner.archive owner.group before length)
  else
    let start := Owner.sectorSize * sector
    let body := start + owner.headerSize
    let stop := body + min (length - before) owner.payloadSize
    if file.bytes.size < stop then .error (.shortRead owner.archive owner.group sector)
    else
      let found := owner.headerOf (slice file.bytes start body)
      let expected := owner.header (UInt16.ofNat i) found.nextSector
      if found ≠ expected then .error (.sectorMismatch sector expected found)
      else if file.sectorCount < found.nextSector then
        .error (.outOfRange owner.archive owner.group sector found.nextSector file.sectorCount)
      else .ok (slice file.bytes body stop, found.nextSector)

/-- What following a chain comes to. -/
structure ChainReading where
  /-- The bytes of the parts that were in order, part by part. -/
  parts : List Bytes
  /-- The failure that ended the chain before its time. -/
  failure : Option SectorError

/-- The bytes of a reading in one piece. -/
def ChainReading.bytes (reading : ChainReading) : Bytes := reading.parts.flatten

/-- Reads `count` more parts of a record of `length` bytes, from part `i` on, which is in `sector`;
`done` holds the parts already read, the last one first. -/
def followFrom (file : DataFile) (owner : Owner) (length : Nat) :
    Nat → Nat → Nat → List Bytes → ChainReading
  | 0, _, _, done => ⟨done.reverse, none⟩
  | count + 1, i, sector, done =>
    match file.readPart owner length i sector with
    | .error error => ⟨done.reverse, some error⟩
    | .ok (bytes, next) => file.followFrom owner length count (i + 1) next (bytes :: done)

/-- The number of parts of a record of `length` bytes. -/
def partCount (owner : Owner) (length : Nat) : Nat :=
  (length + owner.payloadSize - 1) / owner.payloadSize

/-- Follows the chain that a locator points to. -/
def follow (file : DataFile) (owner : Owner) (locator : Locator) : ChainReading :=
  if file.holds locator then
    file.followFrom owner locator.byteLength (partCount owner locator.byteLength) 0
      locator.startSector []
  else ⟨[], none⟩

/-- Reads the record that a locator points to behind the bytes of a buffer.  The answer is the buffer
afterwards, which on failure holds the parts before the broken one, and the failure if there is
one. -/
def readInto (file : DataFile) (owner : Owner) (locator : Locator) (buffer : Bytes) :
    Bytes × Option SectorError :=
  let reading := file.follow owner locator
  (buffer ++ reading.bytes, reading.failure)

/-- Reads the record that a locator points to. -/
def read (file : DataFile) (owner : Owner) (locator : Locator) : Except SectorError Bytes :=
  let reading := file.follow owner locator
  match reading.failure with
  | some error => .error error
  | none => .ok reading.bytes

end DataFile

end SectorVault
