import SectorVault.Bytes
import SectorVault.ErrorClass

/-!
# Index files

Every archive has an index file, which says where in the data file each of its records is.  It is a
row of locators of six bytes, one for each group id: the length of the record and its first sector,
three bytes each.  Bytes behind the last whole locator do not count, and the locators are counted
in a word.

A locator whose first sector is zero stands for a record that does not exist; one behind the end of
the file is an error.
-/

namespace SectorVault

/-- Why an index file does not give a locator. -/
inductive IndexError where
  /-- The file could not be opened. -/
  | unopenable
  /-- The file has no locator at this ordinal. -/
  | endOfFile (archive : UInt8) (ordinal : UInt32) (recordCount : Nat)
  deriving DecidableEq, Repr

namespace IndexError

/-- What a failure is called. -/
def message : IndexError → String
  | .unopenable => "io error: cannot open file"
  | .endOfFile archive ordinal recordCount =>
    s!"record {ordinal} is beyond the end of index {archive} ({recordCount} records)"

/-- The class of a failure. -/
def errorClass : IndexError → ErrorClass
  | .unopenable => .unreadable
  | .endOfFile _ _ _ => .notFound

end IndexError

/-- Where a record starts in the data file, and how long it is. -/
structure Locator where
  /-- The first sector; zero if there is no record. -/
  startSector : Nat
  /-- The length of the record. -/
  byteLength : Nat
  deriving DecidableEq, Repr

/-- The index file of an archive. -/
structure IndexFile where
  /-- The archive that the file is of. -/
  archive : UInt8
  /-- The contents. -/
  bytes : Array UInt8

namespace IndexFile

/-- The number of bytes a locator takes. -/
def locatorSize : Nat := 6

/-- The number of locators, which is kept in a word. -/
def recordCount (index : IndexFile) : Nat :=
  index.bytes.size / locatorSize % UInt32.size

/-- The locator that six bytes stand for. -/
def locatorOf (bytes : Bytes) : Locator where
  byteLength := bigEndian (bytes.take 3)
  startSector := bigEndian (bytes.drop 3)

/-- The locator in the record at an ordinal. -/
def locatorAt (index : IndexFile) (ordinal : Nat) : Locator :=
  locatorOf (slice index.bytes (locatorSize * ordinal) (locatorSize * (ordinal + 1)))

/-- The locator of a record. -/
def locator (index : IndexFile) (ordinal : UInt32) : Except IndexError Locator :=
  if ordinal.toNat < index.recordCount then .ok (index.locatorAt ordinal.toNat)
  else .error (.endOfFile index.archive ordinal index.recordCount)

/-- Whether there is a record at an ordinal. -/
def isLive (index : IndexFile) (ordinal : Nat) : Bool :=
  (index.locatorAt ordinal).startSector != 0

/-- The ordinals at which there is a record, in ascending order. -/
def live (index : IndexFile) : List Nat :=
  (List.range index.recordCount).filter index.isLive

end IndexFile

end SectorVault
