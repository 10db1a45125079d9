import SectorVault.Cache

/-!
# Checksum tables

A checksum table lists, for the reference table of every archive, its checksum and its revision, so
that a client can tell which of its tables are out of date.  The entries are in the order of archive
numbers, and a number that is no archive has an entry of zeros.

The table is built by going through the archives of a cache in the order in which the cache lists
them: the entries so far are cut, or filled up with zeros, to the number of the archive, and its entry
is added.  For a cache that lists its archives in ascending order, nothing is ever cut.
-/

namespace SectorVault

/-- What a checksum table says of one archive. -/
structure ChecksumEntry where
  /-- The checksum of the stored reference table. -/
  crc : UInt32
  /-- The revision of the reference table. -/
  revision : Int32
  deriving DecidableEq, Repr

namespace ChecksumEntry

/-- The entry of a number that is no archive. -/
def zero : ChecksumEntry := ⟨0, 0⟩

/-- The bytes of an entry. -/
def encode (entry : ChecksumEntry) : Bytes :=
  ofWord entry.crc ++ ofSigned entry.revision

end ChecksumEntry

/-- Why there is no checksum table, or why it is refused. -/
inductive ChecksumError where
  /-- An archive of the cache does not load. -/
  | cache (error : CacheError)
  /-- The table has not as many entries as there are trusted checksums. -/
  | lengthMismatch (expected found : Nat)
  /-- A checksum is not the trusted one. -/
  | checksumMismatch (archive : Nat) (expected found : UInt32)
  deriving DecidableEq, Repr

namespace ChecksumError

/-- What a failure is called. -/
def message : ChecksumError → String
  | .cache error => s!"cache error: {error.message}"
  | .lengthMismatch expected found =>
    s!"table has {found} entries but {expected} checksums were given"
  | .checksumMismatch archive expected found =>
    s!"checksum mismatch for archive {archive} " ++
      s!"(expected {hexWord expected}, found {hexWord found})"

/-- The class of a failure. -/
def errorClass : ChecksumError → ErrorClass
  | .cache error => error.errorClass
  | .lengthMismatch _ _ | .checksumMismatch _ _ _ => .corruption

end ChecksumError

/-- The checksums and revisions of all reference tables. -/
structure ChecksumTable where
  /-- The entries in the order of archive numbers. -/
  entries : List ChecksumEntry
  deriving DecidableEq, Repr

namespace ChecksumTable

/-- The entries cut or filled up to a length, and one more. -/
def place (entries : List ChecksumEntry) (number : Nat) (entry : ChecksumEntry) :
    List ChecksumEntry :=
  entries.take number ++ List.replicate (number - entries.length) ChecksumEntry.zero ++ [entry]

/-- Adds the entries of some archives of a cache. -/
def collect : List UInt8 → List ChecksumEntry → Cache →
    Except ChecksumError (List ChecksumEntry) × Cache
  | [], entries, cache => (.ok entries, cache)
  | number :: numbers, entries, cache =>
    match cache.table number with
    | (.ok table, cache) =>
      collect numbers (place entries number.toNat ⟨table.crc, table.revision⟩) cache
    | (.error error, cache) => (.error (.cache error), cache)

/-- The checksum table of a cache. -/
def ofCache (cache : Cache) : Except ChecksumError ChecksumTable × Cache :=
  let (entries, cache) := collect cache.archives [] cache
  (entries.map ChecksumTable.mk, cache)

/-- Compares entries, from a number on, with as many trusted checksums. -/
def compareFrom : Nat → List ChecksumEntry → List UInt32 → Except ChecksumError Unit
  | number, entry :: entries, expected :: trusted =>
    if entry.crc = expected then compareFrom (number + 1) entries trusted
    else .error (.checksumMismatch number expected entry.crc)
  | _, _, _ => .ok ()

/-- Compares a table with trusted checksums. -/
def validate (table : ChecksumTable) (trusted : List UInt32) : Except ChecksumError Unit :=
  if trusted.length = table.entries.length then compareFrom 0 table.entries trusted
  else .error (.lengthMismatch trusted.length table.entries.length)

/-- The bytes of a table. -/
def encode (table : ChecksumTable) : Bytes :=
  table.entries.flatMap ChecksumEntry.encode

end ChecksumTable

end SectorVault
