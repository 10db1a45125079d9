import SectorVault.Store.DataFile

/-!
# Walking along a chain

`DataFile.follow` says which parts of a record are in order, and knows how many there are before it looks
for the first one.  A machine does not count the parts.  It is given a buffer, which may hold something
already, and adds to it sector by sector until the record has all its bytes.  This is the machine's way:

* what has been read is counted in bytes, and the walk goes on as long as bytes are missing;
* the number of the part is a word of two bytes, which is counted up and wraps around;
* the bytes of a part are added to the buffer as soon as its sector has passed all checks.

When a sector fails, the walk ends there, and the buffer stays as it is.
-/

namespace SectorVault

/-- How far a walk along a chain has come. -/
structure Walk where
  /-- What the buffer holds. -/
  buffer : Bytes
  /-- How many bytes of the record have been read. -/
  read : Nat
  /-- The sector with the next part. -/
  sector : Nat
  /-- The number of the next part. -/
  part : UInt16

namespace DataFile

/-- Reads the next part of a record of `length` bytes. -/
def step (file : DataFile) (owner : Owner) (length : Nat) (walk : Walk) : Except SectorError Walk :=
  if walk.sector = 0 then
    .error (.truncatedChain owner.archive owner.group walk.read length)
  else
    let size := min (length - walk.read) owner.payloadSize
    let start := Owner.sectorSize * walk.sector
    let body := start + owner.headerSize
    if file.bytes.size < body + size then
      .error (.shortRead owner.archive owner.group walk.sector)
    else
      let found := owner.headerOf (slice file.bytes start body)
      if found.owner ≠ owner.group ∨ found.part ≠ walk.part ∨ found.archive ≠ owner.archive then
        .error (.sectorMismatch walk.sector (owner.header walk.part found.nextSector) found)
      else if file.sectorCount < found.nextSector then
        .error (.outOfRange owner.archive owner.group walk.sector found.nextSector file.sectorCount)
      else
        .ok ⟨walk.buffer ++ slice file.bytes body (body + size), walk.read + size, found.nextSector,
          walk.part + 1⟩

/-- A sector that passes has some bytes of the record. -/
theorem read_lt_of_step {file : DataFile} {owner : Owner} {length : Nat} {walk next : Walk}
    (unread : walk.read < length) (passed : file.step owner length walk = .ok next) :
    walk.read < next.read := by
  have positive : 0 < owner.payloadSize := by
    unfold Owner.payloadSize Owner.headerSize Owner.sectorSize
    split <;> omega
  unfold step at passed
  split at passed
  · cases passed
  · simp only at passed
    split at passed
    · cases passed
    · split at passed
      · cases passed
      · split at passed
        · cases passed
        · cases passed
          show walk.read < walk.read + min (length - walk.read) owner.payloadSize
          omega

/-- Reads the parts of a record of `length` bytes that are missing.  The answer is the buffer afterwards,
and the failure that ended the walk before its time, if there is one. -/
def finish (file : DataFile) (owner : Owner) (length : Nat) (walk : Walk) :
    Bytes × Option SectorError :=
  if unread : walk.read < length then
    match passed : file.step owner length walk with
    | .error error => (walk.buffer, some error)
    | .ok next =>
      have := read_lt_of_step unread passed
      file.finish owner length next
  else (walk.buffer, none)
  termination_by length - walk.read

/-- Adds the record that a locator points to to a buffer, which stays as it is if the locator points to no
sector of the file. -/
def extend (file : DataFile) (owner : Owner) (locator : Locator) (buffer : Bytes) :
    Bytes × Option SectorError :=
  if file.holds locator then
    file.finish owner locator.byteLength ⟨buffer, 0, locator.startSector, 0⟩
  else (buffer, none)

end DataFile

end SectorVault
