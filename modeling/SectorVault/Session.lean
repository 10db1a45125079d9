import SectorVault.ChecksumTable

/-!
# Sessions

A session is one cache that is asked for one thing after another.  Everything that can be asked of a
cache is an `Operation`, which comes with the type of its answer, so that a session is a list of
operations.  Performing one gives the answer and the cache as it is afterwards, and the next one is
performed on that.

A question about the table of an archive may be any function of the table, so looking groups up, by
whatever means, needs no operations of its own.
-/

namespace SectorVault

namespace Cache

/-- What can be asked of a cache, by the type of the answer. -/
inductive Operation : Type → Type 1 where
  /-- A question about the reference table of an archive. -/
  | ask {α : Type} (number : UInt8) (question : ReferenceTable → α) :
      Operation (Except CacheError α)
  /-- The contents of a file. -/
  | read (number : UInt8) (group file : UInt32) (key : Option Key) :
      Operation (Except CacheError Bytes)
  /-- The contents of a file, by the name of its group. -/
  | readNamed (number : UInt8) (name : String) (file : UInt32) (key : Option Key) :
      Operation (Except CacheError Bytes)
  /-- One entry of a file. -/
  | readEntry (number : UInt8) (group file entry : UInt32) (count : UInt64) (key : Option Key) :
      Operation (Except CacheError Entry)
  /-- The stored bytes of a group. -/
  | readRaw (archive : UInt8) (group : UInt32) : Operation (Except CacheError Bytes)
  /-- The stored bytes of the bootstrap record. -/
  | readBootstrap : Operation (Except CacheError Bytes)
  /-- The checksum table. -/
  | checksums : Operation (Except ChecksumError ChecksumTable)

/-- Performs an operation. -/
def Operation.perform {α : Type} (operation : Operation α) (cache : Cache) : α × Cache :=
  match operation with
  | .ask number question =>
    let (table, cache) := cache.table number
    (table.map question, cache)
  | .read number group file key => cache.read number group file key
  | .readNamed number name file key => cache.readNamed number name file key
  | .readEntry number group file entry count key =>
    cache.readEntry number group file entry count key
  | .readRaw archive group => (cache.readRaw archive group, cache)
  | .readBootstrap => (cache.readBootstrap, cache)
  | .checksums => ChecksumTable.ofCache cache

/-- The operations of a session, first one first. -/
abbrev Session := List (Σ α : Type, Operation α)

/-- A cache after a session. -/
def after (cache : Cache) : Session → Cache
  | [] => cache
  | ⟨_, operation⟩ :: session => (operation.perform cache).2.after session

end Cache

end SectorVault
