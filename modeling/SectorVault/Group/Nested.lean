import SectorVault.Group.Splitter

/-!
# Stored bytes, and files within files

The stored bytes of a group are a container as a rule, but need not be: bytes whose envelope is
refused are taken as they are.  Any other failure to decode them stands.

A file may itself be such a string, holding a bundle of entries.  Nothing says so in the tables, so
the number of entries comes from the caller.  The entries have neither ids nor names of their own:
their ids are their ordinals.  An inner container is never enciphered, whatever the outer one is.
-/

namespace SectorVault

/-- Decodes stored bytes, or answers `none` if they are no container. -/
def openStored (bytes : Bytes) (key : Option Key) (decoders : Decoders := .standard) :
    Except GroupError (Option Container) :=
  match Container.decode bytes key decoders with
  | .ok container => .ok (some container)
  | .error error => if error.rejectsEnvelope then .ok none else .error (.container error)

/-- One entry of a file that is itself a bundle. -/
structure Entry where
  /-- The id of the file. -/
  fileId : UInt32
  /-- The entry's id within the file. -/
  id : UInt32
  /-- The hash of the entry's name. -/
  nameHash : Int32
  /-- The contents. -/
  data : Bytes
  deriving DecidableEq, Repr

namespace File

/-- The entries of a file that is said to hold `count` of them. -/
def entries (file : File) (count : UInt64) : Except GroupError (List Entry) := do
  let data := match ← openStored file.data none with
    | some container => container.data
    | none => file.data
  let files ← Splitter.split data #[] #[] count
  return files.map fun entry => ⟨file.id, entry.id, entry.nameHash, entry.data⟩

/-- The first entry with an id, in a file that is said to hold `count` entries. -/
def entry (file : File) (id : UInt32) (count : UInt64) : Except GroupError Entry := do
  match (← file.entries count).find? fun entry => entry.id == id with
  | some entry => return entry
  | none => throw (.entryNotFound file.id id)

end File

end SectorVault
