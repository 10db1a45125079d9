import SectorVault.Container

/-!
# Failures of groups

What can go wrong between the stored bytes of a group and one of its files: the bytes do not decode,
the packed files contradict themselves, or the file that is asked for is not among them.

Some of it is never handed to a caller: a sum that overflows, memory that is not there and a chunk beyond the
end of all the bytes end the run (`GroupError.endsRun`).
-/

namespace SectorVault

/-- Why a file cannot be had from the stored bytes of a group. -/
inductive GroupError where
  /-- The bytes are a container that does not decode. -/
  | container (error : ContainerError)
  /-- The table of chunk lengths ends too early. -/
  | unexpectedEnd
  /-- The table of chunk lengths, for this many rows and files, is longer than all the bytes. -/
  | trailerTooLarge (chunks : UInt8) (fileCount length : Nat)
  /-- A chunk has a negative length. -/
  | negativeChunk (ordinal : Nat) (length : Int)
  /-- The chunks are longer than the bytes before the table. -/
  | chunkOverflow (needed available : Nat)
  /-- A sum over lengths of chunks leaves its word. -/
  | sumOverflow
  /-- More memory is asked for at once than can be asked for. -/
  | capacityOverflow
  /-- The files are longer than any memory. -/
  | outOfMemory
  /-- A chunk is cut out beyond the end of all the bytes. -/
  | outOfBounds
  /-- The group has no file of this id. -/
  | fileNotFound (group file : UInt32)
  /-- The group has no file whose name has this hash. -/
  | namedFileNotFound (group : UInt32) (nameHash : Int32)
  /-- The file has no entry of this id. -/
  | entryNotFound (file entry : UInt32)
  deriving DecidableEq, Repr

namespace GroupError

/-- What a failure is called. -/
def message : GroupError → String
  | .container error => s!"compression error: {error.message}"
  | .unexpectedEnd => "io error: failed to fill whole buffer"
  | .trailerTooLarge chunks fileCount length =>
    s!"trailer of {chunks} chunks for {fileCount} files does not fit in {length} bytes"
  | .negativeChunk ordinal length =>
    s!"negative chunk length {length} for file ordinal {ordinal}"
  | .chunkOverflow needed available =>
    s!"chunks need {needed} bytes but only {available} precede the trailer"
  | .sumOverflow => "attempt to add with overflow"
  | .capacityOverflow => "capacity overflow"
  | .outOfMemory => "memory allocation failed"
  | .outOfBounds => "chunk out of range"
  | .fileNotFound group file => s!"file {file} not found in group {group}"
  | .namedFileNotFound group nameHash =>
    s!"file with name hash {nameHash} not found in group {group}"
  | .entryNotFound file entry => s!"entry {entry} not found in file {file}"

/-- The class of a failure. -/
def errorClass : GroupError → ErrorClass
  | .container error => error.errorClass
  | .unexpectedEnd => .unreadable
  | .trailerTooLarge _ _ _ | .negativeChunk _ _ | .chunkOverflow _ _ | .sumOverflow
  | .capacityOverflow | .outOfMemory | .outOfBounds => .corruption
  | .fileNotFound _ _ | .namedFileNotFound _ _ | .entryNotFound _ _ => .notFound

/-- Nothing catches the failure: there is no answer, as the run is over. -/
def endsRun : GroupError → Bool
  | .sumOverflow | .capacityOverflow | .outOfMemory | .outOfBounds => true
  | .container _ | .unexpectedEnd | .trailerTooLarge _ _ _ | .negativeChunk _ _ | .chunkOverflow _ _
  | .fileNotFound _ _ | .namedFileNotFound _ _ | .entryNotFound _ _ => false

end GroupError

end SectorVault
