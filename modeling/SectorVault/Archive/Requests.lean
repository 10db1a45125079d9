import SectorVault.Archive

/-!
# Requests to an archive

An archive is asked for one thing after another, and each answer may change what it remembers.  A
`Request` is anything that it can be asked for, and the archives that can be come by are those that
have answered some requests since they were made.  The checks are not among the requests: they are
part of unpacking, and change nothing.
-/

namespace SectorVault

namespace Archive

/-- What an archive can be asked for. -/
inductive Request where
  /-- The files of a group. -/
  | unpack (group : UInt32) (key : Option Key)
  /-- The contents of a file. -/
  | read (group file : UInt32) (key : Option Key)
  /-- The contents of a file, by the hash of the group's name. -/
  | readHashed (hash : Int32) (file : UInt32) (key : Option Key)
  /-- One entry of a file. -/
  | readEntry (group file entry : UInt32) (count : UInt64) (key : Option Key)
  deriving DecidableEq, Repr

/-- An archive after it has answered a request. -/
def afterRequest (archive : Archive) : Request → Archive
  | .unpack group key => (archive.unpack group key).2
  | .read group file key => (archive.read group file key).2
  | .readHashed hash file key => (archive.readHashed hash file key).2
  | .readEntry group file entry count key => (archive.readEntry group file entry count key).2

/-- An archive after it has answered some requests, first one first. -/
def after (archive : Archive) (requests : List Request) : Archive :=
  requests.foldl afterRequest archive

end Archive

end SectorVault
