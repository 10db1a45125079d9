import SectorVault.Cache

/-!
# Handles

A handle is a cache as a caller without error values sees it: there is a cache or there is none, and
a read gives bytes or nothing.  Paths and names come as strings of bytes that a zero byte ends, or not
at all, and have to be UTF-8.  Reading through a handle without a cache gives nothing.
-/

namespace SectorVault

/-- A cache, or nothing. -/
abbrev Handle := Option Cache

namespace Handle

/-- The text of a string of bytes that a zero byte may end, if it is UTF-8. -/
def textOf? (bytes : Bytes) : Option String :=
  String.fromUTF8? ⟨(bytes.takeWhile (· != 0)).toArray⟩

/-- Opens the cache at a path with the usual options; `directoryAt` is what there is at each path. -/
def openAt (directoryAt : String → Directory) (path : Option Bytes) : Handle := do
  let path ← textOf? (← path)
  (Cache.ofDirectory (directoryAt path) {}).toOption

/-- Runs an operation of the cache and keeps the cache as it is afterwards. -/
def onCache {α : Type} (handle : Handle) (operation : Cache → Except CacheError α × Cache) :
    Option α × Handle :=
  match handle with
  | none => (none, none)
  | some cache =>
    let (result, cache) := operation cache
    (result.toOption, some cache)

/-- The contents of a file, by the numbers of archive, group and file. -/
def read (handle : Handle) (number : UInt8) (group file : UInt32) (key : Option Key) :
    Option Bytes × Handle :=
  handle.onCache fun cache => cache.read number group file key

/-- The contents of a file, by the name of its group. -/
def readNamed (handle : Handle) (number : UInt8) (name : Option Bytes) (file : UInt32)
    (key : Option Key) : Option Bytes × Handle :=
  match name.bind textOf? with
  | some name => handle.onCache fun cache => cache.readNamed number name file key
  | none => (none, handle)

end Handle

end SectorVault
