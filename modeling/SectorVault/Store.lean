import SectorVault.Store.DataFile

/-!
# Stores

A store hands out the stored bytes of groups, each named by its archive and its id, and lists the
groups that an archive has.  One archive is set apart: its groups are the reference tables of all the
others, so the group with the number of an archive holds the table of that archive.

Both functions of a store are pure: asking a store twice gives the same answer twice.
-/

namespace SectorVault

/-- The archive whose groups are the reference tables of every other archive. -/
def masterArchive : UInt8 := 255

/-- Why a store does not hand out the bytes of a group. -/
inductive StoreError where
  /-- The record is broken. -/
  | sector (error : SectorError)
  /-- The index file gives no locator. -/
  | index (error : IndexError)
  /-- The store has no such archive. -/
  | archiveNotFound (archive : UInt8)
  deriving DecidableEq, Repr

namespace StoreError

/-- What a failure is called. -/
def message : StoreError → String
  | .sector error => s!"sector store error: {error.message}"
  | .index error => s!"index store error: {error.message}"
  | .archiveNotFound archive => s!"archive {archive} does not exist"

/-- The class of a failure. -/
def errorClass : StoreError → ErrorClass
  | .sector error => error.errorClass
  | .index error => error.errorClass
  | .archiveNotFound _ => .notFound

/-- Whether the group is behind the last record of its index file. -/
def isBeyondIndex : StoreError → Bool
  | .index (.endOfFile _ _ _) => true
  | .index .unopenable | .sector _ | .archiveNotFound _ => false

end StoreError

/-- A source of the stored bytes of groups. -/
structure Store where
  /-- The ids of the groups that an archive has. -/
  list : UInt8 → Except StoreError (List UInt32)
  /-- The stored bytes of a group; empty if its record points nowhere. -/
  read : UInt8 → UInt32 → Except StoreError Bytes

end SectorVault
