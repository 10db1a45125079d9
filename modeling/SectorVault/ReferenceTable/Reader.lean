import SectorVault.Bytes
import SectorVault.ErrorClass

/-!
# Readers of reference tables

A table is read from its start to its end without going back, so a reader is a computation that takes
bytes off the front of a string.  A reader that needs a byte too many fails, and so does one that
comes upon a contradiction: `TableError` tells the two apart.  What a reader has not taken it has not
seen, so bytes behind a table do not matter.
-/

namespace SectorVault

/-! ## Failures -/

/-- Why bytes are no reference table. -/
inductive TableError where
  /-- No protocol has this number. -/
  | unsupportedProtocol (number : UInt8)
  /-- The table ends too early. -/
  | truncated
  /-- An id of the group at this ordinal, or of one of its files, is beyond the range of ids. -/
  | idOverflow (ordinal : Nat)
  deriving DecidableEq, Repr

namespace TableError

/-- What a failure is called. -/
def message : TableError → String
  | .unsupportedProtocol number => s!"unsupported reference table protocol {number}"
  | .truncated => "reference table truncated: failed to fill whole buffer"
  | .idOverflow ordinal => s!"id overflow at ordinal {ordinal}"

/-- The class of a failure. -/
def errorClass : TableError → ErrorClass
  | .unsupportedProtocol _ => .format
  | .truncated | .idOverflow _ => .corruption

end TableError

/-! ## Readers -/

/-- A computation that takes bytes off the front of a string. -/
abbrev TableReader := StateT Bytes (Except TableError)

namespace TableReader

/-- Takes one byte. -/
def byte : TableReader UInt8 := fun bytes =>
  match bytes with
  | b :: rest => .ok (b, rest)
  | [] => .error .truncated

/-- Takes two bytes as a number. -/
def short : TableReader Nat := fun bytes =>
  match bytes with
  | b0 :: b1 :: rest => .ok (bigEndian [b0, b1], rest)
  | _ => .error .truncated

/-- Takes four bytes as an unsigned word. -/
def word : TableReader UInt32 := fun bytes =>
  match bytes with
  | b0 :: b1 :: b2 :: b3 :: rest => .ok (wordOf [b0, b1, b2, b3], rest)
  | _ => .error .truncated

/-- Takes four bytes as a signed word. -/
def signed : TableReader Int32 := do
  return (← word).toInt32

/-- Runs one reader after another for the elements of a list, from first to last; `done` holds what
they have read, the last one first. -/
def eachFrom {α β : Type} (read : α → TableReader β) :
    List α → List β → Bytes → Except TableError (List β × Bytes)
  | [], done, bytes => .ok (done.reverse, bytes)
  | a :: as, done, bytes =>
    match read a bytes with
    | .ok (b, rest) => eachFrom read as (b :: done) rest
    | .error error => .error error

/-- Runs one reader after another for the elements of a list. -/
def each {α β : Type} (as : List α) (read : α → TableReader β) : TableReader (List β) :=
  fun bytes => eachFrom read as [] bytes

end TableReader

end SectorVault
