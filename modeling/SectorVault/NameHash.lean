/-!
# Hashes of names

Names of groups and files are not stored.  A table keeps a 32-bit hash of each name and a lookup by
name hashes the name it is given, so two names are told apart exactly as far as their hashes differ.
The hash of a name is the value of the polynomial in 31 whose coefficients are the bytes of its
UTF-8 form, in wrapping signed arithmetic.  Upper and lower case differ; a caller that wants to
ignore case lowers its names first.
-/

namespace SectorVault

/-- The hash after one more byte: the old hash times 31, plus the byte.  The multiplication is a
shift by five bits less the hash itself, and both wrap. -/
def extendHash (hash : Int32) (byte : UInt8) : Int32 :=
  (hash <<< 5) - hash + byte.toUInt32.toInt32

/-- The hash of a string of bytes. -/
def hashBytes (bytes : List UInt8) : Int32 :=
  bytes.foldl extendHash 0

/-- The hash under which tables list a name. -/
def nameHash (name : String) : Int32 :=
  hashBytes name.toUTF8.data.toList

/-- The hash that stands for the absence of a name. -/
def unnamed : Int32 := -1

end SectorVault
