import SectorVault.Container

/-!
# Sealing containers

How a container is written: the envelope, the packed part enciphered as a whole if there is a key, and
behind it, for a compressed container, the revision if there is one.  Compressing itself is left to
the caller, who hands over the payload and the length of the data it stands for.

The length of the data is enciphered along with the payload, so that the blocks of the cipher start
with it; the envelope and the revision are never enciphered.
-/

namespace SectorVault

namespace Container

/-- The bytes of an envelope. -/
def envelope (compression : Compression) (length : Nat) : Bytes :=
  compression.toByte :: toBigEndian 4 length

/-- The bytes of a revision. -/
def revisionBytes : Option UInt16 → Bytes
  | some revision => toBigEndian 2 revision.toNat
  | none => []

/-- The container of data that is not compressed. -/
def sealPlain (data : Bytes) (key : Option Key) : Bytes :=
  envelope .none data.length ++ encipherWith key data

/-- The container of a payload that stands for `length` bytes of data. -/
def sealCompressed (compression : Compression) (length : Nat) (payload : Bytes) (key : Option Key)
    (revision : Option UInt16) : Bytes :=
  envelope compression payload.length ++ encipherWith key (toBigEndian 4 length ++ payload) ++
    revisionBytes revision

end Container

end SectorVault
