import SectorVault.Compression.Request

/-!
# The supply of input

A decoder of block-sorted streams is given its input in pieces of a fixed size.  It is given a piece
when the one before is used up, but only between two answers: either a new request begins, or all of
the current piece is read and there is still nothing to hand out.  While it answers a request it sees
the input up to the end of its piece and nothing beyond.

A `Supply` keeps account of this: how much of the input is read, how much is visible, and how far the
current request is answered.
-/

namespace SectorVault

namespace Bzip2

/-- How much of its input a decoder has read, and sees. -/
structure Supply where
  /-- The number of bytes of input already read. -/
  used : Nat
  /-- The end of the piece of input that the decoder has been given. -/
  visible : Nat
  /-- The request that is being answered. -/
  request : Request
  deriving DecidableEq, Repr

namespace Supply

/-- The size of a piece of input. -/
def pieceSize : Nat := 8192

/-- The supply at the start of a stream. -/
def start : Supply := ⟨0, pieceSize, Request.first⟩

/-- The supply when the input is read up to an offset.  If that is beyond the current piece, a request
that is partly answered ends, and the next one gets the pieces up to that offset. -/
def readTo (supply : Supply) (offset : Nat) : Supply :=
  if offset ≤ supply.visible then { supply with used := offset }
  else
    { used := offset
      visible := (offset + pieceSize - 1) / pieceSize * pieceSize
      request := if supply.request.answered = 0 then supply.request else supply.request.next }

/-- The supply when one more byte of output is handed out.  If that takes a new request, the decoder
is given the piece that it would read from next. -/
def handOut (supply : Supply) : Supply :=
  if supply.request.isFull then
    { supply with
      visible := (supply.used / pieceSize + 1) * pieceSize
      request := supply.request.next.answer }
  else { supply with request := supply.request.answer }

end Supply

end Bzip2

end SectorVault
