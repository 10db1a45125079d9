/-!
# Requests for output

A reader that collects a whole stream does not ask for it byte by byte.  It keeps what it has in a
buffer and asks for as much as the buffer has room for, and a decoder answers a request as far as it
can.  How a stream is divided into requests never changes its bytes, but it decides when a decoder
gets to see more of its input, and so how much a decoder knows when it hands out a byte.

The first request is made before there is a buffer and is a small one, since the stream may be empty.
The buffer then has the size of the answer.  A buffer that is full grows to twice its size, or by the
size of the first request if that is more.  No request is greater than a bound, which is doubled when
a request of that size is answered in full.
-/

namespace SectorVault

/-- A request for output, as far as it is answered. -/
structure Request where
  /-- The number of bytes collected so far. -/
  collected : Nat
  /-- The size of the buffer; zero before there is one. -/
  capacity : Nat
  /-- The greatest number of bytes that is asked for. -/
  bound : Nat
  /-- The number of bytes asked for. -/
  asked : Nat
  /-- The number of bytes already handed out. -/
  answered : Nat
  deriving DecidableEq, Repr

namespace Request

/-- The size of the first request, and the least growth of a buffer. -/
def firstSize : Nat := 32

/-- The least size of a buffer. -/
def leastCapacity : Nat := 8

/-- The request that begins a stream. -/
def first : Request where
  collected := 0
  capacity := 0
  bound := 8192
  asked := firstSize
  answered := 0

/-- Whether all that was asked for is handed out. -/
def isFull (request : Request) : Bool := request.asked ≤ request.answered

/-- The size of the buffer once there is room in it. -/
def grown (request : Request) : Nat :=
  let capacity :=
    if request.capacity = 0 then max leastCapacity request.collected else request.capacity
  if capacity ≤ request.collected then max (2 * capacity) (request.collected + firstSize)
  else capacity

/-- The request after one that is answered as far as it will be. -/
def next (request : Request) : Request :=
  let bound :=
    if request.isFull && request.bound ≤ request.asked then 2 * request.bound else request.bound
  { request with
    capacity := request.grown
    bound := bound
    asked := min (request.grown - request.collected) bound
    answered := 0 }

/-- The request with one more byte handed out. -/
def answer (request : Request) : Request :=
  { request with collected := request.collected + 1, answered := request.answered + 1 }

end Request

end SectorVault
