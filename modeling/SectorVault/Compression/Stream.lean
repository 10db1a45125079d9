import SectorVault.Bytes

/-!
# Lazy byte streams

A decoder hands out its output byte by byte, and may find out that its input is broken long after
the first byte is out.  What it produces is a `ByteStream`: a run of bytes that either finishes,
with a result, or fails, with a `Fault`.  The rest of a stream is computed only when it is asked
for, so a reader that stops early never pays for, and never sees, what lies beyond.

A stream is a well-founded tree and therefore ends, so functions on streams are structural
recursions and need no bound of their own.

## Working ahead

A decoder that fills a buffer before it hands anything out reports a broken input in place of the
buffer it was filling.  `inPortions` turns a stream into the one such a decoder shows: the bytes
come in portions of a fixed size, and when the input turns out to be corrupt while a portion is
being filled, that whole portion is withheld.  An input that merely ends too early is different: it
is the portion that ends, so the bytes decoded from what was there are still handed out.

## Bounded reading

A record says how long its decompressed form is, and the claim is not to be trusted.  `readUpTo`
takes no more bytes than it is told to, so a lying record cannot make the output grow.
-/

namespace SectorVault

/-- Why a decoder cannot go on. -/
inductive Fault where
  /-- The input contradicts its format. -/
  | corrupt
  /-- The input ends where its format needs more. -/
  | exhausted
  deriving DecidableEq, Repr

/-- What a fault is called in a message. -/
def Fault.message : Fault → String
  | .corrupt => "corrupt compressed stream"
  | .exhausted => "unexpected end of compressed stream"

/-- A run of bytes that finishes with a result or fails. -/
inductive ByteStream (α : Type) where
  /-- No more bytes, and nothing went wrong. -/
  | finished (result : α)
  /-- No more bytes, because the input is broken. -/
  | failed (fault : Fault)
  /-- A byte, and what comes after it when asked for. -/
  | next (byte : UInt8) (rest : Unit → ByteStream α)

namespace ByteStream

variable {α β σ : Type}

/-! ## Building streams -/

/-- The bytes of a list, then another stream. -/
def emit : Bytes → (Unit → ByteStream α) → ByteStream α
  | [], rest => rest ()
  | byte :: bytes, rest => .next byte fun _ => emit bytes rest

/-- What a machine does in one step: it stops, it breaks, it changes state in silence, or it hands
out at least one byte and changes state. -/
inductive Step (σ α : Type) where
  /-- The machine has finished. -/
  | halt (result : α)
  /-- The machine cannot go on. -/
  | fault (fault : Fault)
  /-- The machine only changes its state. -/
  | silent (state : σ)
  /-- The machine hands out a byte and some more, and changes its state. -/
  | emit (byte : UInt8) (bytes : Bytes) (state : σ)

/-- The output of a machine that starts in `state` and takes at most `fuel` steps. -/
def unfold (step : σ → Step σ α) : Nat → σ → ByteStream α
  | 0, _ => .failed .exhausted
  | fuel + 1, state =>
    match step state with
    | .halt result => .finished result
    | .fault fault => .failed fault
    | .silent state => unfold step fuel state
    | .emit byte bytes state =>
      .next byte fun _ => ByteStream.emit bytes fun _ => unfold step fuel state

/-! ## Combining streams -/

/-- One stream after another; the second may depend on the first one's result. -/
def andThen : ByteStream α → (α → ByteStream β) → ByteStream β
  | .finished result, continuation => continuation result
  | .failed fault, _ => .failed fault
  | .next byte rest, continuation => .next byte fun _ => andThen (rest ()) continuation

/-- The same stream with a summary of its bytes beside its result: `absorb` takes in one byte. -/
def summarize (absorb : σ → UInt8 → σ) : ByteStream α → σ → ByteStream (α × σ)
  | .finished result, summary => .finished (result, summary)
  | .failed fault, _ => .failed fault
  | .next byte rest, summary =>
    .next byte fun _ => summarize absorb (rest ()) (absorb summary byte)

/-- The stream as seen through a buffer of `size` bytes, of which `room` are free and `held` are
filled, the last one first. -/
def buffered (size : Nat) : ByteStream α → Nat → Bytes → ByteStream α
  | .finished result, _, held => emit held.reverse fun _ => .finished result
  | .failed .corrupt, _, _ => .failed .corrupt
  | .failed .exhausted, _, held => emit held.reverse fun _ => .failed .exhausted
  | .next byte rest, 0, held =>
    emit held.reverse fun _ => buffered size (rest ()) (size - 1) [byte]
  | .next byte rest, room + 1, held => buffered size (rest ()) room (byte :: held)

/-- The stream of a decoder that works ahead by portions of `size` bytes: a portion in the course of
which the input turns out to be corrupt is withheld. -/
def inPortions (size : Nat) (stream : ByteStream α) : ByteStream α :=
  buffered size stream size []

/-! ## Reading streams -/

/-- Takes up to `limit` more bytes and puts them behind `taken`, which holds the last byte first.
A fault counts only if it is met before the limit. -/
def readUpTo : Nat → ByteStream α → Bytes → Except Fault Bytes
  | 0, _, taken => .ok taken.reverse
  | _ + 1, .finished _, taken => .ok taken.reverse
  | _ + 1, .failed fault, _ => .error fault
  | limit + 1, .next byte rest, taken => readUpTo limit (rest ()) (byte :: taken)

/-- The first `limit` bytes of a stream, or all of them if it finishes earlier. -/
def take (limit : Nat) (stream : ByteStream α) : Except Fault Bytes :=
  readUpTo limit stream []

end ByteStream

end SectorVault
