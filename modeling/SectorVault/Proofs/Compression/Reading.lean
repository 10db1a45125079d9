import Mathlib
import SectorVault.Compression.Stream
import SectorVault.Proofs.Outcomes

/-!
# Reading a stream up to a limit

A stream is its bytes and the way it ends (`bytes`, `ending`); as it is met when it is asked again and
again, it is a list of events, of which the last one is the end (`events`).

Reading asks for events until there is an end or the limit is reached.  If there are as many bytes as that,
the way the stream ends is never seen; otherwise it decides (`readUpTo_eq`).  So reading depends on as many
events as the limit says (`take_congr`), and the same can be said of every moment of it: a byte that is
taken uses up room for one, so the bytes taken and the room that is left always add up to the limit, and
without room the rest of the stream is not looked at (`Moment.DuringReading`).
-/

namespace SectorVault
namespace ByteStream

variable {α : Type}

/-! ## What a stream holds -/

/-- All bytes that a stream hands out, however it ends. -/
def bytes : ByteStream α → Bytes
  | .finished _ => []
  | .failed _ => []
  | .next byte rest => byte :: bytes (rest ())

/-- How a stream ends. -/
def ending : ByteStream α → Except Fault α
  | .finished result => .ok result
  | .failed fault => .error fault
  | .next _ rest => ending (rest ())

/-- What a stream does when it is asked once. -/
inductive Event (α : Type) where
  /-- It hands out a byte. -/
  | byte (byte : UInt8)
  /-- It ends cleanly. -/
  | finished (result : α)
  /-- It fails. -/
  | failed (fault : Fault)
  deriving DecidableEq, Repr

/-- All that a stream does when it is asked until it ends. -/
def events : ByteStream α → List (Event α)
  | .finished result => [.finished result]
  | .failed fault => [.failed fault]
  | .next byte rest => .byte byte :: events (rest ())

/-! ## Up to a limit -/

/-- A stream that has enough bytes is read up to the limit, and any other one until it ends. -/
theorem readUpTo_eq (limit : Nat) (stream : ByteStream α) (taken : Bytes) :
    readUpTo limit stream taken =
      if limit ≤ stream.bytes.length then .ok (taken.reverse ++ stream.bytes.take limit)
      else stream.ending.map fun _ => taken.reverse ++ stream.bytes := by
  induction limit generalizing stream taken with
  | zero => simp [readUpTo]
  | succ limit ih =>
    cases stream with
    | finished result => simp [readUpTo, bytes, ending, Except.map]
    | failed fault => simp [readUpTo, bytes, ending, Except.map]
    | next byte rest =>
      rw [readUpTo, ih]
      simp [bytes, ending]

theorem take_eq (limit : Nat) (stream : ByteStream α) :
    stream.take limit =
      if limit ≤ stream.bytes.length then .ok (stream.bytes.take limit)
      else stream.ending.map fun _ => stream.bytes :=
  readUpTo_eq limit stream []

/-- Reading depends on no more events than the limit says. -/
theorem readUpTo_congr {limit : Nat} {stream stream' : ByteStream α}
    (same : stream'.events.take limit = stream.events.take limit) (taken : Bytes) :
    readUpTo limit stream' taken = readUpTo limit stream taken := by
  induction limit generalizing stream stream' taken with
  | zero => rfl
  | succ limit ih =>
    -- the first events are equal, so both streams are of one form
    cases stream <;> cases stream' <;>
      simp only [events, List.take_succ_cons, List.cons.injEq, reduceCtorEq, false_and,
        Event.byte.injEq, Event.failed.injEq] at same
    · rfl
    · rw [readUpTo, readUpTo, same.1]
    · rw [readUpTo, readUpTo, same.1]
      exact ih same.2 _

theorem take_congr {limit : Nat} {stream stream' : ByteStream α}
    (same : stream'.events.take limit = stream.events.take limit) :
    stream'.take limit = stream.take limit :=
  readUpTo_congr same []

/-! ## From moment to moment -/

/-- A moment of reading. -/
structure Moment (α : Type) where
  /-- How many bytes may still be asked for. -/
  room : Nat
  /-- What is left of the stream. -/
  rest : ByteStream α
  /-- The bytes taken so far, the last one first. -/
  taken : Bytes

namespace Moment

/-- The moment at which reading begins. -/
def start (limit : Nat) (stream : ByteStream α) : Moment α := ⟨limit, stream, []⟩

/-- What reading comes to from a moment on. -/
def outcome (moment : Moment α) : Except Fault Bytes :=
  readUpTo moment.room moment.rest moment.taken

/-- One byte is asked for and taken. -/
inductive Takes : Moment α → Moment α → Prop
  | byte (room : Nat) (byte : UInt8) (rest : Unit → ByteStream α) (taken : Bytes) :
    Takes ⟨room + 1, .next byte rest, taken⟩ ⟨room, rest (), byte :: taken⟩

/-- Where reading has come to at a moment: it is on the way to its outcome, it has taken a front of the
stream, and it has room for the rest of the limit. -/
structure DuringReading (limit : Nat) (stream : ByteStream α) (moment : Moment α) : Prop where
  outcome_eq : moment.outcome = stream.take limit
  bytes_eq : moment.taken.reverse ++ moment.rest.bytes = stream.bytes
  room_eq : moment.taken.length + moment.room = limit

variable {limit : Nat} {stream : ByteStream α} {moment moment' : Moment α}

theorem duringReading_start (limit : Nat) (stream : ByteStream α) :
    DuringReading limit stream (start limit stream) :=
  ⟨rfl, rfl, Nat.zero_add limit⟩

theorem DuringReading.takes (during : DuringReading limit stream moment)
    (takes : Takes moment moment') : DuringReading limit stream moment' := by
  obtain ⟨room, byte, rest, taken⟩ := takes
  refine ⟨during.outcome_eq, ?_, ?_⟩
  · rw [← during.bytes_eq]
    simp [bytes]
  · rw [← during.room_eq]
    simp only [List.length_cons]
    omega

/-- Every moment that reading comes through is such a one. -/
theorem duringReading_of_run (run : Relation.ReflTransGen Takes (start limit stream) moment) :
    DuringReading limit stream moment := by
  induction run with
  | refl => exact duringReading_start limit stream
  | tail _ takes during => exact during.takes takes

/-- Once the limit is reached, what is left of the stream makes no difference. -/
theorem DuringReading.outcome_of_full (during : DuringReading limit stream moment)
    (full : moment.taken.length = limit) (rest : ByteStream α) :
    outcome { moment with rest := rest } = stream.take limit := by
  have room : moment.room = 0 := by
    have := during.room_eq
    omega
  rw [← during.outcome_eq, outcome, outcome, room]
  rfl

end Moment

end ByteStream
end SectorVault
