/-!
# Overflow

The sum of two words need not be a word.  What comes of it then is not for the program to say that adds, but
for the machine that runs it: some stop there, and some drop what does not fit and go on.  So whatever adds
words without meaning them to wrap around takes an `Overflow` that says which.  The program runs on a machine
that stops; the other one is there to be reasoned about.
-/

namespace SectorVault

/-- What comes of an operation that overflows and is not meant to. -/
inductive Overflow where
  /-- The run stops. -/
  | stops
  /-- What does not fit is dropped. -/
  | wraps
  deriving DecidableEq, Repr

namespace Overflow

/-- What an operation comes to, if the run does not stop: `fits` says whether its value is a word, and
`word` is what is left of the value in a word. -/
def settle {α : Type} (overflow : Overflow) (fits : Bool) (word : α) : Option α :=
  match overflow, fits with
  | .stops, false => none
  | _, _ => some word

/-- The sum of two double words. -/
def add (overflow : Overflow) (a b : UInt64) : Option UInt64 :=
  overflow.settle (a.toNat + b.toNat < UInt64.size) (a + b)

/-- The sum of two signed double words. -/
def addSigned (overflow : Overflow) (a b : Int64) : Option Int64 :=
  overflow.settle
    (Int64.minValue.toInt ≤ a.toInt + b.toInt ∧ a.toInt + b.toInt ≤ Int64.maxValue.toInt) (a + b)

/-- The sum of some double words, from the first one to the last. -/
def sum (overflow : Overflow) (words : List UInt64) : Option UInt64 :=
  words.foldlM overflow.add 0

end Overflow

end SectorVault
