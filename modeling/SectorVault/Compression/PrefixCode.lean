import SectorVault.Compression.Bits

/-!
# Canonical prefix codes

Both compressed formats assign to every symbol a string of bits, none of which starts another, and
transmit only the lengths of these strings.  The strings follow from the lengths: shorter ones come
first, strings of one length are given to the symbols in ascending order, and every string is the
successor, as a binary number, of the one before it.

So a code is known by how many strings there are of each length and by its symbols in the order of
their strings.  Reading a symbol takes a bit at a time and keeps the number read so far relative to
the first string of the current length; the symbol is found at the first length at which that number
is below the count.  No table is built, and lengths that leave strings unassigned, or assign more
than there are, need no special care: a number that never falls below a count belongs to no symbol.
-/

namespace SectorVault

/-- A canonical prefix code. -/
structure PrefixCode where
  /-- The number of strings of each length, from length one on. -/
  counts : List Nat
  /-- The symbols in the order of their strings. -/
  symbols : Array Nat

namespace PrefixCode

/-- The symbols of one length, in ascending order; a symbol is its index in `lengths`. -/
def symbolsOfLength (lengths : List Nat) (length : Nat) : List Nat :=
  lengths.zipIdx.filterMap fun (l, symbol) => if l = length then some symbol else none

/-- The code whose symbols have the given lengths.  Length zero means that a symbol is not used;
strings are at most `depth` bits long. -/
def ofLengths (depth : Nat) (lengths : List Nat) : PrefixCode :=
  let byLength := (List.range depth).map fun l => symbolsOfLength lengths (l + 1)
  ⟨byLength.map List.length, (byLength.flatten).toArray⟩

/-- The number of bits after which a string that no symbol has is refused. -/
def depth (code : PrefixCode) : Nat := code.counts.length

/-- The number of symbols a code assigns strings to. -/
def used (code : PrefixCode) : Nat := code.symbols.size

/-- Whether the code leaves no string unassigned and assigns none twice: the strings of each length,
extended in all ways to the greatest length, are together as many as there are. -/
def isComplete (code : PrefixCode) : Bool :=
  let (total, unit) := code.counts.foldl (fun (total, unit) c => (2 * total + c, 2 * unit)) (0, 1)
  total == unit

/-- Reads a symbol: `index` symbols have shorter strings, and `excess` is the number read so far
less the first string of the length before. -/
def walk (symbols : Array Nat) : List Nat → Nat → Nat → BitReader Nat
  | [], _, _ => BitReader.corrupt
  | count :: counts, index, excess => do
    let b ← BitReader.bit
    let excess := 2 * excess + b
    if excess < count then
      match symbols[index + excess]? with
      | some symbol => pure symbol
      | none => BitReader.corrupt
    else walk symbols counts (index + count) (excess - count)

/-- Reads one symbol. -/
def read (code : PrefixCode) : BitReader Nat :=
  walk code.symbols code.counts 0 0

end PrefixCode

end SectorVault
