import Mathlib
import SectorVault.Proofs.Bytes
import SectorVault.ReferenceTable.Encoding

/-!
# What a reader takes off the front

`Reads reader bytes a` says that a reader takes exactly `bytes` off the front of any string that
starts with them, and reads `a`.  Whatever follows is left as it is, so readers that run one after
another read strings that stand one after another (`Reads.bind`), and a reader that runs once for every
element of a list reads the strings of all elements (`reads_each`).  With these rules the reading of a
table is followed field by field, in the order in which it is written.
-/

namespace SectorVault

/-- Off the front of any string that starts with `bytes`, a reader takes these and reads `a`. -/
def Reads {α : Type} (reader : TableReader α) (bytes : Bytes) (a : α) : Prop :=
  ∀ rest, reader (bytes ++ rest) = .ok (a, rest)

namespace Reads

variable {α β : Type}

theorem pure (a : α) : Reads (Pure.pure a) [] a := fun _ => rfl

theorem bind {reader : TableReader α} {next : α → TableReader β} {bytes bytes' : Bytes} {a : α}
    {b : β} (first : Reads reader bytes a) (second : Reads (next a) bytes' b) :
    Reads (reader >>= next) (bytes ++ bytes') b := by
  intro rest
  have h : (reader >>= next) (bytes ++ bytes' ++ rest) =
      (reader (bytes ++ bytes' ++ rest)).bind fun read => next read.1 read.2 := rfl
  rw [h, List.append_assoc, first]
  exact second rest

/-- A reader whose answer is put through a function. -/
theorem map {reader : TableReader α} {bytes : Bytes} {a : α} (first : Reads reader bytes a)
    (f : α → β) : Reads (do return f (← reader)) bytes (f a) := by
  have h : Reads (reader >>= fun a => Pure.pure (f a)) (bytes ++ []) (f a) :=
    first.bind (Reads.pure (f a))
  rwa [List.append_nil] at h

theorem of_eq {reader : TableReader α} {bytes bytes' : Bytes} {a a' : α}
    (reads : Reads reader bytes a) (sameBytes : bytes = bytes') (same : a = a') :
    Reads reader bytes' a' := by
  subst sameBytes same
  exact reads

end Reads

/-! ## Fields -/

namespace TableReader

theorem reads_byte (b : UInt8) : Reads byte [b] b := fun _ => rfl

theorem reads_short {n : Nat} (h : n < 2 ^ 16) : Reads short (toBigEndian 2 n) n := by
  intro rest
  obtain ⟨b0, b1, field⟩ := List.length_eq_two.1 (length_toBigEndian 2 n)
  have value : bigEndian [b0, b1] = n := by
    rw [← field, bigEndian_toBigEndian_of_lt (by omega)]
  rw [field]
  simp only [List.cons_append, List.nil_append, short, value]

theorem reads_word_of_length {bytes : Bytes} (h : bytes.length = 4) :
    Reads word bytes (wordOf bytes) := by
  intro rest
  obtain ⟨b0, b1, b2, b3, rfl⟩ := List.length_eq_four.1 h
  rfl

theorem reads_word (w : UInt32) : Reads word (ofWord w) w :=
  (reads_word_of_length (length_ofWord w)).of_eq rfl (wordOf_ofWord w)

theorem reads_signed (w : Int32) : Reads signed (ofSigned w) w := by
  have h := (reads_word w.toUInt32).map UInt32.toInt32
  rwa [Int32.toInt32_toUInt32] at h

/-- A reader that runs for every element of a list reads the strings of all of them. -/
theorem reads_each {ι α β : Type} {items : List ι} {read : α → TableReader β} {element : ι → α}
    {bytes : ι → Bytes} {value : ι → β}
    (reads : ∀ item ∈ items, Reads (read (element item)) (bytes item) (value item)) :
    Reads (each (items.map element) read) (items.flatMap bytes) (items.map value) := by
  intro rest
  have go : ∀ (items : List ι) (done : List β),
      (∀ item ∈ items, Reads (read (element item)) (bytes item) (value item)) →
      eachFrom read (items.map element) done (items.flatMap bytes ++ rest) =
        .ok (done.reverse ++ items.map value, rest) := by
    intro items
    induction items with
    | nil =>
      intro done _
      simp [eachFrom]
    | cons item items ih =>
      intro done reads
      have first := reads item (by simp) (items.flatMap bytes ++ rest)
      have others := ih (value item :: done) fun i h => reads i (by simp [h])
      rw [List.map_cons, List.flatMap_cons, List.append_assoc, eachFrom, first]
      simp only [others]
      simp
  exact go items [] reads

end TableReader

/-! ## Fields of a protocol -/

namespace Protocol

theorem and_0x80_of_lt : ∀ n < 128, UInt8.ofNat n &&& 0x80 = 0 := by decide

theorem and_0x80_of_ge : ∀ n < 128, UInt8.ofNat (128 + n) &&& 0x80 ≠ 0 := by decide

/-- The number of a field of four bytes is all of the word but its first bit. -/
theorem toNat_and_mask (w : UInt32) : (w &&& 0x7FFFFFFF).toNat = w.toNat % 2 ^ 31 := by
  have mask : (0x7FFFFFFF : UInt32).toNat = 2 ^ 31 - 1 := rfl
  rw [UInt32.toNat_and, mask, Nat.and_two_pow_sub_one_eq_mod]

theorem reads_variableField {n : Nat} (h : n < 2 ^ 31) :
    Reads variableField (variableWidth.encodeField n) n := by
  intro rest
  by_cases narrow : n < 0x8000
  · have bytes : variableWidth.encodeField n = toBigEndian 2 n := by
      simp [encodeField, narrow]
    have front : toBigEndian 2 n = [UInt8.ofNat (n / 256), UInt8.ofNat n] := rfl
    have clear : UInt8.ofNat (n / 256) &&& 0x80 = 0 := and_0x80_of_lt _ (by omega)
    rw [bytes, front]
    simp only [List.cons_append, variableField, clear, if_true]
    exact TableReader.reads_short (by omega) rest
  · have bytes : variableWidth.encodeField n = toBigEndian 4 (0x80000000 + n) := by
      simp [encodeField, narrow]
    have front : toBigEndian 4 (0x80000000 + n) =
        UInt8.ofNat (128 + n / 2 ^ 24) :: toBigEndian 3 (0x80000000 + n) := by
      have top : (0x80000000 + n) / 256 / 256 / 256 = 128 + n / 2 ^ 24 := by omega
      simp [toBigEndian, top]
    have set : UInt8.ofNat (128 + n / 2 ^ 24) &&& 0x80 ≠ 0 := and_0x80_of_ge _ (by omega)
    have value : (UInt32.ofNat (0x80000000 + n) &&& 0x7FFFFFFF).toNat = n := by
      rw [toNat_and_mask, UInt32.toNat_ofNat']
      omega
    have word : wordOf (toBigEndian 4 (0x80000000 + n)) = UInt32.ofNat (0x80000000 + n) := by
      rw [wordOf, bigEndian_toBigEndian_of_lt (by omega)]
    have reads := TableReader.reads_word_of_length (length_toBigEndian 4 (0x80000000 + n)) rest
    rw [word, front] at reads
    rw [bytes, front]
    simp only [List.cons_append] at reads ⊢
    simp only [variableField, set, if_false, StateT.map, reads, bind, Except.bind]
    rw [value]
    rfl

theorem reads_field {protocol : Protocol} {n : Nat} (h : protocol.Fits n) :
    Reads protocol.field (protocol.encodeField n) n := by
  cases protocol with
  | unversioned => exact TableReader.reads_short (Nat.lt_succ_of_le h)
  | versioned => exact TableReader.reads_short (Nat.lt_succ_of_le h)
  | variableWidth => exact reads_variableField h

end Protocol
end SectorVault
