import Mathlib
import SectorVault.NameHash
import SectorVault.Overflow

/-!
# The hash of a name is a polynomial in its bytes

A byte more multiplies the hash by 31 and adds the byte, as long as words are taken for what they are
modulo `2 ^ 32` (`toInt_extendHash`).  Whether a word is read as signed, and which bits the shift drops,
makes no difference there.  So to hash on from some hash is to evaluate a polynomial that has this hash in
front (`toInt_foldl_extendHash`), and the hash of a name is the value at 31 of the polynomial whose
coefficients are its bytes, the first one for the highest power.

The difference and the sum in a step are meant to wrap around.  The shift is not, but a shift overflows by
its distance only, and the distance is always five bits.
-/

namespace SectorVault

/-! ## Words modulo `2 ^ 32` -/

theorem toInt_add_modEq (a b : Int32) : (a + b).toInt ≡ a.toInt + b.toInt [ZMOD 2 ^ 32] := by
  rw [Int32.toInt_add]
  exact Int.bmod_emod

theorem toInt_sub_modEq (a b : Int32) : (a - b).toInt ≡ a.toInt - b.toInt [ZMOD 2 ^ 32] := by
  rw [Int32.toInt_sub]
  exact Int.bmod_emod

/-- A shift by five bits multiplies by 32; the bits that it drops do not count. -/
theorem toInt_shiftLeft_modEq (a : Int32) : (a <<< 5).toInt ≡ a.toInt * 32 [ZMOD 2 ^ 32] := by
  have shift : a <<< 5 = a * 32 := by
    apply Int32.toBitVec_inj.1
    rw [Int32.toBitVec_shiftLeft, Int32.toBitVec_mul]
    exact BitVec.shiftLeft_eq_mul_twoPow a.toBitVec 5
  rw [shift, Int32.toInt_mul]
  exact Int.bmod_emod

theorem toInt_byte (byte : UInt8) : byte.toUInt32.toInt32.toInt = byte.toNat := by
  have small : byte.toNat < 2 ^ 8 := byte.toNat_lt
  have same : byte.toUInt32.toInt32.toBitVec.toNat = byte.toNat := UInt8.toNat_toUInt32 byte
  have read := BitVec.toInt_eq_toNat_of_lt (x := byte.toUInt32.toInt32.toBitVec) (by omega)
  rwa [same] at read

/-- There is only one signed word for each residue. -/
theorem eq_of_toInt_modEq {a b : Int32} (same : a.toInt ≡ b.toInt [ZMOD 2 ^ 32]) : a = b := by
  have above := a.le_toInt
  have below := a.toInt_lt
  have above' := b.le_toInt
  have below' := b.toInt_lt
  apply Int32.toInt_inj.1
  unfold Int.ModEq at same
  omega

/-! ## Polynomials -/

/-- The value at 31 of the polynomial whose coefficients are the given bytes, the first one for the
highest power. -/
def valueAt31 (bytes : List UInt8) : ℤ :=
  ∑ i : Fin bytes.length, (bytes[i].toNat : ℤ) * 31 ^ (bytes.length - 1 - i)

theorem valueAt31_cons (byte : UInt8) (bytes : List UInt8) :
    valueAt31 (byte :: bytes) = byte.toNat * 31 ^ bytes.length + valueAt31 bytes := by
  unfold valueAt31
  simp only [List.length_cons]
  rw [Fin.sum_univ_succ]
  congr 1
  refine Finset.sum_congr rfl fun i _ => ?_
  have power : bytes.length + 1 - 1 - (i.succ : ℕ) = bytes.length - 1 - i := by
    rw [Fin.val_succ]
    omega
  rw [power]
  rfl

/-- One step of hashing. -/
theorem toInt_extendHash (hash : Int32) (byte : UInt8) :
    (extendHash hash byte).toInt ≡ hash.toInt * 31 + byte.toNat [ZMOD 2 ^ 32] := by
  have shifted := toInt_shiftLeft_modEq hash
  calc (extendHash hash byte).toInt
      ≡ (hash <<< 5 - hash).toInt + byte.toUInt32.toInt32.toInt [ZMOD 2 ^ 32] :=
        toInt_add_modEq _ _
    _ ≡ (hash <<< 5).toInt - hash.toInt + byte.toUInt32.toInt32.toInt [ZMOD 2 ^ 32] :=
        (toInt_sub_modEq _ _).add_right _
    _ ≡ hash.toInt * 32 - hash.toInt + byte.toUInt32.toInt32.toInt [ZMOD 2 ^ 32] :=
        (shifted.sub_right _).add_right _
    _ = hash.toInt * 31 + byte.toNat := by rw [toInt_byte]; ring

/-- Hashing on from some hash. -/
theorem toInt_foldl_extendHash (hash : Int32) (bytes : List UInt8) :
    (bytes.foldl extendHash hash).toInt ≡
      hash.toInt * 31 ^ bytes.length + valueAt31 bytes [ZMOD 2 ^ 32] := by
  induction bytes generalizing hash with
  | nil => simp [valueAt31]
  | cons byte bytes ih =>
    calc ((byte :: bytes).foldl extendHash hash).toInt
        ≡ (extendHash hash byte).toInt * 31 ^ bytes.length + valueAt31 bytes [ZMOD 2 ^ 32] :=
          ih (extendHash hash byte)
      _ ≡ (hash.toInt * 31 + byte.toNat) * 31 ^ bytes.length + valueAt31 bytes [ZMOD 2 ^ 32] :=
          ((toInt_extendHash hash byte).mul_right _).add_right _
      _ = hash.toInt * 31 ^ (byte :: bytes).length + valueAt31 (byte :: bytes) := by
          rw [valueAt31_cons, List.length_cons]
          ring

theorem toInt_hashBytes (bytes : List UInt8) :
    (hashBytes bytes).toInt ≡ valueAt31 bytes [ZMOD 2 ^ 32] := by
  have start := toInt_foldl_extendHash 0 bytes
  rwa [Int32.toInt_zero, zero_mul, zero_add] at start

theorem toInt_hashBytes_append (bytes more : List UInt8) :
    (hashBytes (bytes ++ more)).toInt ≡
      (hashBytes bytes).toInt * 31 ^ more.length + (hashBytes more).toInt [ZMOD 2 ^ 32] := by
  have joined : hashBytes (bytes ++ more) = more.foldl extendHash (hashBytes bytes) :=
    List.foldl_append
  rw [joined]
  exact (toInt_foldl_extendHash _ more).trans ((toInt_hashBytes more).symm.add_left _)

/-! ## Overflow -/

/-- A word shifted to the left.  It is an overflow if the distance is not less than the number of bits of a
word; bits that leave the word are none. -/
def Overflow.shiftLeft (overflow : Overflow) (word distance : Int32) : Option Int32 :=
  if 0 ≤ distance ∧ distance < 32 then some (word <<< distance)
  else match overflow with
    | .stops => none
    | .wraps => some (word <<< (distance &&& 31))

/-- The hash after one more byte, if the run does not stop. -/
def extendHashUnder (overflow : Overflow) (hash : Int32) (byte : UInt8) : Option Int32 := do
  let shifted ← overflow.shiftLeft hash 5
  return shifted - hash + byte.toUInt32.toInt32

/-- The hash of a name, if the run does not stop. -/
def nameHashUnder (overflow : Overflow) (name : String) : Option Int32 :=
  name.toUTF8.data.toList.foldlM (extendHashUnder overflow) 0

theorem nameHashUnder_eq (overflow : Overflow) (name : String) :
    nameHashUnder overflow name = some (nameHash name) := by
  have step : extendHashUnder overflow = fun hash byte => pure (extendHash hash byte) := by
    funext hash byte
    rfl
  unfold nameHashUnder
  rw [step]
  exact List.foldlM_pure

/-! ## Names -/

/-- **The hash of a name is a polynomial.**  Of all signed words it is the one that is, modulo `2 ^ 32`, the
sum of the bytes of the name, each multiplied by 31 as often as there are bytes behind it.  So the hash of
two names in a row is that of the first one, multiplied by 31 for every byte of the second one, plus that of
the second one.  And it does not depend on what becomes of overflows, as there are none. -/
theorem nameHash_eq_polynomial (name : String) :
    let bytes := name.toUTF8.data.toList
    (∀ hash : Int32, hash = nameHash name ↔
      hash.toInt ≡ ∑ i : Fin bytes.length, (bytes[i].toNat : ℤ) * 31 ^ (bytes.length - 1 - i)
        [ZMOD 2 ^ 32]) ∧
    (∀ other : String, (nameHash (name ++ other)).toInt ≡
      (nameHash name).toInt * 31 ^ other.utf8ByteSize + (nameHash other).toInt [ZMOD 2 ^ 32]) ∧
    (∀ overflow, nameHashUnder overflow name = some (nameHash name)) := by
  intro bytes
  have value : (nameHash name).toInt ≡ valueAt31 bytes [ZMOD 2 ^ 32] := toInt_hashBytes bytes
  refine ⟨fun hash => ⟨?_, fun same => ?_⟩, fun other => ?_, fun overflow => ?_⟩
  · rintro rfl
    exact value
  · exact eq_of_toInt_modEq (same.trans value.symm)
  · have joined : (name ++ other).toUTF8.data.toList = bytes ++ other.toUTF8.data.toList := by
      simp [bytes]
    have length : other.toUTF8.data.toList.length = other.utf8ByteSize := by simp
    unfold nameHash
    rw [joined, ← length]
    exact toInt_hashBytes_append bytes other.toUTF8.data.toList
  · exact nameHashUnder_eq overflow name

/-- A name with a character of two bytes. -/
example : nameHash "é" = 195 * 31 + 169 := by decide

end SectorVault
