import CollectorMemory.Chunk.Basic
import Mathlib.Algebra.Group.Nat.Defs

/-!
# Headers written and read back

A header whose codes are below eight and whose size is below `Header.sizeLimit` occupies disjoint
bits of the second word, so the packed word is a sum and every field is read back from it.
-/

namespace CollectorMemory.Header

/-- Sizes from this one on do not fit the bits that a header has for them. -/
def sizeLimit : Nat := 2 ^ 56

/-- Joining a small number with a shifted one is adding them. -/
theorem or_shift_eq_add {low places : Nat} (high : Nat) (small : low < 2 ^ places) :
    low ||| high <<< places = low + 2 ^ places * high := by
  rw [Nat.or_comm, ← Nat.shiftLeft_add_eq_or_of_lt small, Nat.shiftLeft_eq, Nat.mul_comm,
    Nat.add_comm]

/-- The packed word as a sum of its fields. -/
theorem toNat_packed (header : Header) (kind : header.kindCode.toNat < 8)
    (origin : header.originCode.toNat < 8) (short : header.size.toNat < sizeLimit) :
    header.packed.toNat = header.kindCode.toNat + 8 * header.isClass.toNat +
      16 * header.originCode.toNat + 128 * header.isFree.toNat + 256 * header.size.toNat := by
  have classBit : header.isClass.toNat < 2 := header.isClass.toNat_lt
  have freeBit : header.isFree.toNat < 2 := header.isFree.toNat_lt
  have kindPart : (header.kindCode.toUInt64 &&& 0b111).toNat = header.kindCode.toNat := by
    rw [UInt64.toNat_and, UInt8.toNat_toUInt64]
    change header.kindCode.toNat &&& (2 ^ 3 - 1) = _
    rw [Nat.and_two_pow_sub_one_eq_mod]
    omega
  have originPart : (header.originCode.toUInt64 &&& 0b111).toNat = header.originCode.toNat := by
    rw [UInt64.toNat_and, UInt8.toNat_toUInt64]
    change header.originCode.toNat &&& (2 ^ 3 - 1) = _
    rw [Nat.and_two_pow_sub_one_eq_mod]
    omega
  have classPart : (header.isClass.toUInt64 <<< 3).toNat = header.isClass.toNat <<< 3 := by
    cases header.isClass <;> decide
  have freePart : (header.isFree.toUInt64 <<< 7).toNat = header.isFree.toNat <<< 7 := by
    cases header.isFree <;> decide
  have originShifted : ((header.originCode.toUInt64 &&& 0b111) <<< 4).toNat =
      header.originCode.toNat <<< 4 := by
    rw [UInt64.toNat_shiftLeft, originPart]
    change header.originCode.toNat <<< 4 % 2 ^ 64 = _
    rw [Nat.shiftLeft_eq]
    omega
  have sizeShifted : (header.size <<< 8).toNat = header.size.toNat <<< 8 := by
    rw [UInt64.toNat_shiftLeft]
    change header.size.toNat <<< 8 % 2 ^ 64 = _
    rw [Nat.shiftLeft_eq]
    unfold sizeLimit at short
    omega
  have joinedClass : header.kindCode.toNat ||| header.isClass.toNat <<< 3 = _ :=
    or_shift_eq_add _ kind
  have joinedOrigin := or_shift_eq_add header.originCode.toNat
    (show header.kindCode.toNat + 2 ^ 3 * header.isClass.toNat < 2 ^ 4 by omega)
  have joinedFree := or_shift_eq_add header.isFree.toNat
    (show header.kindCode.toNat + 2 ^ 3 * header.isClass.toNat +
      2 ^ 4 * header.originCode.toNat < 2 ^ 7 by omega)
  have joinedSize := or_shift_eq_add header.size.toNat
    (show header.kindCode.toNat + 2 ^ 3 * header.isClass.toNat +
      2 ^ 4 * header.originCode.toNat + 2 ^ 7 * header.isFree.toNat < 2 ^ 8 by omega)
  simp only [packed, UInt64.toNat_or, kindPart, classPart, originShifted, freePart, sizeShifted]
  rw [joinedClass, joinedOrigin, joinedFree]
  apply joinedSize.trans
  omega

/-- Three bits of a word, as a byte. -/
theorem toNat_threeBits (word : UInt64) (places : UInt64) (few : places.toNat < 64) :
    ((word >>> places) &&& 0b111).toUInt8.toNat = word.toNat / 2 ^ places.toNat % 8 := by
  rw [UInt64.toNat_toUInt8, UInt64.toNat_and, UInt64.toNat_shiftRight, Nat.mod_eq_of_lt few,
    Nat.shiftRight_eq_div_pow]
  change (word.toNat / 2 ^ places.toNat &&& (2 ^ 3 - 1)) % 2 ^ 8 = _
  rw [Nat.and_two_pow_sub_one_eq_mod]
  omega

/-- One bit of a word, as a flag. -/
theorem oneBit_eq (word : UInt64) (places : UInt64) (few : places.toNat < 64) (flag : Bool)
    (same : word.toNat / 2 ^ places.toNat % 2 = flag.toNat) :
    ((word >>> places) &&& 1 != 0) = flag := by
  have value : ((word >>> places) &&& 1).toNat = flag.toNat := by
    rw [UInt64.toNat_and, UInt64.toNat_shiftRight, Nat.mod_eq_of_lt few,
      Nat.shiftRight_eq_div_pow]
    change word.toNat / 2 ^ places.toNat &&& (2 ^ 1 - 1) = _
    rw [Nat.and_two_pow_sub_one_eq_mod]
    exact same
  cases flag with
  | true =>
    rw [bne_iff_ne]
    intro zero
    rw [zero] at value
    exact absurd value (by decide)
  | false =>
    rw [bne_eq_false_iff_eq]
    exact UInt64.toNat_inj.mp value

/-- A header whose fields fit their bits is read back as it was written. -/
theorem decode_encode (header : Header) (kind : header.kindCode.toNat < 8)
    (origin : header.originCode.toNat < 8) (short : header.size.toNat < sizeLimit) :
    decode header.sentinel header.packed = header := by
  have whole := toNat_packed header kind origin short
  have classBit : header.isClass.toNat < 2 := header.isClass.toNat_lt
  have freeBit : header.isFree.toNat < 2 := header.isFree.toNat_lt
  have kindRead : (header.packed &&& 0b111).toUInt8 = header.kindCode := by
    apply UInt8.toNat_inj.mp
    have read := toNat_threeBits header.packed 0 (by decide)
    rw [UInt64.shiftRight_zero] at read
    rw [read, whole]
    change _ / 1 % 8 = _
    omega
  have originRead : ((header.packed >>> 4) &&& 0b111).toUInt8 = header.originCode := by
    apply UInt8.toNat_inj.mp
    rw [toNat_threeBits header.packed 4 (by decide), whole]
    change _ / 16 % 8 = _
    omega
  have classRead : ((header.packed >>> 3) &&& 1 != 0) = header.isClass := by
    apply oneBit_eq header.packed 3 (by decide)
    rw [whole]
    change _ / 8 % 2 = _
    omega
  have freeRead : ((header.packed >>> 7) &&& 1 != 0) = header.isFree := by
    apply oneBit_eq header.packed 7 (by decide)
    rw [whole]
    change _ / 128 % 2 = _
    omega
  have sizeRead : header.packed >>> 8 = header.size := by
    apply UInt64.toNat_inj.mp
    rw [UInt64.toNat_shiftRight, whole, Nat.shiftRight_eq_div_pow]
    change _ / 256 = _
    omega
  rw [decode, kindRead, originRead, classRead, freeRead, sizeRead]

end CollectorMemory.Header
