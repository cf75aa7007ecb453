import Mathlib.Data.Nat.Bitwise

/-!
# Numbers in groups of seven bits

A number travels as bytes of seven bits each, the lowest ones first; the eighth
bit of a byte says that more of them follow.
-/

namespace Franky
namespace Foundation
namespace SevenBits

theorem getLsbD_low (w : BitVec 32) (k : Nat) :
    ((w.setWidth 8 &&& 0x7f#8).setWidth 32).getLsbD k =
      (decide (k < 7) && w.getLsbD k) := by
  have hmask : forall k, k < 8 -> (0x7f#8).getLsbD k = decide (k < 7) := by
    decide
  rw [BitVec.getLsbD_setWidth, BitVec.getLsbD_and, BitVec.getLsbD_setWidth]
  rcases Nat.lt_or_ge k 8 with hsmall | hlarge
  · have hwidth : k < 32 := by lia
    rw [hmask k hsmall]
    simp only [hsmall, hwidth, decide_true, Bool.true_and]
    rw [Bool.and_comm]
  · have hbyte : ¬ k < 7 := by lia
    rw [BitVec.getLsbD_of_ge (0x7f#8) k hlarge]
    simp only [hbyte, decide_false, Bool.and_false, Bool.false_and]

theorem shiftLeft_low_or_high (w : BitVec 32) (n : Nat) :
    ((w.setWidth 8 &&& 0x7f#8).setWidth 32) <<< n ||| (w >>> 7) <<< (n + 7) =
      w <<< n := by
  apply BitVec.eq_of_getLsbD_eq
  intro j _
  simp only [BitVec.getLsbD_or, BitVec.getLsbD_shiftLeft, getLsbD_low,
    BitVec.getLsbD_ushiftRight]
  rcases Nat.lt_or_ge j (n + 7) with hhigh | hhigh
  · rcases Nat.lt_or_ge j n with hlow | hlow
    · simp only [hhigh, hlow, decide_true, Bool.not_true, Bool.and_false,
        Bool.false_and, Bool.or_false]
    · have hbyte : j - n < 7 := by lia
      simp only [hhigh, hbyte, decide_true, Bool.not_true, Bool.and_false,
        Bool.false_and, Bool.or_false, Bool.true_and]
  · have hbyte : ¬ j - n < 7 := by lia
    have hrest : 7 + (j - (n + 7)) = j - n := by lia
    have hlow : ¬ j < n := by lia
    rw [hrest]
    simp only [Nat.not_lt.mpr hhigh, hbyte, hlow, decide_false, Bool.false_and,
      Bool.and_false, Bool.false_or]

theorem toBitVec_shiftLeft_ofNat (w : UInt32) {n : Nat} (h : n < 32) :
    (w <<< UInt32.ofNat n).toBitVec = w.toBitVec <<< n := by
  have hshift : ((UInt32.ofNat n).toBitVec % 32).toNat = n := by
    simp only [BitVec.toNat_umod, UInt32.toNat_toBitVec, UInt32.toNat_ofNat']
    change n % 2 ^ 32 % 32 = n
    lia
  rw [UInt32.toBitVec_shiftLeft, BitVec.shiftLeft_eq', hshift]

theorem more_byte (w : UInt32) :
    (w ||| 0x80).toUInt8 &&& 0x7f = w.toUInt8 &&& 0x7f ∧
      (w ||| 0x80).toUInt8 &&& 0x80 ≠ 0 := by
  have hbyte : (w ||| 0x80).toUInt8 = w.toUInt8 ||| 0x80 := by
    rw [UInt32.toUInt8_or]
    rfl
  rw [hbyte]
  constructor
  · apply UInt8.toBitVec_inj.mp
    rw [UInt8.toBitVec_and, UInt8.toBitVec_or, BitVec.and_or_distrib_right]
    exact BitVec.or_zero
  · intro hzero
    have hbits := congrArg UInt8.toBitVec hzero
    rw [UInt8.toBitVec_and, UInt8.toBitVec_or, BitVec.and_or_distrib_right]
      at hbits
    exact absurd (BitVec.or_eq_zero_iff.mp hbits).right (by decide)

theorem last_byte {w : UInt32} (h : w < 0x80) :
    (w.toUInt8 &&& 0x7f).toUInt32 = w ∧ w.toUInt8 &&& 0x80 = 0 := by
  have hsmall : w.toNat < 2 ^ 7 := h
  have hmask : (0x7f : UInt8).toNat = 2 ^ 7 - 1 := rfl
  have hbit : (0x80 : UInt8).toNat = 2 ^ 7 := rfl
  constructor
  · apply UInt32.toNat_inj.mp
    rw [UInt8.toNat_toUInt32, UInt8.toNat_and, UInt32.toNat_toUInt8, hmask,
      Nat.and_two_pow_sub_one_eq_mod]
    lia
  · have hbyte : w.toUInt8.toNat < 2 ^ 7 := by
      rw [UInt32.toNat_toUInt8]
      lia
    apply UInt8.toNat_inj.mp
    rw [UInt8.toNat_and, hbit, Nat.and_two_pow, Nat.testBit_lt_two_pow hbyte]
    rfl

/-- Reading a group, and the others after it, reads the number. -/
theorem low_or_high (w : UInt32) {n : Nat} (h : n + 7 < 32) :
    ((w ||| 0x80).toUInt8 &&& 0x7f).toUInt32 <<< UInt32.ofNat n |||
      (w >>> 7) <<< UInt32.ofNat (n + 7) = w <<< UInt32.ofNat n := by
  have hn : n < 32 := by lia
  rw [(more_byte w).left]
  apply UInt32.eq_of_toBitVec_eq
  rw [UInt32.toBitVec_or, toBitVec_shiftLeft_ofNat _ h,
    toBitVec_shiftLeft_ofNat _ hn, toBitVec_shiftLeft_ofNat _ hn,
    UInt8.toBitVec_toUInt32, UInt8.toBitVec_and, UInt32.toBitVec_toUInt8]
  exact shiftLeft_low_or_high w.toBitVec n

end SevenBits
end Foundation
end Franky
