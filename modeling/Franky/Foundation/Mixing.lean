import Mathlib.Logic.Function.Basic
import Mathlib.Data.List.Basic

/-!
# Mixing steps of a hash

A hash is computed by steps that lose nothing: multiplication by a number that
has an inverse, and exclusive or with a right shift of at least half the width.
A hash that folds such a step over a list tells lists apart that differ in one
place.
-/

namespace Franky
namespace Foundation
namespace Mixing

/-!
## Single steps
-/

theorem xorShift_involutive {w s : Nat} (h : w ≤ s + s) (x : BitVec w) :
    (x ^^^ (x >>> s)) ^^^ ((x ^^^ (x >>> s)) >>> s) = x := by
  rw [BitVec.ushiftRight_xor_distrib, ← BitVec.shiftRight_add,
    BitVec.ushiftRight_eq_zero h, BitVec.xor_zero, BitVec.xor_assoc,
    BitVec.xor_self, BitVec.xor_zero]

/-- `x ^^^ (x >>> s)`, on words of 64 bits. -/
def xorShift (s x : UInt64) : UInt64 := x ^^^ (x >>> s)

theorem xorShift_injective {s : UInt64} (hlow : 32 ≤ s) (hhigh : s < 64) :
    Function.Injective (xorShift s) := by
  apply Function.LeftInverse.injective (g := xorShift s)
  intro x
  have hlow' : 32 ≤ s.toNat := UInt64.le_iff_toNat_le.mp hlow
  have hhigh' : s.toNat < 64 := UInt64.lt_iff_toNat_lt.mp hhigh
  have hshift : (s.toBitVec % 64).toNat = s.toNat := Nat.mod_eq_of_lt hhigh'
  apply UInt64.toBitVec_inj.mp
  unfold xorShift
  simp only [UInt64.toBitVec_xor, UInt64.toBitVec_shiftRight]
  exact xorShift_involutive (by lia) x.toBitVec

theorem mul_injective {c d : UInt64} (h : c * d = 1) :
    Function.Injective (fun x => x * c) := by
  apply Function.LeftInverse.injective (g := fun x => x * d)
  intro x
  dsimp only
  rw [UInt64.mul_assoc, h, UInt64.mul_one]

/-- A word that is widened by its sign bit keeps its own bits where the shift
leaves room for them. -/
theorem signExtend_shiftLeft_injective {w v s : Nat} (h : w + s ≤ v) :
    Function.Injective (fun x : BitVec w => x.signExtend v <<< s) := by
  intro x y heq
  apply BitVec.eq_of_getLsbD_eq
  intro i hi
  have hbit := congrArg (fun z => z.getLsbD (s + i)) heq
  have hwide : s + i < v := by lia
  have hnarrow : i < v := by lia
  have hshifted : ¬ s + i < s := by lia
  simpa [BitVec.getElem_signExtend, hwide, hnarrow, hshifted, hi] using hbit

theorem xor_cancel_left (a x : UInt64) : a ^^^ (a ^^^ x) = x := by
  rw [← UInt64.xor_assoc, UInt64.xor_self, UInt64.zero_xor]

theorem xor_eq_xor_iff (a b x y : UInt64) :
    a ^^^ x = b ^^^ y <-> x ^^^ y = a ^^^ b := by
  constructor
  · intro h
    rw [← UInt64.xor_right_inj a, xor_cancel_left, ← UInt64.xor_assoc, h,
      UInt64.xor_assoc, UInt64.xor_self, UInt64.xor_zero]
  · intro h
    rw [← UInt64.xor_left_inj y, UInt64.xor_assoc, h, xor_cancel_left,
      UInt64.xor_assoc, UInt64.xor_self, UInt64.xor_zero]

/-!
## Folds
-/

section Fold

variable {state item : Type*} {step : state -> item -> state}

theorem foldl_injective
    (hstep : forall x, Function.Injective (fun s => step s x))
    (xs : List item) : Function.Injective (fun s => xs.foldl step s) := by
  induction xs with
  | nil => exact Function.injective_id
  | cons x xs ih => exact ih.comp (hstep x)

/-- Two lists that differ in one place fold to one state exactly when the step
there does not tell the two items apart. -/
theorem foldl_replace_iff
    (hstep : forall x, Function.Injective (fun s => step s x)) (s : state)
    (front back : List item) (x y : item) :
    (front ++ x :: back).foldl step s = (front ++ y :: back).foldl step s <->
      step (front.foldl step s) x = step (front.foldl step s) y := by
  rw [List.foldl_append, List.foldl_append, List.foldl_cons, List.foldl_cons]
  exact (foldl_injective hstep back).eq_iff

end Fold

end Mixing
end Foundation
end Franky
