import Mathlib.Algebra.Order.Ring.Int
import Mathlib.Algebra.BigOperators.Group.List.Basic

/-!
# Thirty-two bit counters

Signed machine integers wrap around.  The facts below say when a step of a
counter is the step of the integer it stands for.
-/

namespace Franky
namespace Foundation
namespace MachineInt

theorem toInt_bounds (x : Int32) : -2 ^ 31 ≤ x.toInt ∧ x.toInt < 2 ^ 31 :=
  ⟨x.le_toInt, x.toInt_lt⟩

@[simp] theorem toInt_zero : (0 : Int32).toInt = 0 := rfl

@[simp] theorem toInt_one : (1 : Int32).toInt = 1 := rfl

theorem toInt_add_of_bounds {x y : Int32} (hlow : -2 ^ 31 ≤ x.toInt + y.toInt)
    (hhigh : x.toInt + y.toInt < 2 ^ 31) :
    (x + y).toInt = x.toInt + y.toInt := by
  rw [Int32.toInt_add, Int.bmod_eq_of_le] <;> omega

theorem toInt_succ {x : Int32} (hlow : 0 ≤ x.toInt)
    (hhigh : x.toInt + 1 < 2 ^ 31) : (x + 1).toInt = x.toInt + 1 := by
  rw [toInt_add_of_bounds] <;> rw [toInt_one] <;> omega

theorem toInt_sub_of_nonneg {x y : Int32} (hx : 0 ≤ x.toInt)
    (hy : 0 ≤ y.toInt) : (x - y).toInt = x.toInt - y.toInt := by
  have hxbound := toInt_bounds x
  have hybound := toInt_bounds y
  rw [Int32.toInt_sub, Int.bmod_eq_of_le] <;> omega

theorem pos_iff {x : Int32} : 0 < x <-> 0 < x.toInt := by
  rw [Int32.lt_iff_toInt_lt, toInt_zero]

theorem eq_zero_iff {x : Int32} : x = 0 <-> x.toInt = 0 := by
  rw [← Int32.toInt_inj, toInt_zero]

theorem toInt_ofInt_of_bounds {z : Int} (hlow : -2 ^ 31 ≤ z)
    (hhigh : z < 2 ^ 31) : (Int32.ofInt z).toInt = z :=
  Int32.toInt_ofInt_of_le hlow hhigh

/-!
Addition of machine integers is associative and commutative even where it wraps
around, so that a sum does not depend on the order of its terms.
-/

instance int32AddCommMonoid : AddCommMonoid Int32 where
  add_assoc := Int32.add_assoc
  zero_add := Int32.zero_add
  add_zero := Int32.add_zero
  add_comm := Int32.add_comm
  nsmul := nsmulRec

theorem sum_eq_ofInt {entry : Type*} (count : entry -> Int32)
    (xs : List entry) :
    (xs.map count).sum = Int32.ofInt (xs.map (fun x => (count x).toInt)).sum := by
  induction xs with
  | nil => rfl
  | cons x xs ih =>
      rw [List.map_cons, List.sum_cons, List.map_cons, List.sum_cons, ih,
        Int32.ofInt_add, Int32.ofInt_toInt]

end MachineInt
end Foundation
end Franky
