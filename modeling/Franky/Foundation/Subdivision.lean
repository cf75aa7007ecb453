import Mathlib.Algebra.Order.Field.Basic
import Mathlib.Algebra.Order.BigOperators.Group.List
import Mathlib.Algebra.Order.Floor.Ring
import Mathlib.Algebra.BigOperators.Ring.List

/-!
# Dividing an interval

A list of items is laid out side by side from a given point on, each as wide as
its weight times a common scale.  The parts do not overlap, and they stay within
the interval when the weights do.
-/

namespace Franky
namespace Foundation
namespace Subdivision

variable {item K : Type*} [Field K] [LinearOrder K] [IsStrictOrderedRing K]

/-- A part of the interval. -/
structure Part (item K : Type*) where
  item : item
  begin : K
  width : K

def Part.finish (part : Part item K) : K := part.begin + part.width

/-- The parts of the items, from the point `begin` on. -/
def parts (scale : K) (weight : item -> K) : K -> List item ->
    List (Part item K)
  | _, [] => []
  | begin, x :: xs =>
      { item := x, begin := begin, width := scale * weight x } ::
        parts scale weight (begin + scale * weight x) xs

variable {scale begin : K} {weight : item -> K} {xs : List item}

omit [LinearOrder K] [IsStrictOrderedRing K] in
theorem parts_items : (parts scale weight begin xs).map Part.item = xs := by
  induction xs generalizing begin with
  | nil => rfl
  | cons x xs ih => rw [parts, List.map_cons, ih]

omit [LinearOrder K] [IsStrictOrderedRing K] in
theorem part_width {part : Part item K}
    (h : part ∈ parts scale weight begin xs) :
    part.width = scale * weight part.item := by
  induction xs generalizing begin with
  | nil => cases h
  | cons x xs ih =>
      rcases List.mem_cons.mp h with rfl | h
      · rfl
      · exact ih h

omit [LinearOrder K] [IsStrictOrderedRing K] in
theorem part_item_mem {part : Part item K}
    (h : part ∈ parts scale weight begin xs) : part.item ∈ xs := by
  have hmem := List.mem_map_of_mem (f := Part.item) h
  rwa [parts_items] at hmem

omit [LinearOrder K] [IsStrictOrderedRing K] in
/-- A loop over the items that carries the point it has come to is a loop over
their parts. -/
theorem foldl_parts {state : Type*} (weight : item -> K)
    (place : state -> item -> K -> K -> state) (s : state) :
    (xs.foldl
      (fun (s : state × K) x =>
        (place s.1 x s.2 (s.2 + scale * weight x), s.2 + scale * weight x))
      (s, begin)).1 =
      (parts scale weight begin xs).foldl
        (fun s part => place s part.item part.begin part.finish) s := by
  induction xs generalizing begin s with
  | nil => rfl
  | cons x xs ih => exact ih _

theorem sum_weights_nonneg (hweight : forall x, x ∈ xs -> 0 ≤ weight x) :
    0 ≤ (xs.map weight).sum := by
  apply List.sum_nonneg
  intro w hw
  rcases List.mem_map.mp hw with ⟨x, hx, rfl⟩
  exact hweight x hx

theorem part_within (hscale : 0 ≤ scale)
    (hweight : forall x, x ∈ xs -> 0 ≤ weight x) {part : Part item K}
    (h : part ∈ parts scale weight begin xs) :
    begin ≤ part.begin ∧
      part.finish ≤ begin + scale * (xs.map weight).sum := by
  induction xs generalizing begin with
  | nil => cases h
  | cons x xs ih =>
      have hx := mul_nonneg hscale (hweight x List.mem_cons_self)
      have htail : forall y, y ∈ xs -> 0 ≤ weight y :=
        fun y hy => hweight y (List.mem_cons_of_mem x hy)
      have hrest := mul_nonneg hscale (sum_weights_nonneg htail)
      rw [List.map_cons, List.sum_cons, mul_add, ← add_assoc]
      rcases List.mem_cons.mp h with rfl | h
      · exact ⟨le_refl _, le_add_of_nonneg_right hrest⟩
      · rcases ih htail h with ⟨hlow, hhigh⟩
        exact ⟨(le_add_of_nonneg_right hx).trans hlow, hhigh⟩

theorem parts_pairwise (hscale : 0 ≤ scale)
    (hweight : forall x, x ∈ xs -> 0 ≤ weight x) :
    (parts scale weight begin xs).Pairwise
      (fun p q => p.finish ≤ q.begin) := by
  induction xs generalizing begin with
  | nil => exact List.Pairwise.nil
  | cons x xs ih =>
      have htail : forall y, y ∈ xs -> 0 ≤ weight y :=
        fun y hy => hweight y (List.mem_cons_of_mem x hy)
      apply List.Pairwise.cons
      · intro q hq
        exact (part_within hscale htail hq).left
      · exact ih htail

/-- Parts that do not overlap do not overlap either when their places and widths
are rounded down. -/
theorem floor_add_floor_le [FloorRing K] {a w b : K} (h : a + w ≤ b) :
    ⌊a⌋ + ⌊w⌋ ≤ ⌊b⌋ :=
  (Int.le_floor_add a w).trans (Int.floor_mono h)

end Subdivision
end Foundation
end Franky
