import Mathlib.Data.List.OfFn
import Mathlib.Data.List.NodupEquivFin
import Mathlib.Data.Fintype.EquivFin
import Mathlib.Data.List.FinRange
import Franky.Foundation.MachineInt

/-!
# Sorting an array with a three-way comparator

The C library sorts an array in place with a comparator that returns a
negative, zero or positive integer.  It rearranges the array, and the result is
sorted when the comparator orders the entries of the array.
-/

namespace Franky
namespace Foundation
namespace Sorting

/-- A sorting routine for arrays of `n` entries of any type. -/
abbrev Qsort (n : Nat) :=
  forall entry : Type, (entry -> entry -> Int32) -> (Fin n -> entry) ->
    Fin n -> entry

variable {n : Nat} {entry : Type}

/-- The comparator is total and transitive on the entries of the array. -/
structure Orders (cmp : entry -> entry -> Int32) (xs : Fin n -> entry) :
    Prop where
  total : forall i j, cmp (xs i) (xs j) ≤ 0 ∨ cmp (xs j) (xs i) ≤ 0
  trans : forall i j k, cmp (xs i) (xs j) ≤ 0 -> cmp (xs j) (xs k) ≤ 0 ->
    cmp (xs i) (xs k) ≤ 0

/-- The array `ys` is a sorted permutation of the array `xs`. -/
structure SortedPermutation (cmp : entry -> entry -> Int32)
    (xs ys : Fin n -> entry) : Prop where
  perm : exists order : Equiv.Perm (Fin n), ys = xs ∘ order
  sorted : forall i j, i ≤ j -> cmp (ys i) (ys j) ≤ 0

/-- What is relied on of the sorting routine: it rearranges the array, and it
sorts the array when the comparator orders the entries. -/
structure Contract (qsort : Qsort n) : Prop where
  rearranges : forall (entry : Type) (cmp : entry -> entry -> Int32)
    (xs : Fin n -> entry), exists order : Equiv.Perm (Fin n),
      qsort entry cmp xs = xs ∘ order
  sorts : forall (entry : Type) (cmp : entry -> entry -> Int32)
    (xs : Fin n -> entry), Orders cmp xs ->
      forall i j, i ≤ j -> cmp (qsort entry cmp xs i) (qsort entry cmp xs j) ≤ 0

theorem Contract.sortedPermutation {qsort : Qsort n} (h : Contract qsort)
    {cmp : entry -> entry -> Int32} {xs : Fin n -> entry}
    (hcmp : Orders cmp xs) : SortedPermutation cmp xs (qsort entry cmp xs) :=
  ⟨h.rearranges _ cmp xs, h.sorts _ cmp xs hcmp⟩

/-!
## A sorting routine

Sorting the indices of the array by the entries they stand for meets the
contract.
-/

/-- The indices of the array, in the order of their entries. -/
def sortedIndices (cmp : entry -> entry -> Int32) (xs : Fin n -> entry) :
    List (Fin n) :=
  (List.finRange n).mergeSort (fun i j => decide (cmp (xs i) (xs j) ≤ 0))

theorem sortedIndices_perm (cmp : entry -> entry -> Int32)
    (xs : Fin n -> entry) :
    (sortedIndices cmp xs).Perm (List.finRange n) :=
  List.mergeSort_perm _ _

theorem sortedIndices_length (cmp : entry -> entry -> Int32)
    (xs : Fin n -> entry) : (sortedIndices cmp xs).length = n := by
  rw [(sortedIndices_perm cmp xs).length_eq, List.length_finRange]

/-- Merge sort on the indices, as a sorting routine. -/
def mergeQsort : Qsort n := fun _ cmp xs i =>
  xs ((sortedIndices cmp xs).get
    (i.cast (sortedIndices_length cmp xs).symm))

theorem sortedIndices_sorted {cmp : entry -> entry -> Int32}
    {xs : Fin n -> entry} (h : Orders cmp xs) :
    (sortedIndices cmp xs).Pairwise (fun i j => cmp (xs i) (xs j) ≤ 0) := by
  let le : Fin n -> Fin n -> Bool := fun i j => decide (cmp (xs i) (xs j) ≤ 0)
  have htrans : forall i j k, le i j = true -> le j k = true ->
      le i k = true := by
    intro i j k hij hjk
    exact decide_eq_true
      (h.trans i j k (of_decide_eq_true hij) (of_decide_eq_true hjk))
  have htotal : forall i j, (le i j || le j i) = true := by
    intro i j
    rcases h.total i j with hle | hle <;> simp [le, hle]
  have hsorted := List.pairwise_mergeSort htrans htotal (List.finRange n)
  exact hsorted.imp (fun hle => of_decide_eq_true hle)

theorem mergeQsort_contract : Contract (@mergeQsort n) where
  rearranges := by
    intro entry cmp xs
    have hnodup : (sortedIndices cmp xs).Nodup :=
      (sortedIndices_perm cmp xs).nodup_iff.mpr (List.nodup_finRange n)
    let order : Fin n -> Fin n := fun i =>
      (sortedIndices cmp xs).get (i.cast (sortedIndices_length cmp xs).symm)
    have hinj : Function.Injective order := by
      intro i j hij
      have hcast := List.nodup_iff_injective_get.mp hnodup hij
      simpa [Fin.ext_iff] using hcast
    exact ⟨Equiv.ofBijective order (Finite.injective_iff_bijective.mp hinj),
      rfl⟩
  sorts := by
    intro entry cmp xs h i j hij
    rcases Nat.lt_or_eq_of_le (Fin.le_def.mp hij) with hlt | heq
    · exact List.pairwise_iff_get.mp (sortedIndices_sorted h) _ _ hlt
    · have hsame : i = j := Fin.ext heq
      subst hsame
      rcases h.total _ _ with hle | hle <;> exact hle

theorem ofFn_mergeQsort (cmp : entry -> entry -> Int32) (xs : Fin n -> entry) :
    List.ofFn (mergeQsort entry cmp xs) =
      (List.ofFn xs).mergeSort (fun x y => decide (cmp x y ≤ 0)) := by
  have hmap : (sortedIndices cmp xs).map xs =
      (List.ofFn xs).mergeSort (fun x y => decide (cmp x y ≤ 0)) := by
    rw [List.ofFn_eq_map]
    exact List.map_mergeSort (fun _ _ _ _ => rfl)
  rw [← hmap]
  apply List.ext_getElem
  · simp [sortedIndices_length]
  · intro i hi hi'
    simp [mergeQsort]

theorem mergeSort_halves {le : entry -> entry -> Bool} {xs ys : List entry}
    (hlength : xs.length = ys.length) :
    (xs ++ ys).mergeSort le =
      (xs.mergeSort le).merge (ys.mergeSort le) le := by
  match hall : xs ++ ys with
  | [] =>
      rcases List.append_eq_nil_iff.mp hall with ⟨rfl, rfl⟩
      simp
  | [x] =>
      have hone := congrArg List.length hall
      rw [List.length_append, ← hlength, List.length_singleton] at hone
      omega
  | x :: y :: rest =>
      have hhalf : ((x :: y :: rest).length + 1) / 2 = xs.length := by
        rw [← hall, List.length_append, ← hlength]
        omega
      rw [List.mergeSort]
      simp only [List.MergeSort.Internal.splitInTwo_fst,
        List.MergeSort.Internal.splitInTwo_snd]
      rw [hhalf, ← hall, List.take_left, List.drop_left]

theorem mergeSort_four (le : entry -> entry -> Bool) (a b c d : entry) :
    [a, b, c, d].mergeSort le =
      (List.merge [a] [b] le).merge (List.merge [c] [d] le) le := by
  have hall : ([a, b] ++ [c, d]).mergeSort le = _ := mergeSort_halves rfl
  have hleft : ([a] ++ [b]).mergeSort le = _ := mergeSort_halves rfl
  have hright : ([c] ++ [d]).mergeSort le = _ := mergeSort_halves rfl
  rw [List.mergeSort_singleton, List.mergeSort_singleton] at hleft hright
  rw [List.singleton_append] at hleft hright
  rw [hleft, hright] at hall
  exact hall

/-- An entry that goes behind all others fills the end of the array. -/
theorem mergeSort_append_replicate {le : entry -> entry -> Bool}
    {xs : List entry} {z : entry} (hxs : forall x, x ∈ xs -> le x z = true)
    (hz : le z z = true) (k : Nat) :
    (xs ++ List.replicate (xs.length * (2 ^ k - 1)) z).mergeSort le =
      xs.mergeSort le ++ List.replicate (xs.length * (2 ^ k - 1)) z := by
  have hsorted : forall n, (List.replicate n z).mergeSort le =
      List.replicate n z := by
    intro n
    apply List.mergeSort_of_pairwise
    rw [List.pairwise_replicate]
    exact Or.inr hz
  induction k with
  | zero => simp
  | succ k ih =>
      have hpow : 1 ≤ 2 ^ k := Nat.one_le_two_pow
      have hsplit : xs.length * (2 ^ (k + 1) - 1) =
          xs.length * (2 ^ k - 1) + xs.length * 2 ^ k := by
        rw [← Nat.mul_add]
        congr 1
        rw [Nat.pow_succ]
        omega
      have hhalf : (xs ++ List.replicate (xs.length * (2 ^ k - 1)) z).length =
          (List.replicate (xs.length * 2 ^ k) z).length := by
        rw [List.length_append, List.length_replicate, List.length_replicate]
        calc xs.length + xs.length * (2 ^ k - 1)
            = xs.length * (1 + (2 ^ k - 1)) := by rw [Nat.mul_add, Nat.mul_one]
          _ = xs.length * 2 ^ k := by rw [Nat.add_sub_cancel' hpow]
      rw [hsplit, List.replicate_add, ← List.append_assoc]
      rw [mergeSort_halves hhalf, ih, hsorted, List.merge_of_le]
      · rw [List.append_assoc]
      · intro a b ha hb
        rw [List.eq_of_mem_replicate hb]
        rcases List.mem_append.mp ha with hmem | hmem
        · exact hxs a (List.mem_mergeSort.mp hmem)
        · rw [List.eq_of_mem_replicate hmem]
          exact hz

/-!
## Reading a descending array up to the first zero

When the counts of the entries fall, a loop that stops at the first zero count
has seen every entry with a positive count.
-/

theorem takeWhile_eq_filter_of_pairwise {p : entry -> Bool} {xs : List entry}
    (h : xs.Pairwise (fun x y => p y = true -> p x = true)) :
    xs.takeWhile p = xs.filter p := by
  induction xs with
  | nil => rfl
  | cons x xs ih =>
      rcases List.pairwise_cons.mp h with ⟨hhead, htail⟩
      cases hx : p x with
      | true => simp [hx, ih htail]
      | false =>
          have hnone : xs.filter p = [] := by
            apply List.filter_eq_nil_iff.mpr
            intro y hy hpy
            have := hhead y hy hpy
            rw [hx] at this
            cases this
          simp [hx, hnone]

theorem SortedPermutation.perm_ofFn {cmp : entry -> entry -> Int32}
    {xs ys : Fin n -> entry} (h : SortedPermutation cmp xs ys) :
    (List.ofFn ys).Perm (List.ofFn xs) := by
  rcases h.perm with ⟨order, rfl⟩
  exact Equiv.Perm.ofFn_comp_perm order xs

/-!
## Sorting by falling counts

The comparator subtracts two counts.  It orders counts that are not negative,
where the subtraction cannot wrap around.
-/

section Descending

variable (count : entry -> Int32)

/-- The comparator that puts the larger count first. -/
def descending (x y : entry) : Int32 := count y - count x

/-- The entries that a loop sees which stops at the first zero count. -/
def reported (ys : Fin n -> entry) : List entry :=
  (List.ofFn ys).takeWhile (fun x => count x != 0)

variable {count}

theorem descending_le_zero_iff {x y : entry} (hx : 0 ≤ (count x).toInt)
    (hy : 0 ≤ (count y).toInt) :
    descending count x y ≤ 0 <-> (count y).toInt ≤ (count x).toInt := by
  unfold descending
  rw [Int32.le_iff_toInt_le, MachineInt.toInt_sub_of_nonneg hy hx,
    MachineInt.toInt_zero]
  lia

theorem descending_orders {xs : Fin n -> entry}
    (h : forall i, 0 ≤ (count (xs i)).toInt) :
    Orders (descending count) xs := by
  constructor
  · intro i j
    rw [descending_le_zero_iff (h i) (h j), descending_le_zero_iff (h j) (h i)]
    lia
  · intro i j k
    rw [descending_le_zero_iff (h i) (h j), descending_le_zero_iff (h j) (h k),
      descending_le_zero_iff (h i) (h k)]
    lia

theorem SortedPermutation.counts_fall {xs ys : Fin n -> entry}
    (h : forall i, 0 ≤ (count (xs i)).toInt)
    (hsorted : SortedPermutation (descending count) xs ys) {i j : Fin n}
    (hij : i ≤ j) :
    0 ≤ (count (ys j)).toInt ∧ (count (ys j)).toInt ≤ (count (ys i)).toInt := by
  have hys : forall i, 0 ≤ (count (ys i)).toInt := by
    rcases hsorted.perm with ⟨order, rfl⟩
    intro i
    exact h (order i)
  exact ⟨hys j,
    (descending_le_zero_iff (hys i) (hys j)).mp (hsorted.sorted i j hij)⟩

theorem reported_perm {xs ys : Fin n -> entry}
    (h : forall i, 0 ≤ (count (xs i)).toInt)
    (hsorted : SortedPermutation (descending count) xs ys) :
    (reported count ys).Perm
      ((List.ofFn xs).filter (fun x => count x != 0)) := by
  have hpairs : (List.ofFn ys).Pairwise
      (fun x y => (count y != 0) = true -> (count x != 0) = true) := by
    apply List.pairwise_ofFn.mpr
    intro i j hij hj
    rcases hsorted.counts_fall h (Nat.le_of_lt hij) with ⟨hnonneg, hle⟩
    simp only [bne_iff_ne, ne_eq, MachineInt.eq_zero_iff] at hj ⊢
    lia
  unfold reported
  rw [takeWhile_eq_filter_of_pairwise hpairs]
  exact hsorted.perm_ofFn.filter _

theorem reported_pairwise {xs ys : Fin n -> entry}
    (h : forall i, 0 ≤ (count (xs i)).toInt)
    (hsorted : SortedPermutation (descending count) xs ys) :
    (reported count ys).Pairwise (fun x y => count y ≤ count x) := by
  have hall : (List.ofFn ys).Pairwise (fun x y => count y ≤ count x) := by
    apply List.pairwise_ofFn.mpr
    intro i j hij
    rw [Int32.le_iff_toInt_le]
    exact (hsorted.counts_fall h (Nat.le_of_lt hij)).right
  exact hall.sublist (List.takeWhile_sublist _)

/-- The lists differ at most in the order of entries with equal counts. -/
structure SameUpToTies (count : entry -> Int32) (xs ys : List entry) :
    Prop where
  perm : xs.Perm ys
  counts : xs.map count = ys.map count

theorem SameUpToTies.refl (xs : List entry) : SameUpToTies count xs xs :=
  ⟨List.Perm.refl xs, rfl⟩

theorem SameUpToTies.map {entry' : Type} {count' : entry' -> Int32}
    {f : entry -> entry'} (hf : forall x, count' (f x) = count x)
    {xs ys : List entry} (h : SameUpToTies count xs ys) :
    SameUpToTies count' (xs.map f) (ys.map f) where
  perm := h.perm.map f
  counts := by
    have hcomp : count' ∘ f = count := funext hf
    rw [List.map_map, List.map_map, hcomp]
    exact h.counts

theorem sameUpToTies_of_pairwise {xs ys : List entry} (h : xs.Perm ys)
    (hxs : xs.Pairwise (fun x y => count y ≤ count x))
    (hys : ys.Pairwise (fun x y => count y ≤ count x)) :
    SameUpToTies count xs ys where
  perm := h
  counts := by
    have hanti : forall c c', c ∈ xs.map count -> c' ∈ ys.map count ->
        c' ≤ c -> c ≤ c' -> c = c' :=
      fun _ _ _ _ hle hle' => Int32.le_antisymm hle' hle
    exact (h.map count).eq_of_pairwise hanti (List.pairwise_map.mpr hxs)
      (List.pairwise_map.mpr hys)

/-- The loop sees the same of two arrays with the same entries. -/
theorem reported_sameUpToTies {xs xs' ys ys' : Fin n -> entry}
    (h : forall i, 0 ≤ (count (xs i)).toInt)
    (hperm : exists order : Equiv.Perm (Fin n), xs' = xs ∘ order)
    (hsorted : SortedPermutation (descending count) xs ys)
    (hsorted' : SortedPermutation (descending count) xs' ys') :
    SameUpToTies count (reported count ys') (reported count ys) := by
  rcases hperm with ⟨order, rfl⟩
  have h' : forall i, 0 ≤ (count ((xs ∘ order) i)).toInt := fun i => h (order i)
  apply sameUpToTies_of_pairwise
  · refine (reported_perm h' hsorted').trans ?_
    refine List.Perm.trans ?_ (reported_perm h hsorted).symm
    exact (Equiv.Perm.ofFn_comp_perm order xs).filter _
  · exact reported_pairwise h' hsorted'
  · exact reported_pairwise h hsorted

theorem exists_of_mem_reported {xs ys : Fin n -> entry}
    (hperm : exists order : Equiv.Perm (Fin n), ys = xs ∘ order) {x : entry}
    (hx : x ∈ reported count ys) : exists i, xs i = x ∧ count (xs i) ≠ 0 := by
  rcases hperm with ⟨order, rfl⟩
  have hcount := List.all_eq_true.mp List.all_takeWhile x hx
  rcases List.mem_ofFn.mp ((List.takeWhile_sublist _).subset hx) with ⟨j, hj⟩
  have hentry : xs (order j) = x := hj
  refine ⟨order j, hentry, ?_⟩
  rw [hentry]
  exact bne_iff_ne.mp hcount

theorem mem_reported_iff {xs ys : Fin n -> entry}
    (h : forall i, 0 ≤ (count (xs i)).toInt)
    (hsorted : SortedPermutation (descending count) xs ys) {x : entry} :
    x ∈ reported count ys <->
      exists i, xs i = x ∧ 0 < (count (xs i)).toInt := by
  rw [(reported_perm h hsorted).mem_iff, List.mem_filter, List.mem_ofFn]
  constructor
  · intro hx
    rcases hx with ⟨⟨i, hi⟩, hne⟩
    refine ⟨i, hi, ?_⟩
    have hnonneg := h i
    simp only [bne_iff_ne, ne_eq, MachineInt.eq_zero_iff] at hne
    rw [← hi] at hne
    lia
  · intro hx
    rcases hx with ⟨i, hi, hpos⟩
    refine ⟨⟨i, hi⟩, ?_⟩
    simp only [bne_iff_ne, ne_eq, MachineInt.eq_zero_iff]
    rw [← hi]
    lia

end Descending

end Sorting
end Foundation
end Franky
