import Franky.Foundation.LinearProbing

/-!
# Tables that are too small

A table without a slot for a key gives it the slot of another key, and the count
of that one is lost.  Whatever is lost, no key is counted more often than it was
given, and a table of keys stays linked.
-/

namespace Franky
namespace Foundation
namespace Overwriting

open LinearProbing

variable {n : Nat} {key : Type*}

/-!
## Counts
-/

/-- What a table counts under some keys was given to it under these keys. -/
structure Undercounts (ks : List key) (keys : Fin n -> key)
    (counts : Fin n -> Int) : Prop where
  nonneg : forall i, 0 ≤ counts i
  total : forall (P : key -> Prop) [DecidablePred P],
    (∑ i, if P (keys i) then counts i else 0) ≤
      ks.countP (fun k => decide (P k))

variable {ks : List key} {keys : Fin n -> key} {counts : Fin n -> Int}

theorem undercounts_empty (keys : Fin n -> key) :
    Undercounts [] keys (fun _ => 0) where
  nonneg := fun _ => le_refl 0
  total := by
    intro P _
    simp

theorem sum_counts_update (P : key -> Prop) [DecidablePred P] (i : Fin n)
    (k : key) (x : Int) :
    (∑ j, if P (Function.update keys i k j) then Function.update counts i x j
      else 0) =
      (∑ j, if P (keys j) then counts j else 0) -
        (if P (keys i) then counts i else 0) + if P k then x else 0 := by
  let weight : key × Int -> Int := fun entry =>
    if P entry.1 then entry.2 else 0
  have hsum := sum_update weight (fun j => (keys j, counts j)) i (k, x)
  have hentry : forall j, Function.update (fun j => (keys j, counts j)) i
      (k, x) j = (Function.update keys i k j, Function.update counts i x j) := by
    intro j
    rcases eq_or_ne j i with rfl | hne
    · simp
    · simp [hne]
  simp only [hentry] at hsum
  exact hsum

theorem countP_concat (P : key -> Prop) [DecidablePred P] (ks : List key)
    (k : key) :
    ((ks ++ [k]).countP (fun k => decide (P k)) : Int) =
      ks.countP (fun k => decide (P k)) + if P k then 1 else 0 := by
  by_cases h : P k <;> simp [h]

theorem Undercounts.record_hit (h : Undercounts ks keys counts) (i : Fin n) :
    Undercounts (ks ++ [keys i]) keys
      (Function.update counts i (counts i + 1)) where
  nonneg := (Function.forall_update_iff counts (fun _ x => 0 ≤ x)).mpr
    ⟨Int.add_nonneg (h.nonneg i) Int.one_nonneg, fun j _ => h.nonneg j⟩
  total := by
    intro P _
    have htotal := h.total P
    have hsum :
        (∑ j, if P (Function.update keys i (keys i) j) then
            Function.update counts i (counts i + 1) j else 0) =
          (∑ j, if P (keys j) then counts j else 0) -
            (if P (keys i) then counts i else 0) +
            (if P (keys i) then counts i + 1 else 0) :=
      sum_counts_update P i (keys i) (counts i + 1)
    rw [Function.update_eq_self] at hsum
    rw [hsum, countP_concat]
    split <;> lia

/-- A key takes a slot, whatever the slot counted. -/
theorem Undercounts.record_over (h : Undercounts ks keys counts) (i : Fin n)
    (k : key) :
    Undercounts (ks ++ [k]) (Function.update keys i k)
      (Function.update counts i 1) where
  nonneg := (Function.forall_update_iff counts (fun _ x => 0 ≤ x)).mpr
    ⟨Int.one_nonneg, fun j _ => h.nonneg j⟩
  total := by
    intro P _
    have hlost : 0 ≤ if P (keys i) then counts i else 0 := by
      split
      · exact h.nonneg i
      · exact le_refl 0
    have htotal := h.total P
    rw [sum_counts_update P i k 1, countP_concat]
    lia

theorem Undercounts.counts_le (h : Undercounts ks keys counts) (i : Fin n) :
    counts i ≤ ks.length := by
  have htotal := h.total (fun _ => True)
  simp only [if_true, decide_true, List.countP_true] at htotal
  exact (Finset.single_le_sum (fun j _ => h.nonneg j)
    (Finset.mem_univ i)).trans htotal

theorem Undercounts.counts_le_count [DecidableEq key]
    (h : Undercounts ks keys counts) (i : Fin n) :
    counts i ≤ ks.count (keys i) := by
  have htotal := h.total (fun k => k = keys i)
  have hself : counts i = if keys i = keys i then counts i else 0 :=
    (if_pos rfl).symm
  have hslot : (if keys i = keys i then counts i else 0) ≤
      ∑ j, if keys j = keys i then counts j else 0 := by
    apply Finset.single_le_sum (f := fun j =>
      if keys j = keys i then counts j else 0) _ (Finset.mem_univ i)
    intro j _
    split
    · exact h.nonneg j
    · exact le_refl 0
  rw [hself]
  exact hslot.trans htotal

end Overwriting

/-!
## Keys
-/

namespace LinearProbing

section Overwritten

variable {n : Nat} [NeZero n] {key : Type*} [DecidableEq key] {home : key -> Fin n}
  {table : Fin n -> Option key}

/-- A full table sends a key that it lacks to the home of the key, and is still
linked when the key has replaced the one that was there. -/
theorem Linked.findKey_full (h : Linked home table) {k : key}
    (hk : forall i, table i ≠ some k) (hfull : forall i, table i ≠ none) :
    findKey home table k = Probe.stop (home k) ∧
      Linked home (Function.update table (home k) (some k)) := by
  constructor
  · rcases probe_endsAs (fun i => decide (table i = some k))
        (fun i => (table i).isNone) (home k) with
      ⟨d, _, _, hhit, _⟩ | ⟨d, _, _, _, hfree, _⟩ | ⟨_, heq⟩
    · exact absurd (of_decide_eq_true hhit) (hk _)
    · exact absurd (Option.isNone_iff_eq_none.mp hfree) (hfull _)
    · exact heq
  · intro i k' hi
    rcases eq_or_ne i (home k) with rfl | hne
    · rw [Function.update_self] at hi
      cases hi
      refine ⟨0, size_pos, slotAt_zero _, ?_⟩
      intro e he
      cases he
    · rw [Function.update_of_ne hne] at hi
      rcases h i k' hi with ⟨d, hd, hslot, hbefore⟩
      refine ⟨d, hd, hslot, ?_⟩
      intro e he
      rcases eq_or_ne (slotAt (home k') e) (home k) with heq | hother
      · refine ⟨k, ?_, ?_⟩
        · rw [heq, Function.update_self]
        · intro hsame
          exact hk i (hsame ▸ hi)
      · rw [Function.update_of_ne hother]
        exact hbefore e he

theorem Linked.findKey_update (h : Linked home table) (k : key) :
    (exists i, table i = some k ∧ findKey home table k = Probe.hit i) ∨
      (exists i, findKey home table k = Probe.stop i ∧
        Linked home (Function.update table i (some k))) := by
  by_cases hstored : exists i, table i = some k
  · rcases hstored with ⟨i, hi⟩
    exact Or.inl ⟨i, hi, h.findKey_mem hi⟩
  · have hnew : forall i, table i ≠ some k := fun i hi => hstored ⟨i, hi⟩
    by_cases hroom : exists i, table i = none
    · rcases h.findKey_not_mem hnew hroom with
        ⟨i, _, hfind, hlinked⟩
      exact Or.inr ⟨i, hfind, hlinked⟩
    · have hfull : forall i, table i ≠ none := fun i hi => hroom ⟨i, hi⟩
      exact Or.inr ⟨home k, h.findKey_full hnew hfull⟩

end Overwritten

end LinearProbing
end Foundation
end Franky
