import Mathlib.Algebra.BigOperators.Group.List.Basic
import Mathlib.Algebra.BigOperators.Group.Finset.Basic
import Mathlib.Algebra.BigOperators.Group.Finset.Piecewise
import Mathlib.Algebra.Order.BigOperators.Group.List
import Mathlib.Algebra.Order.Monoid.Defs
import Mathlib.Data.Finset.Dedup
import Mathlib.Data.List.Infix
import Mathlib.Logic.Function.Basic

/-!
# Weighted prefix trees

A sample is a path of labels, outermost first, with a weight.  The prefix tree
of a list of samples has a node at every prefix of their paths, and the weight
of a node is the total of the samples whose paths pass through it.  Here the
tree is seen from outside, as what it holds at each path.
-/

namespace Franky
namespace Foundation
namespace PrefixTree

variable {label weight : Type*} [DecidableEq label]

/-- The weight at each path where there is a node. -/
abbrev Weights (label weight : Type*) := List label -> Option weight

def through (samples : List (List label × weight)) (p : List label) :
    List (List label × weight) :=
  samples.filter (fun s => decide (p <+: s.1))

theorem through_concat (samples : List (List label × weight))
    (s : List label × weight) (p : List label) :
    through (samples ++ [s]) p =
      through samples p ++ if p <+: s.1 then [s] else [] := by
  unfold through
  rw [List.filter_append]
  by_cases h : p <+: s.1 <;> simp [h]

section Monoid

variable [AddCommMonoid weight]

def weightAt (samples : List (List label × weight)) (p : List label) :
    weight :=
  ((through samples p).map Prod.snd).sum

/-- The prefix tree of the samples; its root is always there. -/
def ofSamples (samples : List (List label × weight)) : Weights label weight :=
  fun p =>
    if p = [] ∨ through samples p ≠ [] then some (weightAt samples p)
    else none

/-- Add a weight at one path, where a missing node counts as zero. -/
def bump (x : weight) (w : Weights label weight) (p : List label) :
    Weights label weight :=
  Function.update w p (some ((w p).getD 0 + x))

/-- Add a weight at each node on the way from `q` along the labels. -/
def bumpAlong (x : weight) :
    Weights label weight -> List label -> List label -> Weights label weight
  | w, _, [] => w
  | w, q, m :: ms => bumpAlong x (bump x w (q ++ [m])) (q ++ [m]) ms

/-!
## Adding a sample
-/

theorem bump_self (x : weight) (w : Weights label weight) (p : List label) :
    bump x w p p = some ((w p).getD 0 + x) :=
  Function.update_self p _ w

theorem bump_of_ne (x : weight) (w : Weights label weight) {p q : List label}
    (h : q ≠ p) : bump x w p q = w q :=
  Function.update_of_ne h _ w

/-- A walk from `q` adds the weight at the paths strictly below `q` that the
labels lead through. -/
theorem bumpAlong_apply (x : weight) (w : Weights label weight)
    (q ms p : List label) :
    bumpAlong x w q ms p =
      if q <+: p ∧ p ≠ q ∧ p <+: q ++ ms then some ((w p).getD 0 + x)
      else w p := by
  induction ms generalizing w q with
  | nil =>
      rw [if_neg]
      · rfl
      · intro h
        rcases h with ⟨hq, hne, hp⟩
        rw [List.append_nil] at hp
        exact hne (hp.eq_of_length_le hq.length_le)
  | cons m ms ih =>
      have hassoc : q ++ [m] ++ ms = q ++ m :: ms := by simp
      rw [bumpAlong, ih, hassoc]
      by_cases hpq : p = q ++ [m]
      · subst hpq
        have hbelow : q <+: q ++ [m] ∧ q ++ [m] ≠ q ∧
            q ++ [m] <+: q ++ m :: ms := by
          refine ⟨List.prefix_append q [m], by simp, ?_⟩
          rw [← hassoc]
          exact List.prefix_append (q ++ [m]) ms
        rw [if_neg (fun h => h.right.left rfl), if_pos hbelow, bump_self]
      · rw [bump_of_ne x w hpq]
        have hsame : (q ++ [m] <+: p ∧ p ≠ q ++ [m] ∧ p <+: q ++ m :: ms) <->
            (q <+: p ∧ p ≠ q ∧ p <+: q ++ m :: ms) := by
          constructor
          · intro h
            rcases h with ⟨hqm, _, hp⟩
            refine ⟨(List.prefix_append q [m]).trans hqm, ?_, hp⟩
            intro hsame
            have hlen := hqm.length_le
            rw [hsame, List.length_append, List.length_singleton] at hlen
            lia
          · intro h
            rcases h with ⟨⟨r, rfl⟩, hne, hp⟩
            rw [List.prefix_append_right_inj] at hp
            cases r with
            | nil => exact absurd (List.append_nil q) hne
            | cons m' r =>
                rcases List.cons_prefix_cons.mp hp with ⟨hm, hr⟩
                subst hm
                refine ⟨⟨r, by simp⟩, hpq, ?_⟩
                rw [List.prefix_append_right_inj]
                exact hp
        simp only [hsame]

theorem weightAt_concat (samples : List (List label × weight))
    (s : List label × weight) (p : List label) :
    weightAt (samples ++ [s]) p =
      weightAt samples p + if p <+: s.1 then s.2 else 0 := by
  unfold weightAt
  rw [through_concat]
  by_cases h : p <+: s.1 <;> simp [h]

theorem weightAt_of_through_eq_nil {samples : List (List label × weight)}
    {p : List label} (h : through samples p = []) :
    weightAt samples p = 0 := by
  simp [weightAt, h]

theorem ofSamples_getD (samples : List (List label × weight))
    (p : List label) : (ofSamples samples p).getD 0 = weightAt samples p := by
  unfold ofSamples
  split
  · rfl
  · rename_i h
    rw [not_or, not_not] at h
    exact (weightAt_of_through_eq_nil h.right).symm

/-- The tree of one more sample: its weight is added at the root and then along
its path. -/
theorem ofSamples_concat (samples : List (List label × weight))
    (path : List label) (x : weight) :
    ofSamples (samples ++ [(path, x)]) =
      bumpAlong x (bump x (ofSamples samples) []) [] path := by
  funext p
  rw [bumpAlong_apply, List.nil_append]
  cases p with
  | nil =>
      rw [if_neg (fun h => h.right.left rfl), bump_self, ofSamples_getD]
      simp [ofSamples, weightAt_concat]
  | cons m p =>
      rw [bump_of_ne x _ (List.cons_ne_nil m p), ofSamples_getD]
      by_cases h : m :: p <+: path
      · simp [ofSamples, weightAt_concat, through_concat, h]
      · simp [ofSamples, weightAt_concat, through_concat, h]

theorem ofSamples_nil :
    ofSamples ([] : List (List label × weight)) =
      Function.update (fun _ => none) [] (some 0) := by
  funext p
  by_cases h : p = [] <;> simp [ofSamples, through, weightAt, h]

theorem ofSamples_ne_none_iff {samples : List (List label × weight)}
    {p : List label} (hp : p ≠ []) :
    ofSamples samples p ≠ none <-> exists s, s ∈ samples ∧ p <+: s.1 := by
  unfold ofSamples
  split
  · rename_i h
    have hthrough := h.resolve_left hp
    rcases List.exists_mem_of_ne_nil _ hthrough with ⟨s, hs⟩
    rcases List.mem_filter.mp hs with ⟨hmem, hpre⟩
    exact iff_of_true (by simp) ⟨s, hmem, of_decide_eq_true hpre⟩
  · rename_i h
    refine iff_of_false (by simp) ?_
    intro hs
    rcases hs with ⟨s, hmem, hpre⟩
    apply h
    right
    apply List.ne_nil_of_mem (a := s)
    exact List.mem_filter.mpr ⟨hmem, decide_eq_true hpre⟩

/-!
## What the tree depends on

The tree is determined by the paths of the samples and the total weight of each
path.  So it does not depend on the order of the samples, or on how the weight
of a path is split.
-/

def exactWeight (samples : List (List label × weight)) (q : List label) :
    weight :=
  ((samples.filter (fun s => decide (s.1 = q))).map Prod.snd).sum

theorem exactWeight_cons (s : List label × weight)
    (samples : List (List label × weight)) (q : List label) :
    exactWeight (s :: samples) q =
      (if s.1 = q then s.2 else 0) + exactWeight samples q := by
  unfold exactWeight
  by_cases h : s.1 = q <;> simp [h]

theorem weightAt_cons (s : List label × weight)
    (samples : List (List label × weight)) (p : List label) :
    weightAt (s :: samples) p =
      (if p <+: s.1 then s.2 else 0) + weightAt samples p := by
  unfold weightAt through
  by_cases h : p <+: s.1 <;> simp [h]

theorem weightAt_eq_sum (samples : List (List label × weight))
    (p : List label) {paths : Finset (List label)}
    (hpaths : forall s, s ∈ samples -> s.1 ∈ paths) :
    weightAt samples p =
      ∑ q ∈ paths, if p <+: q then exactWeight samples q else 0 := by
  induction samples with
  | nil => simp [weightAt, through, exactWeight]
  | cons s samples ih =>
      have hrest := ih (fun s' hs' => hpaths s' (List.mem_cons_of_mem s hs'))
      have hsplit : forall q,
          (if p <+: q then exactWeight (s :: samples) q else 0) =
            (if s.1 = q then (if p <+: q then s.2 else 0) else 0) +
              if p <+: q then exactWeight samples q else 0 := by
        intro q
        rw [exactWeight_cons]
        by_cases hp : p <+: q <;> simp [hp]
      rw [weightAt_cons, hrest, Finset.sum_congr rfl (fun q _ => hsplit q),
        Finset.sum_add_distrib, Finset.sum_ite_eq,
        if_pos (hpaths s List.mem_cons_self)]

/-- The samples have the same paths, each with the same total weight. -/
structure SameStacks (samples samples' : List (List label × weight)) :
    Prop where
  paths : forall q, q ∈ samples.map Prod.fst <-> q ∈ samples'.map Prod.fst
  weights : forall q, exactWeight samples q = exactWeight samples' q

theorem SameStacks.weightAt_eq {samples samples' : List (List label × weight)}
    (h : SameStacks samples samples') (p : List label) :
    weightAt samples p = weightAt samples' p := by
  let paths := (samples.map Prod.fst).toFinset
  have hpaths : forall s, s ∈ samples -> s.1 ∈ paths := by
    intro s hs
    exact List.mem_toFinset.mpr (List.mem_map_of_mem hs)
  have hpaths' : forall s, s ∈ samples' -> s.1 ∈ paths := by
    intro s hs
    exact List.mem_toFinset.mpr ((h.paths s.1).mpr (List.mem_map_of_mem hs))
  rw [weightAt_eq_sum samples p hpaths, weightAt_eq_sum samples' p hpaths']
  simp only [h.weights]

theorem SameStacks.ofSamples_eq
    {samples samples' : List (List label × weight)}
    (h : SameStacks samples samples') :
    ofSamples samples = ofSamples samples' := by
  funext p
  have hthrough : through samples p ≠ [] <-> through samples' p ≠ [] := by
    simp only [through, ne_eq, List.filter_eq_nil_iff, decide_eq_true_eq,
      not_forall, not_not]
    constructor
    · intro hs
      rcases hs with ⟨s, hs, hp⟩
      rcases List.mem_map.mp ((h.paths s.1).mp (List.mem_map_of_mem hs)) with
        ⟨s', hs', hpath⟩
      exact ⟨s', hs', hpath ▸ hp⟩
    · intro hs
      rcases hs with ⟨s, hs, hp⟩
      rcases List.mem_map.mp ((h.paths s.1).mpr (List.mem_map_of_mem hs)) with
        ⟨s', hs', hpath⟩
      exact ⟨s', hs', hpath ▸ hp⟩
  simp only [ofSamples, hthrough, h.weightAt_eq p]

end Monoid

/-!
## Children

Where no weight is negative, the children of a node weigh no more than the node:
every sample through a child passes through the node, and through one child
only.
-/

section Ordered

variable [AddCommMonoid weight] [PartialOrder weight] [IsOrderedAddMonoid weight]

omit [IsOrderedAddMonoid weight] in
theorem sum_child_weight_le {x : weight} (hx : 0 ≤ x) (p q : List label)
    {ms : List label} (hms : ms.Nodup) :
    (ms.map (fun m => if p ++ [m] <+: q then x else 0)).sum ≤
      if p <+: q then x else 0 := by
  induction ms with
  | nil =>
      rw [List.map_nil, List.sum_nil]
      split
      · exact hx
      · exact le_refl 0
  | cons m ms ih =>
      rcases List.nodup_cons.mp hms with ⟨hnew, hms⟩
      rw [List.map_cons, List.sum_cons]
      by_cases hm : p ++ [m] <+: q
      · have hp : p <+: q := (List.prefix_append p [m]).trans hm
        have hrest : ms.map (fun m => if p ++ [m] <+: q then x else 0) =
            ms.map (fun _ => 0) := by
          apply List.map_congr_left
          intro m' hm'
          rw [if_neg]
          intro hm''
          have hpre := List.prefix_of_prefix_length_le hm hm'' (by simp)
          have hsame := hpre.eq_of_length (by simp)
          have hlabel := List.append_cancel_left hsame
          rw [List.singleton_inj.mp hlabel] at hnew
          exact hnew hm'
        rw [if_pos hm, if_pos hp, hrest]
        simp
      · rw [if_neg hm, zero_add]
        exact ih hms

theorem sum_weightAt_children_le {samples : List (List label × weight)}
    (h : forall s, s ∈ samples -> 0 ≤ s.2) (p : List label) {ms : List label}
    (hms : ms.Nodup) :
    (ms.map (fun m => weightAt samples (p ++ [m]))).sum ≤
      weightAt samples p := by
  induction samples with
  | nil => simp [weightAt, through]
  | cons s samples ih =>
      have hrest := ih (fun s' hs' => h s' (List.mem_cons_of_mem s hs'))
      have hhead := sum_child_weight_le (h s List.mem_cons_self) p s.1 hms
      simp only [weightAt_cons, List.sum_map_add]
      exact add_le_add hhead hrest

end Ordered

/-!
## What ends at a node

A sample through a node ends there or goes on to one child, so the weight of a
node is that of the samples that end there and that of its children.
-/

section Exact

variable [AddCommMonoid weight]

theorem sum_child_weight (x : weight) (p q : List label) {ms : List label}
    (hms : ms.Nodup) (hcover : forall m, p ++ [m] <+: q -> m ∈ ms) :
    (if p <+: q then x else 0) = (if q = p then x else 0) +
      (ms.map (fun m => if p ++ [m] <+: q then x else 0)).sum := by
  by_cases hp : p <+: q
  · rcases hp with ⟨rest, rfl⟩
    have hchild : forall m, p ++ [m] <+: p ++ rest <-> [m] <+: rest :=
      fun m => List.prefix_append_right_inj p
    cases rest with
    | nil =>
        have hnone : forall m, ¬ p ++ [m] <+: p := by
          intro m hm
          have hlength := hm.length_le
          rw [List.length_append, List.length_singleton] at hlength
          lia
        simp [hnone]
    | cons m rest =>
        have hmem : m ∈ ms := hcover m ((hchild m).mpr ⟨rest, rfl⟩)
        have hone : forall m', [m'] <+: m :: rest <-> m' = m := by
          intro m'
          simp [List.cons_prefix_cons]
        rw [if_pos (List.prefix_append p _), if_neg (by simp), zero_add]
        simp only [hchild, hone]
        rw [List.sum_map_eq_nsmul_single m, if_pos rfl,
          List.count_eq_one_of_mem hms hmem, one_nsmul]
        intro m' hne _
        exact if_neg hne
  · have hne : q ≠ p := fun heq => hp (heq ▸ List.prefix_refl q)
    have hchild : forall m, ¬ p ++ [m] <+: q :=
      fun m hm => hp ((List.prefix_append p [m]).trans hm)
    simp [hp, hne, hchild]

theorem weightAt_eq_exactWeight_add (samples : List (List label × weight))
    (p : List label) {ms : List label} (hms : ms.Nodup)
    (hcover : forall s, s ∈ samples -> forall m, p ++ [m] <+: s.1 -> m ∈ ms) :
    weightAt samples p = exactWeight samples p +
      (ms.map (fun m => weightAt samples (p ++ [m]))).sum := by
  induction samples with
  | nil => simp [weightAt, through, exactWeight]
  | cons s samples ih =>
      have hrest := ih (fun s' hs' => hcover s' (List.mem_cons_of_mem s hs'))
      have hhead := sum_child_weight s.2 p s.1 hms
        (hcover s List.mem_cons_self)
      simp only [weightAt_cons, exactWeight_cons, List.sum_map_add]
      rw [hrest, hhead]
      exact add_add_add_comm _ _ _ _

/-- What ends at some of the nodes are the samples with the paths of these. -/
theorem sum_exactWeight {node : Type*} (nodes : Finset node)
    (path : node -> List label) (hpath : Set.InjOn path nodes)
    (samples : List (List label × weight)) (P : List label -> Prop)
    [DecidablePred P]
    (hnodes : forall s, s ∈ samples ->
      (P s.1 <-> exists i, i ∈ nodes ∧ path i = s.1)) :
    (∑ i ∈ nodes, exactWeight samples (path i)) =
      ((samples.filter (fun s => decide (P s.1))).map Prod.snd).sum := by
  induction samples with
  | nil => simp [exactWeight]
  | cons s samples ih =>
      have hrest := ih (fun s' hs' => hnodes s' (List.mem_cons_of_mem s hs'))
      have hhead : (∑ i ∈ nodes, if s.1 = path i then s.2 else 0) =
          if P s.1 then s.2 else 0 := by
        by_cases hP : P s.1
        · rcases (hnodes s List.mem_cons_self).mp hP with ⟨i, hi, hsame⟩
          rw [if_pos hP, Finset.sum_eq_single i]
          · rw [if_pos hsame.symm]
          · intro j hj hne
            rw [if_neg]
            intro hother
            exact hne (hpath hj hi (hother.symm.trans hsame.symm))
          · exact fun hmissing => absurd hi hmissing
        · rw [if_neg hP]
          apply Finset.sum_eq_zero
          intro i hi
          rw [if_neg]
          intro hsame
          exact hP ((hnodes s List.mem_cons_self).mpr ⟨i, hi, hsame.symm⟩)
      simp only [exactWeight_cons, Finset.sum_add_distrib]
      rw [hhead, hrest]
      by_cases hP : P s.1 <;> simp [hP]

end Exact

end PrefixTree
end Foundation
end Franky
