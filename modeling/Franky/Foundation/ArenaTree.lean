import Mathlib.Data.List.Infix
import Mathlib.Logic.Function.Basic

/-!
# Labelled trees whose nodes are numbered

The nodes of a tree are numbered in the order of their creation, the root first.
Each node knows its label, its parent and, for each label, its child.  A
numbering is described by the path of labels that leads to each node.
-/

namespace Franky
namespace Foundation

variable {tag : Type*}

structure ArenaTree (tag : Type*) where
  size : Nat
  label : Nat -> tag
  parent : Nat -> Option Nat
  child : Nat -> tag -> Option Nat

namespace ArenaTree

/-- The node reached from `i` by taking the child for each label in turn. -/
def follow (t : ArenaTree tag) : Nat -> List tag -> Option Nat
  | i, [] => some i
  | i, m :: p => (t.child i m).bind (fun j => t.follow j p)

/-- The labels from the root down to the node are those met on the way up. -/
inductive SpellsUp (t : ArenaTree tag) : Nat -> List tag -> Prop where
  | root {i : Nat} (hparent : t.parent i = none) : SpellsUp t i []
  | step {i j : Nat} {p : List tag} (hparent : t.parent j = some i)
      (hup : SpellsUp t i p) : SpellsUp t j (p ++ [t.label j])

/-- Each node is known by its path from the root. -/
structure Paths (t : ArenaTree tag) (path : Nat -> List tag) : Prop where
  root_lt : 0 < t.size
  root_path : path 0 = []
  root_parent : t.parent 0 = none
  injective : forall i j, i < t.size -> j < t.size -> path i = path j -> i = j
  child_path : forall i m j, i < t.size -> t.child i m = some j ->
    j < t.size ∧ path j = path i ++ [m]
  parent_child : forall j, j < t.size -> j ≠ 0 ->
    exists i, i < j ∧ t.parent j = some i ∧ t.child i (t.label j) = some j

/-- The tree with one more node, the child of `i` for the label `m`. -/
def grow [DecidableEq tag] (t : ArenaTree tag) (i : Nat) (m : tag) :
    ArenaTree tag where
  size := t.size + 1
  label := Function.update t.label t.size m
  parent := Function.update t.parent t.size (some i)
  child := Function.update
    (Function.update t.child i (Function.update (t.child i) m (some t.size)))
    t.size (fun _ => none)

/-!
## Following a path
-/

theorem follow_append (t : ArenaTree tag) (i : Nat) (p q : List tag) :
    t.follow i (p ++ q) = (t.follow i p).bind (fun j => t.follow j q) := by
  induction p generalizing i with
  | nil => rfl
  | cons m p ih =>
      simp only [List.cons_append, follow]
      cases t.child i m with
      | none => rfl
      | some j => exact ih j

theorem follow_concat (t : ArenaTree tag) (i : Nat) (p : List tag)
    (m : tag) :
    t.follow i (p ++ [m]) = (t.follow i p).bind (fun j => t.child j m) := by
  rw [follow_append]
  congr 1
  funext j
  simp [follow]

variable {t : ArenaTree tag} {path : Nat -> List tag}

theorem Paths.path_of_follow (h : t.Paths path) {i j : Nat} {p : List tag}
    (hi : i < t.size) (hfollow : t.follow i p = some j) :
    j < t.size ∧ path j = path i ++ p := by
  induction p generalizing i with
  | nil =>
      cases hfollow
      exact ⟨hi, (List.append_nil _).symm⟩
  | cons m p ih =>
      rcases Option.bind_eq_some_iff.mp hfollow with ⟨k, hk, hrest⟩
      rcases h.child_path i m k hi hk with ⟨hlt, hpath⟩
      rcases ih hlt hrest with ⟨hj, hpathj⟩
      refine ⟨hj, ?_⟩
      rw [hpathj, hpath, List.append_assoc]
      rfl

theorem Paths.parent_path (h : t.Paths path) {j : Nat} (hj : j < t.size)
    (hne : j ≠ 0) :
    exists i, i < j ∧ t.parent j = some i ∧
      t.child i (t.label j) = some j ∧ path j = path i ++ [t.label j] := by
  rcases h.parent_child j hj hne with ⟨i, hi, hparent, hchild⟩
  exact ⟨i, hi, hparent, hchild,
    (h.child_path i _ j (hi.trans hj) hchild).right⟩

theorem Paths.parent_of_child (h : t.Paths path) {i j : Nat} {m : tag}
    (hi : i < t.size) (hchild : t.child i m = some j) :
    i < j ∧ t.parent j = some i := by
  rcases h.child_path i m j hi hchild with ⟨hj, hpath⟩
  have hne : j ≠ 0 := by
    intro hzero
    rw [hzero, h.root_path] at hpath
    simp at hpath
  rcases h.parent_path hj hne with ⟨k, hk, hparent, _, hpathj⟩
  rw [hpathj] at hpath
  have hsame : k = i := h.injective k i (hk.trans hj) hi
    (List.append_inj' hpath rfl).left
  rw [← hsame]
  exact ⟨hk, hparent⟩

theorem Paths.follow_path (h : t.Paths path) {j : Nat} {p : List tag}
    (hj : j < t.size) (hpath : path j = p) : t.follow 0 p = some j := by
  induction p using List.reverseRecOn generalizing j with
  | nil =>
      have hzero : j = 0 := by
        apply h.injective j 0 hj h.root_lt
        rw [hpath, h.root_path]
      rw [hzero]
      rfl
  | append_singleton p m ih =>
      have hne : j ≠ 0 := by
        intro hzero
        rw [hzero, h.root_path] at hpath
        simp at hpath
      rcases h.parent_path hj hne with ⟨i, hi, _, hchild, hpathj⟩
      rw [hpath] at hpathj
      rcases List.append_inj' hpathj rfl with ⟨hpre, hlast⟩
      cases hlast
      rw [follow_concat, ih (hi.trans hj) hpre.symm]
      exact hchild

theorem Paths.follow_root_iff (h : t.Paths path) {j : Nat} {p : List tag} :
    t.follow 0 p = some j <-> j < t.size ∧ path j = p := by
  constructor
  · intro hfollow
    rcases h.path_of_follow h.root_lt hfollow with ⟨hj, hpath⟩
    rw [h.root_path, List.nil_append] at hpath
    exact ⟨hj, hpath⟩
  · intro hj
    exact h.follow_path hj.left hj.right

theorem Paths.spellsUp (h : t.Paths path) {j : Nat} (hj : j < t.size) :
    t.SpellsUp j (path j) := by
  generalize hp : path j = p
  induction p using List.reverseRecOn generalizing j with
  | nil =>
      have hzero : j = 0 := by
        apply h.injective j 0 hj h.root_lt
        rw [hp, h.root_path]
      rw [hzero]
      exact SpellsUp.root h.root_parent
  | append_singleton p m ih =>
      have hne : j ≠ 0 := by
        intro hzero
        rw [hzero, h.root_path] at hp
        simp at hp
      rcases h.parent_path hj hne with ⟨i, hi, hparent, _, hpathj⟩
      rw [hp] at hpathj
      rcases List.append_inj' hpathj rfl with ⟨hpre, hlast⟩
      cases hlast
      exact SpellsUp.step hparent (ih (hi.trans hj) hpre.symm)

theorem Paths.eq_path_of_spellsUp (h : t.Paths path) {j : Nat} {p : List tag}
    (hj : j < t.size) (hup : t.SpellsUp j p) : p = path j := by
  induction hup with
  | root hparent =>
      rename_i j
      rcases Nat.eq_zero_or_pos j with rfl | hpos
      · exact h.root_path.symm
      · rcases h.parent_child j hj (Nat.ne_of_gt hpos) with ⟨i, _, hsome, _⟩
        rw [hparent] at hsome
        cases hsome
  | step hparent hup ih =>
      rename_i i j p
      have hne : j ≠ 0 := by
        rintro rfl
        rw [h.root_parent] at hparent
        cases hparent
      rcases h.parent_path hj hne with ⟨k, hk, hsome, _, hpath⟩
      rw [hparent] at hsome
      cases hsome
      rw [ih (hk.trans hj), hpath]

theorem Paths.label_eq_getLast (h : t.Paths path) {j : Nat} (hj : j < t.size)
    {p : List tag} (hpath : path j = p) (hp : p ≠ []) :
    t.label j = p.getLast hp := by
  subst hpath
  have hne : j ≠ 0 := by
    intro hzero
    subst hzero
    exact hp h.root_path
  rcases h.parent_path hj hne with ⟨i, _, _, _, hpathj⟩
  simp only [hpathj, List.getLast_append_singleton]

/-!
## Growing a tree
-/

variable [DecidableEq tag]

theorem child_grow (t : ArenaTree tag) (i : Nat) (m : tag) {k : Nat}
    (hk : k < t.size) (m' : tag) :
    (t.grow i m).child k m' =
      if k = i ∧ m' = m then some t.size else t.child k m' := by
  simp only [ArenaTree.grow, Function.update_of_ne (Nat.ne_of_lt hk)]
  by_cases hki : k = i
  · subst hki
    by_cases hm : m' = m <;> simp [hm]
  · simp [hki]

theorem child_grow_new (t : ArenaTree tag) (i : Nat) (m m' : tag) :
    (t.grow i m).child t.size m' = none := by
  simp [ArenaTree.grow]

theorem label_grow (t : ArenaTree tag) (i : Nat) (m : tag) {j : Nat}
    (hj : j < t.size) : (t.grow i m).label j = t.label j :=
  Function.update_of_ne (Nat.ne_of_lt hj) _ _

@[simp] theorem label_grow_new (t : ArenaTree tag) (i : Nat) (m : tag) :
    (t.grow i m).label t.size = m :=
  Function.update_self _ _ _

theorem parent_grow (t : ArenaTree tag) (i : Nat) (m : tag) {j : Nat}
    (hj : j < t.size) : (t.grow i m).parent j = t.parent j :=
  Function.update_of_ne (Nat.ne_of_lt hj) _ _

@[simp] theorem parent_grow_new (t : ArenaTree tag) (i : Nat) (m : tag) :
    (t.grow i m).parent t.size = some i :=
  Function.update_self _ _ _

omit [DecidableEq tag] in
theorem Paths.path_ne_concat (h : t.Paths path) {i j : Nat} {m : tag}
    (hi : i < t.size) (hnone : t.child i m = none) (hj : j < t.size) :
    path j ≠ path i ++ [m] := by
  intro hpath
  have hfollow := h.follow_path hj hpath
  rw [follow_concat, h.follow_path hi rfl] at hfollow
  rw [Option.bind_some, hnone] at hfollow
  cases hfollow

/-- A new child is known by its parent's path and its label. -/
theorem Paths.grow (h : t.Paths path) {i : Nat} {m : tag} (hi : i < t.size)
    (hnone : t.child i m = none) :
    (t.grow i m).Paths (Function.update path t.size (path i ++ [m])) := by
  have hold : forall j, j < t.size ->
      Function.update path t.size (path i ++ [m]) j = path j :=
    fun j hj => Function.update_of_ne (Nat.ne_of_lt hj) _ _
  have hnew : Function.update path t.size (path i ++ [m]) t.size =
      path i ++ [m] := Function.update_self _ _ _
  constructor
  · exact Nat.succ_pos t.size
  · rw [hold 0 h.root_lt, h.root_path]
  · rw [parent_grow t i m h.root_lt, h.root_parent]
  · intro j k hj hk hpath
    rcases Nat.lt_succ_iff_lt_or_eq.mp hj with hj | rfl <;>
      rcases Nat.lt_succ_iff_lt_or_eq.mp hk with hk | rfl
    · rw [hold j hj, hold k hk] at hpath
      exact h.injective j k hj hk hpath
    · rw [hold j hj, hnew] at hpath
      exact absurd hpath (h.path_ne_concat hi hnone hj)
    · rw [hold k hk, hnew] at hpath
      exact absurd hpath.symm (h.path_ne_concat hi hnone hk)
    · rfl
  · intro k m' j hk hkj
    rcases Nat.lt_succ_iff_lt_or_eq.mp hk with hk | rfl
    · rw [child_grow t i m hk] at hkj
      rw [hold k hk]
      by_cases hnode : k = i ∧ m' = m
      · rw [if_pos hnode] at hkj
        cases hkj
        rw [hnew, hnode.left, hnode.right]
        exact ⟨Nat.lt_succ_self t.size, rfl⟩
      · rw [if_neg hnode] at hkj
        rcases h.child_path k m' j hk hkj with ⟨hj, hpath⟩
        rw [hold j hj]
        exact ⟨Nat.lt_succ_of_lt hj, hpath⟩
    · rw [child_grow_new] at hkj
      cases hkj
  · intro j hj hne
    rcases Nat.lt_succ_iff_lt_or_eq.mp hj with hj | rfl
    · rcases h.parent_child j hj hne with ⟨k, hlt, hparent, hkj⟩
      refine ⟨k, hlt, ?_, ?_⟩
      · rw [parent_grow t i m hj, hparent]
      · rw [label_grow t i m hj, child_grow t i m (hlt.trans hj), if_neg, hkj]
        intro hnode
        rw [hnode.left, hnode.right, hnone] at hkj
        cases hkj
    · refine ⟨i, hi, parent_grow_new t i m, ?_⟩
      rw [label_grow_new, child_grow t i m hi, if_pos ⟨rfl, rfl⟩]

theorem Paths.follow_grow (h : t.Paths path) {i : Nat} {m : tag}
    (hi : i < t.size) (hnone : t.child i m = none) (p : List tag) :
    (t.grow i m).follow 0 p =
      if p = path i ++ [m] then some t.size else t.follow 0 p := by
  have hgrow := h.grow hi hnone
  split
  · rename_i hp
    rw [hgrow.follow_root_iff, hp]
    exact ⟨Nat.lt_succ_self t.size, Function.update_self _ _ _⟩
  · rename_i hp
    apply Option.ext
    intro j
    rw [hgrow.follow_root_iff, h.follow_root_iff]
    constructor
    · intro hj
      rcases hj with ⟨hlt, hpath⟩
      rcases Nat.lt_succ_iff_lt_or_eq.mp hlt with hlt | rfl
      · rw [Function.update_of_ne (Nat.ne_of_lt hlt)] at hpath
        exact ⟨hlt, hpath⟩
      · rw [Function.update_self] at hpath
        exact absurd hpath.symm hp
    · intro hj
      rcases hj with ⟨hlt, hpath⟩
      rw [Function.update_of_ne (Nat.ne_of_lt hlt)]
      exact ⟨Nat.lt_succ_of_lt hlt, hpath⟩

end ArenaTree
end Foundation
end Franky
