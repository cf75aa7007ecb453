import Mathlib.Logic.Relation
import Mathlib.Data.List.Nodup
import Mathlib.Data.List.Range
import Franky.Foundation.Machine
import Franky.Plugin.Lifetime

/-!
# The graph of nested lifetimes

What every object is, by its number, is decided by the calls made so far.  The
action list of a lifetime can be read off this record: first the actions that
take it out of its parents, then, in the order of their numbers, its user
actions and the terminations of its children that are not gone.
-/

namespace Franky
namespace Plugin

open Foundation

/-- What an object is: a lifetime nested in others, or an action that was
registered on a lifetime. -/
inductive Birth where
  | lifetime (parents : List Nat)
  | action (owner : Nat)
deriving DecidableEq, Repr

def Call.birth : Call -> Option Birth
  | Call.create parents => some (Birth.lifetime parents)
  | Call.add l => some (Birth.action l)
  | Call.terminate _ => none

/-- The objects by number; the first one is `Lifetime.Eternal`. -/
def births (calls : List Call) : List Birth :=
  Birth.lifetime [] :: calls.filterMap Call.birth

section Births

variable (bs : List Birth)

def IsLifetime (l : Nat) : Prop := exists ps, bs[l]? = some (Birth.lifetime ps)

/-- The lifetime `c` was created with `p` among its parents. -/
def IsChild (p c : Nat) : Prop :=
  exists ps, bs[c]? = some (Birth.lifetime ps) ∧ p ∈ ps

/-- The action `r` was registered on `l`. -/
def IsAction (r l : Nat) : Prop := bs[r]? = some (Birth.action l)

/-- The lifetime is another one or is nested in it, at any depth. -/
def Nested (a l : Nat) : Prop := Relation.ReflTransGen (IsChild bs) a l

/-- Objects refer to older lifetimes, and to different ones. -/
structure WellBorn : Prop where
  child : forall p c, IsChild bs p c -> p < c ∧ IsLifetime bs p
  action : forall r l, IsAction bs r l -> l < r ∧ IsLifetime bs l
  nodup : forall (l : Nat) (ps : List Nat),
    bs[l]? = some (Birth.lifetime ps) -> ps.Nodup

/-- The entry that object `k` has in the list of `l`. -/
def Birth.entry (l k : Nat) (gone : Nat -> Bool) : Birth -> Option Action
  | Birth.lifetime ps =>
      if l ∈ ps ∧ gone k = false then some (Action.terminate k) else none
  | Birth.action owner => if owner = l then some (Action.user k) else none

def entryOf (gone : Nat -> Bool) (l k : Nat) : Option Action :=
  bs[k]?.bind (Birth.entry l k gone)

/-- The entries of the objects below `bound` in the list of `l`. -/
def entriesBelow (gone : Nat -> Bool) (l bound : Nat) : List Action :=
  (List.range bound).filterMap (entryOf bs gone l)

def entries (gone : Nat -> Bool) (l : Nat) : List Action :=
  entriesBelow bs gone l bs.length

def parentsOf (l : Nat) : List Nat :=
  match bs[l]? with
  | some (Birth.lifetime ps) => ps
  | _ => []

/-- The actions that take a lifetime out of its parents. -/
def removals (l : Nat) : List Action :=
  (parentsOf bs l).map (fun p => Action.remove p l)

end Births

variable {bs : List Birth}

/-!
## Objects and entries
-/

theorem IsChild.isLifetime {p c : Nat} (h : IsChild bs p c) :
    IsLifetime bs c := by
  rcases h with ⟨ps, hc, _⟩
  exact ⟨ps, hc⟩

theorem IsLifetime.lt {l : Nat} (h : IsLifetime bs l) : l < bs.length := by
  rcases h with ⟨ps, hl⟩
  exact (List.getElem?_eq_some_iff.mp hl).choose

theorem IsAction.lt {r l : Nat} (h : IsAction bs r l) : r < bs.length :=
  (List.getElem?_eq_some_iff.mp h).choose

theorem not_isAction_of_isLifetime {l o : Nat} (h : IsLifetime bs l) :
    ¬ IsAction bs l o := by
  rcases h with ⟨ps, hl⟩
  intro haction
  rw [IsAction, hl] at haction
  cases haction

theorem IsAction.unique {r l l' : Nat} (h : IsAction bs r l)
    (h' : IsAction bs r l') : l = l' := by
  rw [IsAction, h] at h'
  cases h'
  rfl

theorem WellBorn.nodup_parentsOf (h : WellBorn bs) {l : Nat}
    (hl : IsLifetime bs l) : (parentsOf bs l).Nodup := by
  rcases hl with ⟨ps, hl⟩
  have heq : parentsOf bs l = ps := by
    simp only [parentsOf, hl]
  rw [heq]
  exact h.nodup l ps hl

theorem mem_parentsOf {p l : Nat} : p ∈ parentsOf bs l <-> IsChild bs p l := by
  unfold parentsOf IsChild
  cases hl : bs[l]? with
  | none => simp
  | some birth => cases birth <;> simp

theorem Nested.le (h : WellBorn bs) {a l : Nat} (hnested : Nested bs a l) :
    a ≤ l := by
  induction hnested with
  | refl => exact Nat.le_refl a
  | tail _ hchild ih =>
      exact ih.trans (Nat.le_of_lt (h.child _ _ hchild).left)

theorem entryOf_child {gone : Nat -> Bool} {l k : Nat}
    (h : IsChild bs l k) (hgone : gone k = false) :
    entryOf bs gone l k = some (Action.terminate k) := by
  rcases h with ⟨ps, hk, hmem⟩
  simp [entryOf, hk, Birth.entry, hmem, hgone]

theorem entryOf_cases (bs : List Birth) (gone : Nat -> Bool) (l k : Nat) :
    (entryOf bs gone l k = some (Action.user k) ∧ IsAction bs k l) ∨
      (entryOf bs gone l k = some (Action.terminate k) ∧ IsChild bs l k ∧
        gone k = false) ∨
      (entryOf bs gone l k = none ∧ ¬ IsAction bs k l ∧
        (IsChild bs l k -> gone k = true)) := by
  unfold entryOf IsAction IsChild
  cases hk : bs[k]? with
  | none => simp
  | some birth =>
      cases birth with
      | action owner =>
          rcases eq_or_ne owner l with rfl | hne
          · simp [Birth.entry]
          · simp [Birth.entry, hne]
      | lifetime ps =>
          cases hgone : gone k with
          | true => simp [Birth.entry, hgone]
          | false =>
              by_cases hmem : l ∈ ps <;> simp [Birth.entry, hgone, hmem]

theorem entriesBelow_succ (gone : Nat -> Bool) (l bound : Nat) :
    entriesBelow bs gone l (bound + 1) =
      entriesBelow bs gone l bound ++ (entryOf bs gone l bound).toList := by
  unfold entriesBelow
  rw [List.range_succ, List.filterMap_append]
  cases hentry : entryOf bs gone l bound <;> simp [hentry]

theorem entriesBelow_congr {gone gone' : Nat -> Bool} {l bound : Nat}
    (h : forall k, k < bound -> gone k = gone' k) :
    entriesBelow bs gone l bound = entriesBelow bs gone' l bound := by
  apply List.filterMap_congr
  intro k hk
  have hsame := h k (List.mem_range.mp hk)
  unfold entryOf
  congr 1
  funext birth
  cases birth <;> simp [Birth.entry, hsame]

/-- An entry is the only one of its object. -/
theorem mem_entriesBelow_terminate {gone : Nat -> Bool} {l bound c : Nat} :
    Action.terminate c ∈ entriesBelow bs gone l bound <->
      c < bound ∧ IsChild bs l c ∧ gone c = false := by
  unfold entriesBelow
  rw [List.mem_filterMap]
  constructor
  · intro hexists
    rcases hexists with ⟨k, hk, hentry⟩
    rcases entryOf_cases bs gone l k with
      ⟨heq, _⟩ | ⟨heq, hchild, hgone⟩ | ⟨heq, _⟩
    · rw [heq] at hentry
      cases hentry
    · rw [heq] at hentry
      cases hentry
      exact ⟨List.mem_range.mp hk, hchild, hgone⟩
    · rw [heq] at hentry
      cases hentry
  · intro hboth
    rcases hboth with ⟨hc, hchild, hgone⟩
    exact ⟨c, List.mem_range.mpr hc, entryOf_child hchild hgone⟩

theorem entryOf_eq_some {gone : Nat -> Bool} {l k : Nat} {action : Action}
    (h : entryOf bs gone l k = some action) :
    action = Action.user k ∨ action = Action.terminate k := by
  rcases entryOf_cases bs gone l k with ⟨heq, _⟩ | ⟨heq, _⟩ | ⟨heq, _⟩ <;>
    rw [heq] at h <;> cases h <;> simp

theorem entriesBelow_nodup (gone : Nat -> Bool) (l bound : Nat) :
    (entriesBelow bs gone l bound).Nodup := by
  apply List.Nodup.filterMap _ List.nodup_range
  intro k k' action h h'
  rcases entryOf_eq_some h with rfl | rfl <;>
    rcases entryOf_eq_some h' with heq | heq <;> cases heq <;> rfl

theorem entriesBelow_erase (gone : Nat -> Bool) (l c bound : Nat) :
    (entriesBelow bs gone l bound).erase (Action.terminate c) =
      entriesBelow bs (Function.update gone c true) l bound := by
  rw [(entriesBelow_nodup gone l bound).erase_eq_filter]
  unfold entriesBelow
  rw [List.filter_filterMap]
  apply List.filterMap_congr
  intro k _
  rcases eq_or_ne k c with rfl | hne
  · unfold entryOf
    cases bs[k]? with
    | none => rfl
    | some birth =>
        cases birth with
        | lifetime ps => simp [Birth.entry]
        | action owner =>
            rcases eq_or_ne owner l with rfl | hne <;> simp [Birth.entry, *]
  · have hsame : entryOf bs (Function.update gone c true) l k =
        entryOf bs gone l k := by
      unfold entryOf
      congr 1
      funext birth
      cases birth <;> simp [Birth.entry, hne]
    rw [hsame]
    rcases entryOf_cases bs gone l k with ⟨heq, _⟩ | ⟨heq, _⟩ | ⟨heq, _⟩ <;>
      rw [heq] <;> simp [hne]

/-!
## A new object
-/

section Concat

variable {b : Birth}

theorem born_concat {k : Nat} {x : Birth} : (bs ++ [b])[k]? = some x <->
    bs[k]? = some x ∨ (k = bs.length ∧ b = x) := by
  rw [List.getElem?_append]
  rcases Nat.lt_trichotomy k bs.length with hlt | rfl | hgt
  · simp [hlt, Nat.ne_of_lt hlt]
  · simp
  · have hbeyond : k - bs.length ≠ 0 := Nat.sub_ne_zero_of_lt hgt
    simp [Nat.not_lt_of_gt hgt, Nat.ne_of_gt hgt, hbeyond]

theorem isLifetime_concat {l : Nat} : IsLifetime (bs ++ [b]) l <->
    IsLifetime bs l ∨ (l = bs.length ∧ exists ps, b = Birth.lifetime ps) := by
  simp only [IsLifetime, born_concat, exists_or, exists_and_left]

theorem isChild_concat {p c : Nat} : IsChild (bs ++ [b]) p c <->
    IsChild bs p c ∨
      (c = bs.length ∧ exists ps, b = Birth.lifetime ps ∧ p ∈ ps) := by
  simp only [IsChild, born_concat, or_and_right, exists_or, and_assoc,
    exists_and_left]

theorem isAction_concat {r l : Nat} : IsAction (bs ++ [b]) r l <->
    IsAction bs r l ∨ (r = bs.length ∧ b = Birth.action l) :=
  born_concat

theorem WellBorn.concat_action (h : WellBorn bs) {owner : Nat}
    (howner : IsLifetime bs owner) :
    WellBorn (bs ++ [Birth.action owner]) where
  child := by
    intro p c hchild
    rcases isChild_concat.mp hchild with hold | ⟨_, ps, heq, _⟩
    · rcases h.child p c hold with ⟨hlt, hp⟩
      exact ⟨hlt, isLifetime_concat.mpr (Or.inl hp)⟩
    · cases heq
  action := by
    intro r l haction
    rcases isAction_concat.mp haction with hold | ⟨rfl, heq⟩
    · rcases h.action r l hold with ⟨hlt, hl⟩
      exact ⟨hlt, isLifetime_concat.mpr (Or.inl hl)⟩
    · cases heq
      exact ⟨howner.lt, isLifetime_concat.mpr (Or.inl howner)⟩
  nodup := by
    intro l ps hl
    rcases born_concat.mp hl with hold | ⟨_, heq⟩
    · exact h.nodup l ps hold
    · cases heq

theorem WellBorn.concat_lifetime (h : WellBorn bs) {ps : List Nat}
    (hps : ps.Nodup) (hparents : forall p, p ∈ ps -> IsLifetime bs p) :
    WellBorn (bs ++ [Birth.lifetime ps]) where
  child := by
    intro p c hchild
    rcases isChild_concat.mp hchild with hold | ⟨rfl, ps', heq, hmem⟩
    · rcases h.child p c hold with ⟨hlt, hp⟩
      exact ⟨hlt, isLifetime_concat.mpr (Or.inl hp)⟩
    · cases heq
      have hp := hparents p hmem
      exact ⟨hp.lt, isLifetime_concat.mpr (Or.inl hp)⟩
  action := by
    intro r l haction
    rcases isAction_concat.mp haction with hold | ⟨_, heq⟩
    · rcases h.action r l hold with ⟨hlt, hl⟩
      exact ⟨hlt, isLifetime_concat.mpr (Or.inl hl)⟩
    · cases heq
  nodup := by
    intro l ps' hl
    rcases born_concat.mp hl with hold | ⟨_, heq⟩
    · exact h.nodup l ps' hold
    · cases heq
      exact hps

theorem Nested.mono {a l : Nat} (h : Nested bs a l) :
    Nested (bs ++ [b]) a l := by
  induction h with
  | refl => exact Relation.ReflTransGen.refl
  | tail _ hchild ih => exact ih.tail (isChild_concat.mpr (Or.inl hchild))

theorem Nested.of_concat (hborn : WellBorn (bs ++ [b])) {a l : Nat}
    (h : Nested (bs ++ [b]) a l) :
    Nested bs a l ∨ (l = bs.length ∧ exists p,
      IsChild (bs ++ [b]) p l ∧ Nested bs a p) := by
  induction h with
  | refl => exact Or.inl Relation.ReflTransGen.refl
  | @tail p c _ hchild ih =>
      rcases ih with hold | ⟨rfl, _⟩
      · rcases isChild_concat.mp hchild with hchild' | ⟨rfl, _⟩
        · exact Or.inl (hold.tail hchild')
        · exact Or.inr ⟨rfl, p, hchild, hold⟩
      · have hlt := (hborn.child _ _ hchild).left
        have hle := hchild.isLifetime.lt
        rw [List.length_append, List.length_singleton] at hle
        omega

theorem removals_concat {l : Nat} (hl : l < bs.length) :
    removals (bs ++ [b]) l = removals bs l := by
  unfold removals parentsOf
  rw [List.getElem?_append_left hl]

theorem entries_concat (gone : Nat -> Bool) (l : Nat) :
    entries (bs ++ [b]) gone l = entries bs gone l ++
      (entryOf (bs ++ [b]) gone l bs.length).toList := by
  rw [entries, List.length_append, List.length_singleton, entriesBelow_succ]
  congr 1
  apply List.filterMap_congr
  intro k hk
  rw [entryOf, List.getElem?_append_left (List.mem_range.mp hk), entryOf]

theorem entries_newest (hborn : WellBorn bs) (gone : Nat -> Bool) {l : Nat}
    (hl : bs.length ≤ l + 1) : entries bs gone l = [] := by
  unfold entries entriesBelow
  rw [List.filterMap_eq_nil_iff]
  intro k hk
  have hle := List.mem_range.mp hk
  rcases entryOf_cases bs gone l k with ⟨_, haction⟩ | ⟨_, hchild, _⟩ | ⟨heq, _⟩
  · have hlt := (hborn.action k l haction).left
    omega
  · have hlt := (hborn.child l k hchild).left
    omega
  · exact heq

end Concat

end Plugin
end Franky
