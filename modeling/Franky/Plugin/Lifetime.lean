import Mathlib.Logic.Function.Basic
import Mathlib.Data.List.Basic

/-!
# Lifetimes

A lifetime keeps the actions that are to run when it is terminated.  A nested
lifetime is terminated by an action of its parent, and takes that action out of
the parent's list by an action of its own.
-/

namespace Franky
namespace Plugin

/-!
## Objects

Lifetimes and the actions given by users are numbered in the order in which they
come into being.  The closures that one lifetime keeps to terminate another one
are interchangeable.
-/

inductive Action where
  | user (id : Nat)
  | terminate (child : Nat)
  | remove (parent child : Nat)
deriving DecidableEq, Repr

structure Lifetime where
  isTerminated : Bool
  actions : List Action
deriving DecidableEq, Repr

/-- `Lifetime()`. -/
def Lifetime.new : Lifetime := { isTerminated := false, actions := [] }

/-- `RuntimeException("Lifetime terminated several times")`,
`IllegalStateException("Already terminated")`, and calls nested deeper than the
evaluation follows. -/
inductive LifetimeException where
  | terminatedSeveralTimes
  | alreadyTerminated
  | depthExceeded
deriving DecidableEq, Repr

/-- The objects, and the user actions that have run. -/
structure Heap where
  size : Nat
  lifetime : Nat -> Option Lifetime
  log : List Nat

/-- What a call leaves behind, also where it throws. -/
structure Outcome where
  heap : Heap
  thrown : Option LifetimeException

namespace Outcome

def ok (h : Heap) : Outcome := { heap := h, thrown := none }

def throws (h : Heap) (e : LifetimeException) : Outcome :=
  { heap := h, thrown := some e }

def andThen (o : Outcome) (f : Heap -> Outcome) : Outcome :=
  match o.thrown with
  | none => f o.heap
  | some _ => o

end Outcome

namespace Heap

/-- Only `Lifetime.Eternal` exists. -/
def initial : Heap :=
  { size := 1
    lifetime := fun l => if l = 0 then some Lifetime.new else none
    log := [] }

def get (h : Heap) (l : Nat) : Lifetime := (h.lifetime l).getD Lifetime.new

def set (h : Heap) (l : Nat) (x : Lifetime) : Heap :=
  { h with lifetime := Function.update h.lifetime l (some x) }

def isTerminated (h : Heap) (l : Nat) : Bool := (h.get l).isTerminated

def actions (h : Heap) (l : Nat) : List Action := (h.get l).actions

def setActions (h : Heap) (l : Nat) (actions : List Action) : Heap :=
  h.set l { h.get l with actions := actions }

/-- A loop over a list, which an exception leaves. -/
def forEach {item : Type} (f : Heap -> item -> Outcome) :
    Heap -> List item -> Outcome
  | h, [] => Outcome.ok h
  | h, x :: xs => (f h x).andThen (fun h => h.forEach f xs)

/-!
## Methods of `Lifetime`
-/

/-- `Lifetime.add`. -/
def add (h : Heap) (l : Nat) (action : Action) : Outcome :=
  if h.isTerminated l then
    Outcome.throws h LifetimeException.alreadyTerminated
  else Outcome.ok (h.setActions l (h.actions l ++ [action]))

/-- `Lifetime.plusAssign`, with an action that is created for the call. -/
def plusAssign (h : Heap) (l : Nat) : Outcome :=
  { h with size := h.size + 1 }.add l (Action.user h.size)

/-- `Lifetime.addNested`. -/
def addNested (h : Heap) (parent child : Nat) : Outcome :=
  if h.isTerminated child then Outcome.ok h
  else
    (h.add parent (Action.terminate child)).andThen
      (fun h => h.add child (Action.remove parent child))

/-- An object with the next number. -/
def alloc (h : Heap) : Heap :=
  { size := h.size + 1
    lifetime := Function.update h.lifetime h.size (some Lifetime.new)
    log := h.log }

/-- `Lifetime.create`; the new lifetime has the number that was next. -/
def create (h : Heap) (parents : List Nat) : Outcome :=
  let res := h.size
  h.alloc.forEach (fun h parent => h.addNested parent res) parents

/-- Running an action, where nested lifetimes are terminated as given. -/
def perform (terminate : Heap -> Nat -> Outcome) (h : Heap) :
    Action -> Outcome
  | Action.user id => Outcome.ok { h with log := h.log ++ [id] }
  | Action.terminate child => terminate h child
  | Action.remove parent child =>
      Outcome.ok (h.setActions parent
        ((h.actions parent).erase (Action.terminate child)))

/-- `Lifetime.terminate`, with calls nested to the given depth. -/
def terminate : Nat -> Heap -> Nat -> Outcome
  | 0, h, _ => Outcome.throws h LifetimeException.depthExceeded
  | depth + 1, h, l =>
      if h.isTerminated l then
        Outcome.throws h LifetimeException.terminatedSeveralTimes
      else
        let h := h.set l { h.get l with isTerminated := true }
        let actionsCopy := h.actions l
        (h.forEach (perform (terminate depth)) actionsCopy.reverse).andThen
          (fun h => Outcome.ok (h.setActions l []))

end Heap

/-!
## Calls from outside
-/

inductive Call where
  | create (parents : List Nat)
  | add (l : Nat)
  | terminate (l : Nat)
deriving DecidableEq, Repr

/-- A call; no chain of nested lifetimes is longer than the number of
objects. -/
def Heap.call (h : Heap) : Call -> Outcome
  | Call.create parents => h.create parents
  | Call.add l => h.plusAssign l
  | Call.terminate l => h.terminate h.size l

def Heap.step (h : Heap) (call : Call) : Heap := (h.call call).heap

/-- The object is a lifetime that has not been terminated. -/
def Heap.Live (h : Heap) (l : Nat) : Prop :=
  (h.lifetime l).isSome = true ∧ h.isTerminated l = false

/-- The call is made on live lifetimes, and its parents are different ones. -/
def Heap.Allows (h : Heap) : Call -> Prop
  | Call.create parents => parents.Nodup ∧ forall p, p ∈ parents -> h.Live p
  | Call.add l => h.Live l
  | Call.terminate l => h.Live l

instance instDecidableLive (h : Heap) (l : Nat) : Decidable (h.Live l) :=
  inferInstanceAs (Decidable (_ ∧ _))

instance instDecidableAllows (h : Heap) : (call : Call) ->
    Decidable (h.Allows call)
  | Call.create parents =>
      inferInstanceAs (Decidable (parents.Nodup ∧ forall p, p ∈ parents ->
        h.Live p))
  | Call.add l => inferInstanceAs (Decidable (h.Live l))
  | Call.terminate l => inferInstanceAs (Decidable (h.Live l))

/-!
## Equations
-/

namespace Heap

variable {h : Heap} {l q : Nat} {x : Lifetime}

@[simp] theorem get_set_self : (h.set l x).get l = x := by
  simp [get, set]

@[simp] theorem get_set_of_ne (hne : q ≠ l) : (h.set l x).get q = h.get q := by
  simp [get, set, Function.update_of_ne hne]

theorem isSome_set : ((h.set l x).lifetime q).isSome =
    (decide (q = l) || (h.lifetime q).isSome) := by
  rcases eq_or_ne q l with rfl | hne
  · simp [set]
  · simp [set, hne]

@[simp] theorem log_setActions (as : List Action) :
    (h.setActions l as).log = h.log := rfl

@[simp] theorem actions_setActions_self (as : List Action) :
    (h.setActions l as).actions l = as := by
  simp [actions, setActions]

@[simp] theorem actions_setActions_of_ne (hne : q ≠ l) (as : List Action) :
    (h.setActions l as).actions q = h.actions q := by
  simp [actions, setActions, hne]

@[simp] theorem isTerminated_setActions (as : List Action) :
    (h.setActions l as).isTerminated q = h.isTerminated q := by
  rcases eq_or_ne q l with rfl | hne
  · simp [isTerminated, setActions]
  · simp [isTerminated, setActions, hne]

theorem forEach_append {item : Type} (f : Heap -> item -> Outcome) (h : Heap)
    (xs ys : List item) :
    h.forEach f (xs ++ ys) =
      (h.forEach f xs).andThen (fun h => h.forEach f ys) := by
  induction xs generalizing h with
  | nil => rfl
  | cons x xs ih =>
      rw [List.cons_append, forEach, forEach]
      cases hthrown : (f h x).thrown with
      | none => simp only [Outcome.andThen, hthrown, ih]
      | some e => simp only [Outcome.andThen, hthrown]

end Heap

theorem Outcome.andThen_ok {o : Outcome} (h : o.thrown = none)
    (f : Heap -> Outcome) : o.andThen f = f o.heap := by
  simp only [Outcome.andThen, h]

/-!
## What has ended stays ended

A call may throw at any point, and still it has revived nothing.
-/

/-- The later heap has all the objects, and none of them is revived in it. -/
structure Heap.Ages (h h' : Heap) : Prop where
  size : h.size ≤ h'.size
  dead : forall l, l < h.size -> h.isTerminated l = true ->
    h'.isTerminated l = true

namespace Heap.Ages

theorem refl (h : Heap) : h.Ages h := ⟨Nat.le_refl _, fun _ _ hdead => hdead⟩

theorem trans {h₁ h₂ h₃ : Heap} (h : h₁.Ages h₂) (h' : h₂.Ages h₃) :
    h₁.Ages h₃ where
  size := Nat.le_trans h.size h'.size
  dead := fun l hl hdead =>
    h'.dead l (Nat.lt_of_lt_of_le hl h.size) (h.dead l hl hdead)

theorem setActions (h : Heap) (l : Nat) (actions : List Action) :
    h.Ages (h.setActions l actions) where
  size := Nat.le_refl _
  dead := fun q _ hdead => by rw [Heap.isTerminated_setActions, hdead]

theorem andThen {h : Heap} {o : Outcome} {f : Heap -> Outcome}
    (ho : h.Ages o.heap) (hf : forall h', Ages h' (f h').heap) :
    h.Ages (o.andThen f).heap := by
  unfold Outcome.andThen
  split
  · exact ho.trans (hf o.heap)
  · exact ho

theorem forEach {item : Type} {f : Heap -> item -> Outcome}
    (hf : forall h x, Ages h (f h x).heap) (h : Heap) (xs : List item) :
    h.Ages (h.forEach f xs).heap := by
  induction xs generalizing h with
  | nil => exact refl h
  | cons x xs ih => exact andThen (hf h x) ih

theorem add (h : Heap) (l : Nat) (action : Action) :
    h.Ages (h.add l action).heap := by
  unfold Heap.add
  split
  · exact refl h
  · exact setActions h l _

theorem addNested (h : Heap) (parent child : Nat) :
    h.Ages (h.addNested parent child).heap := by
  unfold Heap.addNested
  split
  · exact refl h
  · exact andThen (add h parent _) (fun h => add h child _)

theorem alloc (h : Heap) : h.Ages h.alloc where
  size := Nat.le_succ _
  dead := by
    intro l hl hdead
    unfold Heap.isTerminated Heap.get Heap.alloc
    dsimp only
    rw [Function.update_of_ne (Nat.ne_of_lt hl)]
    exact hdead

theorem perform {terminate : Heap -> Nat -> Outcome}
    (hterminate : forall h l, Ages h (terminate h l).heap) (h : Heap)
    (action : Action) : h.Ages (h.perform terminate action).heap := by
  cases action with
  | user id => exact ⟨Nat.le_refl _, fun _ _ hdead => hdead⟩
  | terminate child => exact hterminate h child
  | remove parent child => exact setActions h parent _

theorem terminate (depth : Nat) (h : Heap) (l : Nat) :
    h.Ages (h.terminate depth l).heap := by
  induction depth generalizing h l with
  | zero => exact refl h
  | succ depth ih =>
      unfold Heap.terminate
      split
      · exact refl h
      · have hmark : h.Ages
            (h.set l { h.get l with isTerminated := true }) := by
          refine ⟨Nat.le_refl _, ?_⟩
          intro q _ hdead
          rcases eq_or_ne q l with rfl | hne
          · simp [Heap.isTerminated]
          · rw [Heap.isTerminated, Heap.get_set_of_ne hne]
            exact hdead
        exact hmark.trans (andThen (forEach (perform ih) _ _)
          (fun h => setActions h l _))

theorem call (h : Heap) (c : Call) : h.Ages (h.call c).heap := by
  cases c with
  | create parents =>
      exact (alloc h).trans
        (forEach (fun h parent => addNested h parent _) _ parents)
  | add l =>
      have hnext : h.Ages { h with size := h.size + 1 } :=
        ⟨Nat.le_succ _, fun _ _ hdead => hdead⟩
      exact hnext.trans (add _ l _)
  | terminate l => exact terminate h.size h l

end Heap.Ages

end Plugin
end Franky
