import Mathlib.Logic.Basic
import Mathlib.Data.List.Basic
import Mathlib.Data.List.Induction

/-!
# Deterministic machines and their runs

A machine is a total step function on states, driven by a list of actions.
An action that is not enabled leaves the state alone, so every list of actions
is a run.  The rules below carry an invariant along a run, and relate what
holds in every state of a run to what each of its steps did.
-/

namespace Franky
namespace Foundation
namespace Machine

variable {state action : Type*}

def run (step : state -> action -> state) (s : state) (as : List action) :
    state :=
  as.foldl step s

/-- Every step of the run is taken in a state where `ok` allows it. -/
def AllSteps (step : state -> action -> state)
    (ok : state -> action -> Prop) : state -> List action -> Prop
  | _, [] => True
  | s, a :: as => ok s a ∧ AllSteps step ok (step s a) as

/-- Every state of the run, the first and the last included, is `good`. -/
def AllStates (step : state -> action -> state)
    (good : state -> Prop) : state -> List action -> Prop
  | s, [] => good s
  | s, a :: as => good s ∧ AllStates step good (step s a) as

variable {step : state -> action -> state}

@[simp] theorem run_nil (s : state) : run step s [] = s := rfl

@[simp] theorem run_cons (s : state) (a : action) (as : List action) :
    run step s (a :: as) = run step (step s a) as := rfl

theorem run_concat (s : state) (as : List action) (a : action) :
    run step s (as ++ [a]) = step (run step s as) a := by
  simp [run]

@[simp] theorem allSteps_nil (ok : state -> action -> Prop) (s : state) :
    AllSteps step ok s [] := trivial

@[simp] theorem allSteps_cons (ok : state -> action -> Prop) (s : state)
    (a : action) (as : List action) :
    AllSteps step ok s (a :: as) <->
      ok s a ∧ AllSteps step ok (step s a) as := Iff.rfl

@[simp] theorem allStates_cons (good : state -> Prop) (s : state)
    (a : action) (as : List action) :
    AllStates step good s (a :: as) <->
      good s ∧ AllStates step good (step s a) as := Iff.rfl

theorem run_append (s : state) (as bs : List action) :
    run step s (as ++ bs) = run step (run step s as) bs :=
  List.foldl_append

/-!
## Invariant rules

What every step keeps holds after every run.  What holds in every state of a run
is what holds after each of its beginnings.
-/

theorem run_invariant {inv : state -> Prop}
    (hstep : forall s a, inv s -> inv (step s a))
    {s : state} (hs : inv s) (as : List action) :
    inv (run step s as) := by
  induction as generalizing s with
  | nil => exact hs
  | cons a as ih => exact ih (hstep s a hs)

/-- What is said of a state and of the actions that led to it, shown one action
at a time, for a run whose every beginning may be looked at. -/
theorem run_history (holds : List action -> state -> Prop) {s : state}
    {as : List action} (hs : holds [] s)
    (hstep : forall bs b, bs ++ [b] <+: as -> holds bs (run step s bs) ->
      holds (bs ++ [b]) (step (run step s bs) b)) :
    holds as (run step s as) := by
  have hall : forall bs, bs <+: as -> holds bs (run step s bs) := by
    intro bs
    induction bs using List.reverseRecOn with
    | nil => exact fun _ => hs
    | append_singleton bs b ih =>
        intro hbegin
        rw [run_concat]
        exact hstep bs b hbegin (ih ((List.prefix_append bs [b]).trans hbegin))
  exact hall as (List.prefix_refl as)

theorem allStates_of_run {good : state -> Prop} {s : state}
    {as : List action}
    (h : forall bs, bs <+: as -> good (run step s bs)) :
    AllStates step good s as := by
  induction as generalizing s with
  | nil => exact h [] (List.prefix_refl [])
  | cons a as ih =>
      refine ⟨h [] (List.nil_prefix), ih ?_⟩
      intro bs hbs
      exact h (a :: bs) (List.cons_prefix_cons.mpr ⟨rfl, hbs⟩)

theorem good_of_allStates {good : state -> Prop} {s : state}
    {as bs : List action} (h : AllStates step good s as)
    (hbs : bs <+: as) : good (run step s bs) := by
  induction as generalizing s bs with
  | nil =>
      rw [List.prefix_nil.mp hbs]
      exact h
  | cons a as ih =>
      cases bs with
      | nil => exact h.left
      | cons b bs =>
          rcases List.cons_prefix_cons.mp hbs with ⟨hb, htail⟩
          rw [hb, run_cons]
          exact ih h.right htail

theorem allSteps_append {ok : state -> action -> Prop} {s : state}
    {as bs : List action} : AllSteps step ok s (as ++ bs) <->
      AllSteps step ok s as ∧ AllSteps step ok (run step s as) bs := by
  induction as generalizing s with
  | nil => simp
  | cons a as ih => simp [ih, and_assoc]

theorem AllSteps.of_prefix {ok : state -> action -> Prop} {s : state}
    {as bs : List action} (h : AllSteps step ok s as) (hbs : bs <+: as) :
    AllSteps step ok s bs := by
  rcases hbs with ⟨cs, rfl⟩
  exact (allSteps_append.mp h).left

theorem AllSteps.at_prefix {ok : state -> action -> Prop} {s : state}
    {as bs : List action} {b : action} (h : AllSteps step ok s as)
    (hbs : bs ++ [b] <+: as) : ok (run step s bs) b :=
  (allSteps_append.mp (h.of_prefix hbs)).right.left

theorem allSteps_of_run {ok : state -> action -> Prop} {s : state}
    {as : List action}
    (h : forall bs b, bs ++ [b] <+: as -> ok (run step s bs) b) :
    AllSteps step ok s as := by
  induction as generalizing s with
  | nil => trivial
  | cons a as ih =>
      refine ⟨h [] a (List.prefix_append [a] as), ih ?_⟩
      intro bs b hbs
      exact h (a :: bs) b (List.cons_prefix_cons.mpr ⟨rfl, hbs⟩)

/-- A relation that every allowed step keeps relates the states after a run. -/
theorem run_related {state' : Type*} {step' : state' -> action -> state'}
    {ok : state -> action -> Prop} (rel : state -> state' -> Prop)
    (hstep : forall s s' a, ok s a -> rel s s' ->
      rel (step s a) (step' s' a))
    {s : state} {s' : state'} (hs : rel s s') {as : List action}
    (hall : AllSteps step ok s as) : rel (run step s as) (run step' s' as) := by
  induction as generalizing s s' with
  | nil => exact hs
  | cons a as ih => exact ih (hstep s s' a hall.left hs) hall.right

theorem AllStates.mono {good good' : state -> Prop}
    (h : forall s, good s -> good' s) {s : state} {as : List action}
    (hall : AllStates step good s as) : AllStates step good' s as :=
  allStates_of_run (fun _ hbs => h _ (good_of_allStates hall hbs))

/-- What every allowed step keeps holds after a run of them. -/
theorem AllSteps.invariant {inv : state -> Prop} {ok : state -> action -> Prop}
    (hstep : forall s a, ok s a -> inv s -> inv (step s a)) {s : state}
    (hs : inv s) {as : List action} (hall : AllSteps step ok s as) :
    inv (run step s as) := by
  induction as generalizing s with
  | nil => exact hs
  | cons a as ih => exact ih (hstep s a hall.left hs) hall.right

theorem allSteps_action_iff {ok : action -> Prop} {s : state}
    {as : List action} :
    AllSteps step (fun _ a => ok a) s as <-> forall a, a ∈ as -> ok a := by
  induction as generalizing s with
  | nil => simp
  | cons a as ih => simp [ih]

/-!
## Exact step conditions

Where one step keeps `good` exactly when `ok` allows it, the states of a run
are all good exactly when its steps are all allowed.  The invariant may also
speak of the actions that are still to come, which is how a bound on the length
of a run is carried.
-/

theorem allStates_iff_allSteps {good : state -> Prop}
    {ok : state -> action -> Prop}
    (inv : state -> List action -> Prop)
    (hexact : forall s a as, inv s (a :: as) -> good s ->
      (good (step s a) <-> ok s a))
    (hkeep : forall s a as, inv s (a :: as) -> good s -> ok s a ->
      inv (step s a) as)
    {s : state} {as : List action} (hinv : inv s as) (hs : good s) :
    AllStates step good s as <-> AllSteps step ok s as := by
  induction as generalizing s with
  | nil => exact iff_of_true hs trivial
  | cons a as ih =>
      constructor
      · intro h
        have hnext : good (step s a) := by
          cases as with
          | nil => exact h.right
          | cons b bs => exact h.right.left
        have hok : ok s a := (hexact s a as hinv hs).mp hnext
        exact ⟨hok, (ih (hkeep s a as hinv hs hok) hnext).mp h.right⟩
      · intro h
        have hnext : good (step s a) := (hexact s a as hinv hs).mpr h.left
        exact ⟨hs, (ih (hkeep s a as hinv hs h.left) hnext).mpr h.right⟩

/-!
## What a run puts out
-/

/-- What the steps of a run put out, in the order of the steps. -/
def outputs (step : state -> action -> state)
    (out : state -> action -> Option output) : state -> List action ->
    List output
  | _, [] => []
  | s, a :: as => (out s a).toList ++ outputs step out (step s a) as

@[simp] theorem outputs_cons (out : state -> action -> Option output)
    (s : state) (a : action) (as : List action) :
    outputs step out s (a :: as) =
      (out s a).toList ++ outputs step out (step s a) as := rfl

theorem outputs_append (out : state -> action -> Option output) (s : state)
    (as bs : List action) :
    outputs step out s (as ++ bs) =
      outputs step out s as ++ outputs step out (run step s as) bs := by
  induction as generalizing s with
  | nil => rfl
  | cons a as ih =>
      rw [List.cons_append, outputs_cons, outputs_cons, run_cons, ih,
        List.append_assoc]

/-- Where a relation is kept by every allowed step, and the steps put out what
is related, the runs put out lists that are related entry by entry. -/
theorem outputs_related {state' output output' : Type*}
    {step' : state' -> action -> state'} {ok : state -> action -> Prop}
    {out : state -> action -> Option output}
    {out' : state' -> action -> Option output'} (rel : state -> state' -> Prop)
    (same : output -> output' -> Prop)
    (hstep : forall s s' a, ok s a -> rel s s' ->
      rel (step s a) (step' s' a))
    (hout : forall s s' a, ok s a -> rel s s' ->
      Option.Rel same (out s a) (out' s' a))
    {s : state} {s' : state'} (hs : rel s s') {as : List action}
    (hall : AllSteps step ok s as) :
    List.Forall₂ same (outputs step out s as) (outputs step' out' s' as) := by
  induction as generalizing s s' with
  | nil => exact List.Forall₂.nil
  | cons a as ih =>
      have hrest := ih (hstep s s' a hall.left hs) hall.right
      have hboth := hout s s' a hall.left hs
      rw [outputs_cons, outputs_cons]
      generalize out s a = x at hboth ⊢
      generalize out' s' a = y at hboth ⊢
      cases hboth with
      | none => exact hrest
      | some hsame => exact List.Forall₂.cons hsame hrest

end Machine
end Foundation
end Franky
