import Franky.Plugin.LifetimeRuns

/-!
# Creating a lifetime below any parents

`Lifetime.create` nests the new lifetime in one parent after the other, and a
terminated parent throws.  The parents before it have their entry by then, and
nobody takes it back.
-/

namespace Franky
namespace Plugin

open Foundation

/-- The list of `p` terminates `c`, and that of `c` takes this entry back. -/
def Heap.NestedIn (h : Heap) (c p : Nat) : Prop :=
  Action.terminate c ∈ h.actions p ∧ Action.remove p c ∈ h.actions c

/-- What `Lifetime.create` should leave behind: a live lifetime that is nested
in every parent, or an exception and the lists of the parents as they were. -/
def Outcome.AllOrNothing (o : Outcome) (h : Heap) (parents : List Nat) :
    Prop :=
  (o.thrown = none ∧ o.heap.Live h.size ∧
      forall p, p ∈ parents -> o.heap.NestedIn h.size p) ∨
    (o.thrown ≠ none ∧
      forall p, p ∈ parents -> o.heap.actions p = h.actions p)

variable {h : Heap} {p c : Nat} {ps front : List Nat}

theorem addNested_terminated (hp : h.isTerminated p = true)
    (hc : h.isTerminated c = false) :
    h.addNested p c =
      Outcome.throws h LifetimeException.alreadyTerminated := by
  rw [Heap.addNested, hc, if_neg Bool.false_ne_true, Heap.add, if_pos hp]
  rfl

/-- The first terminated parent ends the call; the parents before it have the
new lifetime. -/
theorem create_terminated (hnew : h.lifetime h.size = none)
    (hfront : forall p, p ∈ front -> h.Live p)
    (hp : h.isTerminated p = true) (back : List Nat) :
    (h.create (front ++ p :: back)).thrown =
        some LifetimeException.alreadyTerminated ∧
      Enrolled h.size front h.alloc (h.create (front ++ p :: back)).heap := by
  rcases create_live hnew hfront with ⟨hthrown, henrolled⟩
  have hterminated : (h.create front).heap.isTerminated p = true := by
    rw [henrolled.terminated, isTerminated_alloc hnew, hp]
  have hself : (h.create front).heap.isTerminated h.size = false := by
    rw [henrolled.terminated]
    exact (live_alloc_size hnew).right
  have hstop : h.create (front ++ p :: back) =
      Outcome.throws (h.create front).heap
        LifetimeException.alreadyTerminated := by
    rw [Heap.create, Heap.forEach_append]
    refine (Outcome.andThen_ok hthrown _).trans ?_
    rw [Heap.forEach, addNested_terminated hterminated hself]
    rfl
  rw [hstop]
  exact ⟨rfl, henrolled⟩

theorem exists_first_terminated
    (h : Heap) (hps : ¬ forall p, p ∈ ps -> h.isTerminated p = false) :
    exists front p back, ps = front ++ p :: back ∧
      h.isTerminated p = true ∧
      forall q, q ∈ front -> h.isTerminated q = false := by
  cases hfind : ps.find? h.isTerminated with
  | none =>
      refine absurd ?_ hps
      intro p hp
      exact Bool.eq_false_iff.mpr (List.find?_eq_none.mp hfind p hp)
  | some p =>
      rcases List.find?_eq_some_iff_append.mp hfind with
        ⟨hp, front, back, heq, hfront⟩
      refine ⟨front, p, back, heq, hp, ?_⟩
      intro q hq
      simpa using hfront q hq

/-- Live parents have the new lifetime in the end. -/
theorem Enrolled.nestedIn {h' : Heap} (henrolled : Enrolled c ps h h')
    (hfresh : c ∉ ps) (hp : p ∈ ps) : h'.NestedIn c p := by
  have hne : p ≠ c := by
    rintro rfl
    exact hfresh hp
  constructor
  · rw [henrolled.others p hne]
    apply List.mem_append_right
    rw [List.mem_replicate]
    exact ⟨Nat.ne_of_gt (List.count_pos_iff.mpr hp), rfl⟩
  · rw [henrolled.own]
    exact List.mem_append_right _ (List.mem_map_of_mem hp)

theorem Enrolled.actions_ne {h' : Heap} (henrolled : Enrolled c ps h h')
    (hne : p ≠ c) : h'.actions p = h.actions p <-> p ∉ ps := by
  rw [henrolled.others p hne, List.append_right_eq_self,
    List.replicate_eq_nil_iff, List.count_eq_zero]

theorem ne_size_of_isSome (hnew : h.lifetime h.size = none)
    (hp : (h.lifetime p).isSome = true) : p ≠ h.size := by
  rintro rfl
  rw [hnew] at hp
  cases hp

theorem create_allOrNothing_of_live (hnew : h.lifetime h.size = none)
    (hlive : forall p, p ∈ ps -> h.Live p) :
    (h.create ps).AllOrNothing h ps := by
  rcases create_live hnew hlive with ⟨hthrown, henrolled⟩
  refine Or.inl ⟨hthrown, ⟨?_, ?_⟩, ?_⟩
  · exact (henrolled.objects _).mpr (live_alloc_size hnew).left
  · rw [henrolled.terminated]
    exact (live_alloc_size hnew).right
  · intro p hp
    apply henrolled.nestedIn _ hp
    exact fun hmem => ne_size_of_isSome hnew (hlive _ hmem).left rfl

/-- Where the call ends at a terminated parent, nothing is left behind exactly
when no parent came before it. -/
theorem create_allOrNothing_of_terminated (hnew : h.lifetime h.size = none)
    (hfront : forall p, p ∈ front -> h.Live p)
    (hp : h.isTerminated p = true) {back : List Nat}
    (hparents : forall q, q ∈ front ++ p :: back ->
      (h.lifetime q).isSome = true) :
    (h.create (front ++ p :: back)).AllOrNothing h (front ++ p :: back) <->
      front = [] := by
  rcases create_terminated hnew hfront hp back with ⟨hthrown, henrolled⟩
  have hkept : forall q, q ∈ front ++ p :: back ->
      ((h.create (front ++ p :: back)).heap.actions q = h.actions q <->
        q ∉ front) := by
    intro q hq
    rw [← actions_alloc hnew q]
    exact henrolled.actions_ne (ne_size_of_isSome hnew (hparents q hq))
  constructor
  · intro hcase
    rcases hcase with ⟨hnone, _⟩ | ⟨_, hsame⟩
    · rw [hthrown] at hnone
      cases hnone
    · apply List.eq_nil_iff_forall_not_mem.mpr
      intro q hq
      have hmem := List.mem_append_left (p :: back) hq
      exact (hkept q hmem).mp (hsame q hmem) hq
  · rintro rfl
    refine Or.inr ⟨by rw [hthrown]; exact Option.some_ne_none _, ?_⟩
    exact fun q hq => (hkept q hq).mpr List.not_mem_nil

/-- Creating a lifetime is all or nothing exactly when all parents are live or
the first one is terminated. -/
theorem create_allOrNothing_iff (h : Heap) (parents : List Nat)
    (hnew : h.lifetime h.size = none)
    (hparents : forall p, p ∈ parents -> (h.lifetime p).isSome = true) :
    (h.create parents).AllOrNothing h parents <->
      (forall p, p ∈ parents -> h.isTerminated p = false) ∨
        exists p, parents.head? = some p ∧ h.isTerminated p = true := by
  rcases Classical.em (forall p, p ∈ parents -> h.isTerminated p = false) with
    hlive | hdead
  · apply iff_of_true _ (Or.inl hlive)
    exact create_allOrNothing_of_live hnew
      (fun p hp => ⟨hparents p hp, hlive p hp⟩)
  · rcases exists_first_terminated h hdead with ⟨front, p, back, rfl, hp, hfront⟩
    have hfront' : forall q, q ∈ front -> h.Live q := fun q hq =>
      ⟨hparents q (List.mem_append_left _ hq), hfront q hq⟩
    rw [create_allOrNothing_of_terminated hnew hfront' hp hparents,
      or_iff_right hdead]
    cases front with
    | nil => exact iff_of_true rfl ⟨p, rfl, hp⟩
    | cons q front =>
        apply iff_of_false (List.cons_ne_nil q front)
        intro hexists
        rcases hexists with ⟨first, hfirst, hterminated⟩
        cases hfirst
        rw [hfront q List.mem_cons_self] at hterminated
        cases hterminated

/-- `Lifetime.Eternal`, a terminated lifetime 1 and a live lifetime 2. -/
def oneTerminated : Heap :=
  Machine.run Heap.step Heap.initial
    [Call.create [0], Call.create [0], Call.terminate 1]

/-- A terminated first parent and live parents, one of them twice. -/
theorem create_allOrNothing_mixed :
    (oneTerminated.create [1, 2]).AllOrNothing oneTerminated [1, 2] ∧
      (oneTerminated.create [2, 0, 2]).AllOrNothing oneTerminated [2, 0, 2] :=
  ⟨(create_allOrNothing_iff oneTerminated [1, 2] (by decide)
      (by decide)).mpr (Or.inr ⟨1, by decide, by decide⟩),
    (create_allOrNothing_iff oneTerminated [2, 0, 2] (by decide)
      (by decide)).mpr (Or.inl (by decide))⟩

/-- Where a live parent comes first, it keeps an entry for a lifetime that
nobody has received. -/
theorem not_allOrNothing_liveFirst :
    ¬ (oneTerminated.create [2, 1]).AllOrNothing oneTerminated [2, 1] ∧
      (oneTerminated.create [2, 1]).thrown =
        some LifetimeException.alreadyTerminated ∧
      Action.terminate oneTerminated.size ∈
        (oneTerminated.create [2, 1]).heap.actions 2 := by
  refine ⟨?_, by decide, by decide⟩
  intro hcase
  rcases hcase with ⟨hnone, _⟩ | ⟨_, hsame⟩
  · revert hnone
    decide
  · have hkept := hsame 2 List.mem_cons_self
    revert hkept
    decide

end Plugin
end Franky
