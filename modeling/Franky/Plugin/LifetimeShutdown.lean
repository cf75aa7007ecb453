import Franky.Plugin.LifetimeGraph

/-!
# One shutdown

Terminating a lifetime terminates its children from inside the loop over its
actions, and these take themselves out of lists that may just be walked.  The
lifetimes whose loops are under way are kept on a stack; all others are either
as they were or gone for good.
-/

namespace Franky
namespace Plugin

/-- Action `r'` has to run before action `r`: it was registered later on the
same lifetime, or on a child that was created after `r` was registered. -/
def Before (bs : List Birth) (r' r : Nat) : Prop :=
  (exists l, IsAction bs r' l ∧ IsAction bs r l ∧ r < r') ∨
    exists p c, IsChild bs p c ∧ IsAction bs r p ∧ r < c ∧ IsAction bs r' c

/-- The lifetime is terminated and its loop is not under way. -/
def Heap.gone (h : Heap) (stack : List Nat) (l : Nat) : Bool :=
  h.isTerminated l && decide (l ∉ stack)

/-- What holds while the loops of the lifetimes on the stack are under way. -/
structure Orderly (bs : List Birth) (stack : List Nat) (h : Heap) : Prop where
  underWay : forall l, l ∈ stack -> h.isTerminated l = true
  actions : forall l, IsLifetime bs l -> h.isTerminated l = false ->
    h.actions l = removals bs l ++ entries bs (h.gone stack) l
  closed : forall p c, IsChild bs p c -> h.gone stack p = true ->
    h.gone stack c = true
  ran : forall r l, IsAction bs r l -> h.gone stack l = true -> r ∈ h.log
  kept : forall r l, IsAction bs r l -> h.isTerminated l = false -> r ∉ h.log
  once : h.log.Nodup
  known : forall r, r ∈ h.log -> exists l, IsAction bs r l
  upward : forall r r' l, IsAction bs r l -> IsAction bs r' l -> r < r' ->
    r ∈ h.log -> r' ∈ h.log
  children : forall r p c, IsAction bs r p -> IsChild bs p c -> r < c ->
    r ∈ h.log -> h.gone stack c = true
  order : forall r' r, Before bs r' r -> r ∈ h.log -> r' ∈ h.log ->
    [r', r].Sublist h.log

/-- What a shutdown of `l` changes: lifetimes nested in it are terminated, and
their actions are run. -/
structure Shuts (bs : List Birth) (l : Nat) (h h' : Heap) : Prop where
  size : h'.size = h.size
  objects : forall q, (h'.lifetime q).isSome = true <->
    (h.lifetime q).isSome = true
  stays : forall q, h.isTerminated q = true -> h'.isTerminated q = true
  nested : forall q, h'.isTerminated q = true ->
    h.isTerminated q = true ∨ Nested bs l q
  logged : forall r, r ∈ h.log -> r ∈ h'.log
  fresh : forall r q, IsAction bs r q -> r ∈ h'.log ->
    r ∈ h.log ∨ (h.isTerminated q = false ∧ h'.isTerminated q = true)

variable {bs : List Birth} {stack : List Nat} {h h' h₁ h₂ h₃ : Heap} {l : Nat}

theorem not_before_self (hborn : WellBorn bs) (r : Nat) : ¬ Before bs r r := by
  intro hcase
  rcases hcase with ⟨l, _, _, hlt⟩ | ⟨p, c, hchild, hp, _, hc⟩
  · exact Nat.lt_irrefl r hlt
  · rw [IsAction.unique hc hp] at hchild
    exact Nat.lt_irrefl p (hborn.child p p hchild).left

theorem gone_iff {q : Nat} : h.gone stack q = true <->
    h.isTerminated q = true ∧ q ∉ stack := by
  simp [Heap.gone]

/-!
## Beginning a shutdown
-/

/-- The heap when the loop of `l` begins. -/
def Heap.mark (h : Heap) (l : Nat) : Heap :=
  h.set l { h.get l with isTerminated := true }

theorem isTerminated_mark (h : Heap) (l q : Nat) :
    (h.mark l).isTerminated q = (decide (q = l) || h.isTerminated q) := by
  rcases eq_or_ne q l with rfl | hne
  · simp [Heap.mark, Heap.isTerminated]
  · simp [Heap.mark, Heap.isTerminated, hne]

@[simp] theorem actions_mark (h : Heap) (l q : Nat) :
    (h.mark l).actions q = h.actions q := by
  rcases eq_or_ne q l with rfl | hne
  · simp [Heap.mark, Heap.actions]
  · simp [Heap.mark, Heap.actions, hne]

theorem gone_mark (hlive : h.isTerminated l = false) :
    (h.mark l).gone (l :: stack) = h.gone stack := by
  funext q
  unfold Heap.gone
  rw [isTerminated_mark]
  rcases eq_or_ne q l with rfl | hne
  · simp [hlive]
  · simp [hne]

theorem Orderly.mark (h : Orderly bs stack h')
    (hlive : h'.isTerminated l = false) :
    Orderly bs (l :: stack) (h'.mark l) where
  underWay := by
    intro q hq
    rw [isTerminated_mark]
    rcases List.mem_cons.mp hq with rfl | hq
    · simp
    · simp [h.underWay q hq]
  actions := by
    intro q hlifetime hq
    rw [isTerminated_mark, Bool.or_eq_false_iff] at hq
    rw [gone_mark hlive, actions_mark]
    exact h.actions q hlifetime hq.right
  closed := by
    rw [gone_mark hlive]
    exact h.closed
  ran := by
    rw [gone_mark hlive]
    exact h.ran
  kept := by
    intro r q haction hq
    rw [isTerminated_mark, Bool.or_eq_false_iff] at hq
    exact h.kept r q haction hq.right
  once := h.once
  known := h.known
  upward := h.upward
  children := by
    rw [gone_mark hlive]
    exact h.children
  order := h.order

/-!
## One user action
-/

theorem sublist_concat_of_mem {r' r : Nat} {log : List Nat} (h : r' ∈ log) :
    [r', r].Sublist (log ++ [r]) :=
  (List.singleton_sublist.mpr h).append (List.Sublist.refl [r])

/-- What the loop of `l` has done when it has come down to the entries below
`bound`. -/
structure DoneTo (bs : List Birth) (stack : List Nat) (l bound : Nat)
    (h : Heap) : Prop where
  orderly : Orderly bs (l :: stack) h
  ran : forall r, IsAction bs r l -> bound ≤ r -> r ∈ h.log
  left : forall r, IsAction bs r l -> r < bound -> r ∉ h.log
  children : forall c, IsChild bs l c -> bound ≤ c ->
    h.gone (l :: stack) c = true

def Heap.runUser (h : Heap) (id : Nat) : Heap :=
  { h with log := h.log ++ [id] }

@[simp] theorem isTerminated_runUser (h : Heap) (id q : Nat) :
    (h.runUser id).isTerminated q = h.isTerminated q := rfl

theorem mem_runUser {id r : Nat} :
    r ∈ (h.runUser id).log <-> r ∈ h.log ∨ r = id := by
  rw [Heap.runUser, List.mem_append, List.mem_singleton]

/-- Nothing that has run had to wait for the latest action that is left. -/
theorem DoneTo.not_before {k r : Nat} (h : DoneTo bs stack l (k + 1) h')
    (hk : IsAction bs k l) (hr : r ∈ h'.log) : ¬ Before bs k r := by
  intro hcase
  rcases hcase with ⟨q, hkq, hrq, hlt⟩ | ⟨p, c, hchild, hrp, hlt, hkc⟩
  · rw [hkq.unique hk] at hrq
    exact h.left r hrq (Nat.lt_succ_of_lt hlt) hr
  · rw [hkc.unique hk] at hchild hlt
    have hgone := h.orderly.children r p l hrp hchild hlt hr
    exact (gone_iff.mp hgone).right List.mem_cons_self

theorem DoneTo.order_runUser {k : Nat} (hborn : WellBorn bs)
    (h : DoneTo bs stack l (k + 1) h') (hk : IsAction bs k l) {r' r : Nat}
    (hbefore : Before bs r' r) (hr : r ∈ (h'.runUser k).log)
    (hr' : r' ∈ (h'.runUser k).log) :
    [r', r].Sublist (h'.runUser k).log := by
  rcases mem_runUser.mp hr with hold | rfl
  · rcases mem_runUser.mp hr' with hold' | rfl
    · exact (h.orderly.order r' r hbefore hold hold').trans
        (List.sublist_append_left _ _)
    · exact absurd hbefore (h.not_before hk hold)
  · rcases mem_runUser.mp hr' with hold' | rfl
    · exact sublist_concat_of_mem hold'
    · exact absurd hbefore (not_before_self hborn r')

theorem DoneTo.orderly_runUser {k : Nat} (hborn : WellBorn bs)
    (h : DoneTo bs stack l (k + 1) h') (hk : IsAction bs k l) :
    Orderly bs (l :: stack) (h'.runUser k) where
  underWay := h.orderly.underWay
  actions := h.orderly.actions
  closed := h.orderly.closed
  ran := by
    intro r q haction hgone
    exact mem_runUser.mpr (Or.inl (h.orderly.ran r q haction hgone))
  kept := by
    intro r q haction hlive hmem
    rcases mem_runUser.mp hmem with hold | rfl
    · exact h.orderly.kept r q haction hlive hold
    · rw [haction.unique hk, isTerminated_runUser,
        h.orderly.underWay l List.mem_cons_self] at hlive
      cases hlive
  once := by
    rw [Heap.runUser, List.nodup_append]
    refine ⟨h.orderly.once, List.nodup_singleton k, ?_⟩
    rintro r hr r' hr' rfl
    rw [List.mem_singleton.mp hr'] at hr
    exact h.left k hk (Nat.lt_succ_self k) hr
  known := by
    intro r hr
    rcases mem_runUser.mp hr with hold | rfl
    · exact h.orderly.known r hold
    · exact ⟨l, hk⟩
  upward := by
    intro r r' q hr hr' hlt hmem
    rcases mem_runUser.mp hmem with hold | rfl
    · exact mem_runUser.mpr
        (Or.inl (h.orderly.upward r r' q hr hr' hlt hold))
    · rw [hr.unique hk] at hr'
      exact mem_runUser.mpr (Or.inl (h.ran r' hr' hlt))
  children := by
    intro r p c hr hchild hlt hmem
    rcases mem_runUser.mp hmem with hold | rfl
    · exact h.orderly.children r p c hr hchild hlt hold
    · rw [hr.unique hk] at hchild
      exact h.children c hchild hlt
  order := by
    intro r' r hbefore hr hr'
    exact h.order_runUser hborn hk hbefore hr hr'

theorem DoneTo.runUser {k : Nat} (hborn : WellBorn bs)
    (h : DoneTo bs stack l (k + 1) h') (hk : IsAction bs k l) :
    DoneTo bs stack l k (h'.runUser k) where
  orderly := h.orderly_runUser hborn hk
  ran := by
    intro r hr hle
    rcases Nat.lt_or_eq_of_le hle with hlt | rfl
    · exact mem_runUser.mpr (Or.inl (h.ran r hr hlt))
    · exact mem_runUser.mpr (Or.inr rfl)
  left := by
    intro r hr hlt hmem
    rcases mem_runUser.mp hmem with hold | rfl
    · exact h.left r hr (Nat.lt_succ_of_lt hlt) hold
    · exact Nat.lt_irrefl r hlt
  children := by
    intro c hchild hle
    rcases Nat.lt_or_eq_of_le hle with hlt | rfl
    · exact h.children c hchild hlt
    · exact absurd hk (not_isAction_of_isLifetime hchild.isLifetime)

/-!
## One nested shutdown
-/

theorem Shuts.gone_mono (h : Shuts bs l h₁ h₂) {q : Nat}
    (hq : h₁.gone stack q = true) : h₂.gone stack q = true := by
  rw [gone_iff] at hq ⊢
  exact ⟨h.stays q hq.left, hq.right⟩

/-- Older objects are left alone. -/
theorem Shuts.isTerminated_of_lt (hborn : WellBorn bs)
    (h : Shuts bs l h₁ h₂) {q : Nat} (hlt : q < l) :
    h₂.isTerminated q = h₁.isTerminated q := by
  rw [Bool.eq_iff_iff]
  constructor
  · intro hq
    rcases h.nested q hq with hold | hnested
    · exact hold
    · exact absurd hlt (Nat.not_lt.mpr (hnested.le hborn))
  · exact h.stays q

theorem Shuts.trans (h : Shuts bs l h₁ h₂) {k : Nat} (hk : Nested bs l k)
    (h' : Shuts bs k h₂ h₃) : Shuts bs l h₁ h₃ where
  size := h'.size.trans h.size
  objects := fun q => (h'.objects q).trans (h.objects q)
  stays := fun q hq => h'.stays q (h.stays q hq)
  nested := by
    intro q hq
    rcases h'.nested q hq with hold | hnested
    · exact h.nested q hold
    · exact Or.inr (hk.trans hnested)
  logged := fun r hr => h'.logged r (h.logged r hr)
  fresh := by
    intro r q haction hr
    rcases h'.fresh r q haction hr with hold | ⟨hlive, hdead⟩
    · rcases h.fresh r q haction hold with hold | ⟨hlive, hdead⟩
      · exact Or.inl hold
      · exact Or.inr ⟨hlive, h'.stays q hdead⟩
    · refine Or.inr ⟨?_, hdead⟩
      rw [Bool.eq_false_iff]
      intro hq
      rw [h.stays q hq] at hlive
      cases hlive

theorem DoneTo.shut {k : Nat}
    (hstack : forall s, s ∈ l :: stack -> s < k)
    (h : DoneTo bs stack l (k + 1) h₁) (hk : IsChild bs l k)
    (horderly : Orderly bs (l :: stack) h₂) (hshuts : Shuts bs k h₁ h₂)
    (hdead : h₂.isTerminated k = true) : DoneTo bs stack l k h₂ where
  orderly := horderly
  ran := by
    intro r hr hle
    rcases Nat.lt_or_eq_of_le hle with hlt | rfl
    · exact hshuts.logged r (h.ran r hr hlt)
    · exact absurd hr (not_isAction_of_isLifetime hk.isLifetime)
  left := by
    intro r hr hlt hmem
    rcases hshuts.fresh r l hr hmem with hold | ⟨hlive, _⟩
    · exact h.left r hr (Nat.lt_succ_of_lt hlt) hold
    · rw [h.orderly.underWay l List.mem_cons_self] at hlive
      cases hlive
  children := by
    intro c hchild hle
    rcases Nat.lt_or_eq_of_le hle with hlt | rfl
    · exact hshuts.gone_mono (h.children c hchild hlt)
    · exact gone_iff.mpr
        ⟨hdead, fun hmem => Nat.lt_irrefl k (hstack k hmem)⟩

theorem DoneTo.skip {k : Nat} (h : DoneTo bs stack l (k + 1) h')
    (haction : ¬ IsAction bs k l)
    (hchild : IsChild bs l k -> h'.gone (l :: stack) k = true) :
    DoneTo bs stack l k h' where
  orderly := h.orderly
  ran := by
    intro r hr hle
    rcases Nat.lt_or_eq_of_le hle with hlt | rfl
    · exact h.ran r hr hlt
    · exact absurd hr haction
  left := fun r hr hlt => h.left r hr (Nat.lt_succ_of_lt hlt)
  children := by
    intro c hc hle
    rcases Nat.lt_or_eq_of_le hle with hlt | rfl
    · exact h.children c hc hlt
    · exact hchild hc

theorem shuts_mark (hl : (h.lifetime l).isSome = true) :
    Shuts bs l h (h.mark l) where
  size := rfl
  objects := by
    intro q
    unfold Heap.mark
    rw [Heap.isSome_set]
    rcases eq_or_ne q l with rfl | hne
    · simp [hl]
    · simp [hne]
  stays := by
    intro q hq
    simp [isTerminated_mark, hq]
  nested := by
    intro q hq
    rw [isTerminated_mark, Bool.or_eq_true, decide_eq_true_iff] at hq
    rcases hq with rfl | hq
    · exact Or.inr Relation.ReflTransGen.refl
    · exact Or.inl hq
  logged := fun _ hr => hr
  fresh := fun _ _ _ hr => Or.inl hr

theorem Shuts.runUser (h : Shuts bs l h₁ h₂) {k : Nat} (hk : IsAction bs k l)
    (hlive : h₁.isTerminated l = false) (hdead : h₂.isTerminated l = true) :
    Shuts bs l h₁ (h₂.runUser k) where
  size := h.size
  objects := h.objects
  stays := h.stays
  nested := h.nested
  logged := fun r hr => mem_runUser.mpr (Or.inl (h.logged r hr))
  fresh := by
    intro r q haction hr
    rcases mem_runUser.mp hr with hold | rfl
    · exact h.fresh r q haction hold
    · rw [haction.unique hk]
      exact Or.inr ⟨hlive, hdead⟩

/-!
## The loop over the actions
-/

/-- What a nested call does to a live child. -/
def TerminatesChildren (bs : List Birth) (stack : List Nat) (l : Nat)
    (terminate : Heap -> Nat -> Outcome) : Prop :=
  forall (h : Heap) (c : Nat), IsChild bs l c -> Orderly bs (l :: stack) h ->
    (forall q, (h.lifetime q).isSome = true <-> IsLifetime bs q) ->
    h.isTerminated c = false ->
      (terminate h c).thrown = none ∧
        Orderly bs (l :: stack) (terminate h c).heap ∧
        Shuts bs c h (terminate h c).heap ∧
        (terminate h c).heap.isTerminated c = true

/-- The loop comes down to the oldest entry without an exception. -/
theorem DoneTo.loop {terminate : Heap -> Nat -> Outcome} (hborn : WellBorn bs)
    (hstack : forall s, s ∈ stack -> s < l)
    (hterminate : TerminatesChildren bs stack l terminate) {h₀ : Heap}
    (hobjects : forall q, (h₀.lifetime q).isSome = true <-> IsLifetime bs q)
    (hlive : h₀.isTerminated l = false) (bound : Nat)
    (hdone : DoneTo bs stack l bound h) (hshuts : Shuts bs l h₀ h) :
    (h.forEach (Heap.perform terminate)
        (entriesBelow bs (h.gone (l :: stack)) l bound).reverse).thrown = none ∧
      DoneTo bs stack l 0 (h.forEach (Heap.perform terminate)
        (entriesBelow bs (h.gone (l :: stack)) l bound).reverse).heap ∧
      Shuts bs l h₀ (h.forEach (Heap.perform terminate)
        (entriesBelow bs (h.gone (l :: stack)) l bound).reverse).heap := by
  induction bound generalizing h with
  | zero => exact ⟨rfl, hdone, hshuts⟩
  | succ k ih =>
      rw [entriesBelow_succ, List.reverse_append]
      rcases entryOf_cases bs (h.gone (l :: stack)) l k with
        ⟨heq, hk⟩ | ⟨heq, hk, hgone⟩ | ⟨heq, haction, hchild⟩
      · rw [heq]
        have hdead := hdone.orderly.underWay l List.mem_cons_self
        exact ih (hdone.runUser hborn hk) (hshuts.runUser hk hlive hdead)
      · rw [heq]
        have hlater : forall s, s ∈ l :: stack -> s < k := by
          intro s hs
          have hlt := (hborn.child l k hk).left
          rcases List.mem_cons.mp hs with rfl | hs
          · exact hlt
          · exact (hstack s hs).trans hlt
        have hklive : h.isTerminated k = false := by
          rw [Bool.eq_false_iff]
          intro hdead
          rw [gone_iff.mpr ⟨hdead, fun hs => Nat.lt_irrefl k (hlater k hs)⟩]
            at hgone
          cases hgone
        have hsome : forall q, (h.lifetime q).isSome = true <->
            IsLifetime bs q := fun q => (hshuts.objects q).trans (hobjects q)
        rcases hterminate h k hk hdone.orderly hsome hklive with
          ⟨hthrown, horderly, hshut, hdead⟩
        have hsame : entriesBelow bs (h.gone (l :: stack)) l k =
            entriesBelow bs ((terminate h k).heap.gone (l :: stack)) l k := by
          apply entriesBelow_congr
          intro j hj
          unfold Heap.gone
          rw [hshut.isTerminated_of_lt hborn hj]
        have hrest := ih (hdone.shut hlater hk horderly hshut hdead)
          (hshuts.trans (Relation.ReflTransGen.single hk) hshut)
        rw [← hsame] at hrest
        change ((terminate h k).andThen _).thrown = none ∧
          DoneTo bs stack l 0 ((terminate h k).andThen _).heap ∧
          Shuts bs l h₀ ((terminate h k).andThen _).heap
        rw [Outcome.andThen_ok hthrown]
        exact hrest
      · rw [heq]
        exact ih (hdone.skip haction hchild) hshuts

/-!
## Leaving the parents
-/

/-- The lifetime `l` has taken itself out of the lists of `ps`. -/
structure Detached (l : Nat) (ps : List Nat) (h h' : Heap) : Prop where
  size : h'.size = h.size
  log : h'.log = h.log
  objects : forall q, (h'.lifetime q).isSome = true <->
    (h.lifetime q).isSome = true
  terminated : forall q, h'.isTerminated q = h.isTerminated q
  actions : forall q, h'.actions q =
    if q ∈ ps then (h.actions q).erase (Action.terminate l) else h.actions q

theorem forEach_removals (terminate : Heap -> Nat -> Outcome) (l : Nat)
    (ps : List Nat) (hps : ps.Nodup) (h : Heap)
    (hobjects : forall p, p ∈ ps -> (h.lifetime p).isSome = true) :
    (h.forEach (Heap.perform terminate)
        (ps.map (fun p => Action.remove p l))).thrown = none ∧
      Detached l ps h (h.forEach (Heap.perform terminate)
        (ps.map (fun p => Action.remove p l))).heap := by
  induction ps generalizing h with
  | nil =>
      refine ⟨rfl, rfl, rfl, fun _ => Iff.rfl, fun _ => rfl, ?_⟩
      intro q
      simp [Heap.forEach, Outcome.ok]
  | cons p ps ih =>
      rw [List.nodup_cons] at hps
      have hset : forall q, ((h.setActions p
          ((h.actions p).erase (Action.terminate l))).lifetime q).isSome =
            true <-> (h.lifetime q).isSome = true := by
        intro q
        rw [Heap.setActions, Heap.isSome_set]
        rcases eq_or_ne q p with rfl | hne
        · simp [hobjects]
        · simp [hne]
      have hrest := ih hps.right
        (h.setActions p ((h.actions p).erase (Action.terminate l)))
        (fun q hq => (hset q).mpr (hobjects q (List.mem_cons_of_mem p hq)))
      rcases hrest with ⟨hthrown, hdetached⟩
      refine ⟨hthrown, hdetached.size, hdetached.log, ?_, ?_, ?_⟩
      · exact fun q => (hdetached.objects q).trans (hset q)
      · intro q
        exact (hdetached.terminated q).trans (Heap.isTerminated_setActions _)
      · intro q
        rw [List.map_cons]
        refine (hdetached.actions q).trans ?_
        rcases eq_or_ne q p with rfl | hne
        · simp [hps.left]
        · simp [hne]

theorem gone_pop (hdead : h.isTerminated l = true) (hfresh : l ∉ stack) :
    h.gone stack = Function.update (h.gone (l :: stack)) l true := by
  funext q
  rcases eq_or_ne q l with rfl | hne
  · simp [Heap.gone, hdead, hfresh]
  · simp [Heap.gone, hne]

theorem removals_append_erase (bs : List Birth) (q c : Nat)
    (as : List Action) :
    (removals bs q ++ as).erase (Action.terminate c) =
      removals bs q ++ as.erase (Action.terminate c) := by
  apply List.erase_append_right
  simp [removals]

/-!
## The end of a shutdown
-/

theorem actions_of_detached {ps : List Nat} {h h' : Heap}
    (hdetached : Detached l ps h h')
    (hps : forall p, p ∈ ps <-> IsChild bs p l) (q : Nat)
    (horderly : h.actions q = removals bs q ++
      entries bs (h.gone (l :: stack)) q) :
    h'.actions q = removals bs q ++
      entries bs (Function.update (h.gone (l :: stack)) l true) q := by
  unfold entries
  rw [← entriesBelow_erase, ← removals_append_erase]
  rw [hdetached.actions, horderly, entries]
  rcases Classical.em (q ∈ ps) with hmem | hmem
  · rw [if_pos hmem]
  · rw [if_neg hmem, removals_append_erase, List.erase_of_not_mem]
    rw [mem_entriesBelow_terminate]
    exact fun hentry => hmem ((hps q).mpr hentry.right.left)

theorem Detached.log_clear {ps : List Nat} (h : Detached l ps h₁ h₂) :
    (h₂.setActions l []).log = h₁.log := by
  rw [Heap.log_setActions, h.log]

theorem Detached.isTerminated_clear {ps : List Nat}
    (h : Detached l ps h₁ h₂) (q : Nat) :
    (h₂.setActions l []).isTerminated q = h₁.isTerminated q := by
  rw [Heap.isTerminated_setActions, h.terminated]

theorem Detached.gone_clear {ps : List Nat} (h : Detached l ps h₁ h₂)
    (hdead : h₁.isTerminated l = true) (hfresh : l ∉ stack) :
    (h₂.setActions l []).gone stack =
      Function.update (h₁.gone (l :: stack)) l true := by
  rw [← gone_pop hdead hfresh]
  funext q
  rw [Heap.gone, h.isTerminated_clear, Heap.gone]

theorem Detached.gone_clear_iff {ps : List Nat} (h : Detached l ps h₁ h₂)
    (hdead : h₁.isTerminated l = true) (hfresh : l ∉ stack) {q : Nat} :
    (h₂.setActions l []).gone stack q = true <->
      q = l ∨ h₁.gone (l :: stack) q = true := by
  rw [h.gone_clear hdead hfresh]
  rcases eq_or_ne q l with rfl | hne
  · simp
  · simp [hne]

theorem DoneTo.finish {ps : List Nat} (hdone : DoneTo bs stack l 0 h)
    (hfresh : l ∉ stack) (hdetached : Detached l ps h h')
    (hps : forall p, p ∈ ps <-> IsChild bs p l) :
    Orderly bs stack (h'.setActions l []) := by
  have hdead : h.isTerminated l = true :=
    hdone.orderly.underWay l List.mem_cons_self
  have hgone : forall q, (h'.setActions l []).gone stack q = true <->
      q = l ∨ h.gone (l :: stack) q = true :=
    fun q => hdetached.gone_clear_iff hdead hfresh
  constructor
  · intro s hs
    rw [hdetached.isTerminated_clear]
    exact hdone.orderly.underWay s (List.mem_cons_of_mem l hs)
  · intro q hlifetime hlive
    rw [hdetached.isTerminated_clear] at hlive
    have hne : q ≠ l := by
      rintro rfl
      rw [hdead] at hlive
      cases hlive
    rw [Heap.actions_setActions_of_ne hne, hdetached.gone_clear hdead hfresh]
    exact actions_of_detached hdetached hps q
      (hdone.orderly.actions q hlifetime hlive)
  · intro p c hchild hp
    rw [hgone] at hp ⊢
    rcases hp with rfl | hp
    · exact Or.inr (hdone.children c hchild (Nat.zero_le c))
    · exact Or.inr (hdone.orderly.closed p c hchild hp)
  · intro r q haction hq
    rw [hdetached.log_clear]
    rcases (hgone q).mp hq with rfl | hq
    · exact hdone.ran r haction (Nat.zero_le r)
    · exact hdone.orderly.ran r q haction hq
  · intro r q haction hlive
    rw [hdetached.isTerminated_clear] at hlive
    rw [hdetached.log_clear]
    exact hdone.orderly.kept r q haction hlive
  · rw [hdetached.log_clear]
    exact hdone.orderly.once
  · rw [hdetached.log_clear]
    exact hdone.orderly.known
  · rw [hdetached.log_clear]
    exact hdone.orderly.upward
  · intro r p c hr hchild hlt hmem
    rw [hdetached.log_clear] at hmem
    exact (hgone c).mpr
      (Or.inr (hdone.orderly.children r p c hr hchild hlt hmem))
  · rw [hdetached.log_clear]
    exact hdone.orderly.order

theorem Shuts.finish {ps : List Nat} {h₀ : Heap} (hshuts : Shuts bs l h₀ h)
    (hdetached : Detached l ps h h') (hl : (h.lifetime l).isSome = true) :
    Shuts bs l h₀ (h'.setActions l []) where
  size := hdetached.size.trans hshuts.size
  objects := by
    intro q
    rw [Heap.setActions, Heap.isSome_set, Bool.or_eq_true]
    rw [decide_eq_true_iff, hdetached.objects, ← hshuts.objects q]
    constructor
    · intro hcase
      rcases hcase with rfl | hq
      · exact hl
      · exact hq
    · exact Or.inr
  stays := by
    intro q hq
    rw [hdetached.isTerminated_clear]
    exact hshuts.stays q hq
  nested := by
    intro q hq
    rw [hdetached.isTerminated_clear] at hq
    exact hshuts.nested q hq
  logged := by
    intro r hr
    rw [hdetached.log_clear]
    exact hshuts.logged r hr
  fresh := by
    intro r q haction hr
    rw [hdetached.log_clear] at hr
    rw [hdetached.isTerminated_clear]
    exact hshuts.fresh r q haction hr

/-!
## The shutdown
-/

theorem Orderly.doneTo (h : Orderly bs stack h')
    (hlive : h'.isTerminated l = false) :
    DoneTo bs stack l bs.length (h'.mark l) where
  orderly := h.mark hlive
  ran := fun _ hr hle => absurd hr.lt (Nat.not_lt.mpr hle)
  left := fun r hr _ => h.kept r l hr hlive
  children := fun _ hc hle => absurd hc.isLifetime.lt (Nat.not_lt.mpr hle)

theorem terminate_live {depth : Nat} (hlive : h.isTerminated l = false) :
    Heap.terminate (depth + 1) h l =
      ((h.mark l).forEach (Heap.perform (Heap.terminate depth))
        (h.actions l).reverse).andThen
          (fun h => Outcome.ok (h.setActions l [])) := by
  rw [Heap.terminate, hlive, if_neg Bool.false_ne_true]
  change ((h.mark l).forEach _ ((h.mark l).actions l).reverse).andThen _ = _
  rw [actions_mark]

/-- Terminating a live lifetime succeeds, and what holds between the calls
holds again. -/
theorem terminate_spec (hborn : WellBorn bs) (depth : Nat) (stack : List Nat)
    (h : Heap) (l : Nat) (hdepth : bs.length ≤ depth + l)
    (horderly : Orderly bs stack h)
    (hobjects : forall q, (h.lifetime q).isSome = true <-> IsLifetime bs q)
    (hlifetime : IsLifetime bs l) (hlive : h.isTerminated l = false)
    (hstack : forall s, s ∈ stack -> s < l) :
    (Heap.terminate depth h l).thrown = none ∧
      Orderly bs stack (Heap.terminate depth h l).heap ∧
      Shuts bs l h (Heap.terminate depth h l).heap ∧
      (Heap.terminate depth h l).heap.isTerminated l = true := by
  induction depth generalizing stack h l with
  | zero =>
      rw [Nat.zero_add] at hdepth
      exact absurd hlifetime.lt (Nat.not_lt.mpr hdepth)
  | succ depth ih =>
      have hchildren : TerminatesChildren bs stack l (Heap.terminate depth) := by
        intro h c hc horderly hobjects hlive
        have hlt := (hborn.child l c hc).left
        apply ih (l :: stack) h c (by omega) horderly hobjects hc.isLifetime
          hlive
        intro s hs
        rcases List.mem_cons.mp hs with rfl | hs
        · exact hlt
        · exact (hstack s hs).trans hlt
      have hlsome := (hobjects l).mpr hlifetime
      rcases (horderly.doneTo hlive).loop hborn hstack hchildren hobjects hlive
          bs.length (shuts_mark hlsome) with ⟨hthrown, hdone, hshuts⟩
      rw [gone_mark hlive] at hthrown hdone hshuts
      have hps : (parentsOf bs l).reverse.Nodup :=
        List.nodup_reverse.mpr (hborn.nodup_parentsOf hlifetime)
      have hmem : forall p, p ∈ (parentsOf bs l).reverse <->
          IsChild bs p l := by
        intro p
        rw [List.mem_reverse, mem_parentsOf]
      rcases forEach_removals (Heap.terminate depth) l _ hps _ (by
          intro p hp
          rw [hshuts.objects, hobjects]
          exact (hborn.child p l ((hmem p).mp hp)).right) with
        ⟨hthrown', hdetached⟩
      have hfresh : l ∉ stack := fun hl => Nat.lt_irrefl l (hstack l hl)
      have hlsome' := (hshuts.objects l).mpr hlsome
      rw [terminate_live hlive, horderly.actions l hlifetime hlive]
      rw [List.reverse_append, Heap.forEach_append, removals]
      unfold entries
      rw [← List.map_reverse, Outcome.andThen_ok hthrown]
      rw [Outcome.andThen_ok hthrown']
      refine ⟨rfl, hdone.finish hfresh hdetached hmem,
        hshuts.finish hdetached hlsome', ?_⟩
      rw [Outcome.ok, hdetached.isTerminated_clear]
      exact hdone.orderly.underWay l List.mem_cons_self

end Plugin
end Franky
