import Franky.Plugin.LifetimeShutdown

/-!
# Runs of lifetimes

Between the calls of a run no loop is under way.  Creating a lifetime and
adding an action append one object to the graph, and terminating a lifetime
leaves the graph alone, so the state in which a shutdown begins is there
whenever a live lifetime is terminated.
-/

namespace Franky
namespace Plugin

open Foundation

variable {bs : List Birth} {b : Birth} {h h' h'' : Heap} {calls : List Call}

/-!
## Creating a lifetime
-/

/-- What nesting `c` in the lifetimes `ps` changes. -/
structure Attached (c : Nat) (ps : List Nat) (h h' : Heap) : Prop where
  size : h'.size = h.size
  log : h'.log = h.log
  objects : forall q, (h'.lifetime q).isSome = true <->
    (h.lifetime q).isSome = true
  terminated : forall q, h'.isTerminated q = h.isTerminated q
  others : forall q, q ≠ c -> h'.actions q =
    if q ∈ ps then h.actions q ++ [Action.terminate c] else h.actions q
  own : h'.actions c =
    h.actions c ++ ps.map (fun p => Action.remove p c)

theorem isSome_setActions {q l : Nat} (hl : (h.lifetime l).isSome = true)
    (as : List Action) : ((h.setActions l as).lifetime q).isSome = true <->
      (h.lifetime q).isSome = true := by
  rw [Heap.setActions, Heap.isSome_set]
  rcases eq_or_ne q l with rfl | hne
  · simp [hl]
  · simp [hne]

/-- The heap where `c` is nested in `p`, both being live. -/
def Heap.nest (h : Heap) (p c : Nat) : Heap :=
  (h.setActions p (h.actions p ++ [Action.terminate c])).setActions c
    (h.actions c ++ [Action.remove p c])

theorem addNested_live {p c : Nat} (hne : p ≠ c)
    (hp : h.isTerminated p = false) (hc : h.isTerminated c = false) :
    h.addNested p c = Outcome.ok (h.nest p c) := by
  rw [Heap.addNested, hc, if_neg Bool.false_ne_true, Heap.add, hp]
  rw [if_neg Bool.false_ne_true, Outcome.andThen_ok rfl, Heap.add]
  change (if (h.setActions p _).isTerminated c = true then _ else _) = _
  rw [Heap.isTerminated_setActions, hc, if_neg Bool.false_ne_true]
  change Outcome.ok ((h.setActions p _).setActions c
    ((h.setActions p _).actions c ++ _)) = _
  rw [Heap.actions_setActions_of_ne hne.symm]
  rfl

theorem isSome_nest {p c : Nat} (hp : (h.lifetime p).isSome = true)
    (hc : (h.lifetime c).isSome = true) (q : Nat) :
    ((h.nest p c).lifetime q).isSome = true <->
      (h.lifetime q).isSome = true := by
  rw [Heap.nest, isSome_setActions ((isSome_setActions hp _).mpr hc)]
  exact isSome_setActions hp _

@[simp] theorem isTerminated_nest (h : Heap) (p c q : Nat) :
    (h.nest p c).isTerminated q = h.isTerminated q := by
  rw [Heap.nest, Heap.isTerminated_setActions, Heap.isTerminated_setActions]

@[simp] theorem actions_nest_self (h : Heap) (p c : Nat) :
    (h.nest p c).actions c = h.actions c ++ [Action.remove p c] :=
  Heap.actions_setActions_self _

theorem actions_nest {p c q : Nat} (hq : q ≠ c) : (h.nest p c).actions q =
    if q = p then h.actions q ++ [Action.terminate c] else h.actions q := by
  rw [Heap.nest, Heap.actions_setActions_of_ne hq]
  rcases eq_or_ne q p with rfl | hqp
  · simp
  · simp [hqp]

/-- What nesting `c` in each of the lifetimes `ps` changes, where a lifetime may
come several times. -/
structure Enrolled (c : Nat) (ps : List Nat) (h h' : Heap) : Prop where
  size : h'.size = h.size
  log : h'.log = h.log
  objects : forall q, (h'.lifetime q).isSome = true <->
    (h.lifetime q).isSome = true
  terminated : forall q, h'.isTerminated q = h.isTerminated q
  others : forall q, q ≠ c -> h'.actions q =
    h.actions q ++ List.replicate (ps.count q) (Action.terminate c)
  own : h'.actions c =
    h.actions c ++ ps.map (fun p => Action.remove p c)

theorem forEach_addNested {c : Nat} (ps : List Nat) (hc : h.Live c)
    (hfresh : c ∉ ps) (hlive : forall p, p ∈ ps -> h.Live p) :
    (h.forEach (fun h p => h.addNested p c) ps).thrown = none ∧
      Enrolled c ps h (h.forEach (fun h p => h.addNested p c) ps).heap := by
  induction ps generalizing h with
  | nil =>
      refine ⟨rfl, rfl, rfl, fun _ => Iff.rfl, fun _ => rfl, ?_, ?_⟩
      · intro q _
        simp [Heap.forEach, Outcome.ok]
      · simp [Heap.forEach, Outcome.ok]
  | cons p ps ih =>
      rcases List.ne_and_not_mem_of_not_mem_cons hfresh with ⟨hne, hfresh⟩
      have hp := hlive p List.mem_cons_self
      rw [Heap.forEach, addNested_live hne.symm hp.right hc.right]
      rw [Outcome.andThen_ok rfl, Outcome.ok]
      have hstill : forall q, h.Live q -> (h.nest p c).Live q := by
        intro q hq
        exact ⟨(isSome_nest hp.left hc.left q).mpr hq.left,
          (isTerminated_nest h p c q).trans hq.right⟩
      rcases ih (hstill c hc) hfresh
          (fun q hq => hstill q (hlive q (List.mem_cons_of_mem p hq))) with
        ⟨hthrown, henrolled⟩
      refine ⟨hthrown, henrolled.size, henrolled.log, ?_, ?_, ?_, ?_⟩
      · exact fun q => (henrolled.objects q).trans
          (isSome_nest hp.left hc.left q)
      · exact fun q => (henrolled.terminated q).trans (isTerminated_nest h p c q)
      · intro q hq
        rw [henrolled.others q hq, actions_nest hq]
        rcases eq_or_ne q p with rfl | hqp
        · simp [List.replicate_succ]
        · simp [hqp, hqp.symm]
      · rw [henrolled.own, actions_nest_self]
        simp

/-- Parents that are different ones get one entry each. -/
theorem Enrolled.attached {c : Nat} {ps : List Nat} (h : Enrolled c ps h' h'')
    (hps : ps.Nodup) : Attached c ps h' h'' where
  size := h.size
  log := h.log
  objects := h.objects
  terminated := h.terminated
  others := by
    intro q hq
    rw [h.others q hq]
    split
    · next hmem => rw [List.count_eq_one_of_mem hps hmem, List.replicate_one]
    · next hmem =>
        rw [List.count_eq_zero_of_not_mem hmem, List.replicate_zero,
          List.append_nil]
  own := h.own

/-!
## Appending an object
-/

/-- What appending an object changes, as the lists show it. -/
structure Grows (bs : List Birth) (b : Birth) (h h' : Heap) : Prop where
  log : h'.log = h.log
  terminated : forall q, h'.isTerminated q = h.isTerminated q
  parents : forall p, IsChild (bs ++ [b]) p bs.length ->
    h.isTerminated p = false
  owner : forall l, b = Birth.action l -> h.isTerminated l = false
  others : forall q, IsLifetime bs q -> h'.actions q =
    h.actions q ++ (b.entry q bs.length (h.gone [])).toList
  own : forall ps, b = Birth.lifetime ps ->
    h'.actions bs.length = ps.map (fun p => Action.remove p bs.length)

theorem Orderly.known_lt {stack : List Nat} (horderly : Orderly bs stack h)
    {r : Nat} (hr : r ∈ h.log) : r < bs.length := by
  rcases horderly.known r hr with ⟨l, haction⟩
  exact haction.lt

theorem Grows.gone (hgrows : Grows bs b h h') : h'.gone [] = h.gone [] := by
  funext q
  rw [Heap.gone, hgrows.terminated, Heap.gone]

theorem isAction_of_concat {r l : Nat} (hr : r < bs.length)
    (haction : IsAction (bs ++ [b]) r l) : IsAction bs r l := by
  rcases isAction_concat.mp haction with hold | ⟨rfl, _⟩
  · exact hold
  · exact absurd hr (Nat.lt_irrefl _)

theorem before_of_concat (hborn : WellBorn (bs ++ [b])) {r' r : Nat}
    (hr' : r' < bs.length) (hr : r < bs.length)
    (hbefore : Before (bs ++ [b]) r' r) : Before bs r' r := by
  rcases hbefore with ⟨l, hl', hl, hlt⟩ | ⟨p, c, hchild, hp, hlt, hc⟩
  · exact Or.inl ⟨l, isAction_of_concat hr' hl', isAction_of_concat hr hl, hlt⟩
  · have hclt := (hborn.action r' c hc).left.trans hr'
    rcases isChild_concat.mp hchild with hold | ⟨rfl, _⟩
    · exact Or.inr ⟨p, c, hold, isAction_of_concat hr hp, hlt,
        isAction_of_concat hr' hc⟩
    · exact absurd hclt (Nat.lt_irrefl _)

theorem Orderly.grow (horderly : Orderly bs [] h)
    (hborn : WellBorn (bs ++ [b])) (hgrows : Grows bs b h h') :
    Orderly (bs ++ [b]) [] h' where
  underWay := by
    intro l hl
    cases hl
  actions := by
    intro q hq hlive
    rw [hgrows.terminated] at hlive
    rcases isLifetime_concat.mp hq with hold | ⟨rfl, ps, rfl⟩
    · rw [hgrows.others q hold, horderly.actions q hold hlive, hgrows.gone]
      rw [entries_concat, removals_concat hold.lt, List.append_assoc]
      congr 2
      simp [entryOf]
    · rw [hgrows.own ps rfl, entries_newest hborn, List.append_nil]
      · simp [removals, parentsOf]
      · simp
  closed := by
    intro p c hchild hp
    rw [hgrows.gone] at hp ⊢
    rcases isChild_concat.mp hchild with hold | ⟨rfl, _⟩
    · exact horderly.closed p c hold hp
    · have hlive := hgrows.parents p hchild
      rw [(gone_iff.mp hp).left] at hlive
      cases hlive
  ran := by
    intro r l haction hl
    rw [hgrows.gone] at hl
    rw [hgrows.log]
    rcases isAction_concat.mp haction with hold | ⟨_, heq⟩
    · exact horderly.ran r l hold hl
    · have hlive := hgrows.owner l heq
      rw [(gone_iff.mp hl).left] at hlive
      cases hlive
  kept := by
    intro r l haction hlive
    rw [hgrows.terminated] at hlive
    rw [hgrows.log]
    intro hr
    have hold := isAction_of_concat (horderly.known_lt hr) haction
    exact horderly.kept r l hold hlive hr
  once := by
    rw [hgrows.log]
    exact horderly.once
  known := by
    intro r hr
    rw [hgrows.log] at hr
    rcases horderly.known r hr with ⟨l, haction⟩
    exact ⟨l, isAction_concat.mpr (Or.inl haction)⟩
  upward := by
    intro r r' l haction haction' hlt hr
    rw [hgrows.log] at hr ⊢
    have hold := isAction_of_concat (horderly.known_lt hr) haction
    rcases isAction_concat.mp haction' with hold' | ⟨_, heq⟩
    · exact horderly.upward r r' l hold hold' hlt hr
    · exact absurd hr (horderly.kept r l hold (hgrows.owner l heq))
  children := by
    intro r p c haction hchild hlt hr
    rw [hgrows.log] at hr
    rw [hgrows.gone]
    have hold := isAction_of_concat (horderly.known_lt hr) haction
    rcases isChild_concat.mp hchild with hchild' | ⟨rfl, _⟩
    · exact horderly.children r p c hold hchild' hlt hr
    · exact absurd hr (horderly.kept r p hold (hgrows.parents p hchild))
  order := by
    intro r' r hbefore hr hr'
    rw [hgrows.log] at hr hr' ⊢
    exact horderly.order r' r (before_of_concat hborn (horderly.known_lt hr')
      (horderly.known_lt hr) hbefore) hr hr'

/-!
## Runs
-/

/-- What the calls made so far have left behind. -/
structure Follows (calls : List Call) (h : Heap) : Prop where
  size : h.size = (births calls).length
  objects : forall q, (h.lifetime q).isSome = true <->
    IsLifetime (births calls) q
  born : WellBorn (births calls)
  orderly : Orderly (births calls) [] h
  terminated : forall l, h.isTerminated l = true <->
    exists a, Call.terminate a ∈ calls ∧ Nested (births calls) a l

theorem births_concat (calls : List Call) (call : Call) :
    births (calls ++ [call]) = births calls ++ call.birth.toList := by
  unfold births
  rw [List.filterMap_append, List.cons_append]
  cases hbirth : call.birth <;> simp [hbirth]

theorem births_create (calls : List Call) (ps : List Nat) :
    births (calls ++ [Call.create ps]) =
      births calls ++ [Birth.lifetime ps] := births_concat calls _

theorem births_add (calls : List Call) (l : Nat) :
    births (calls ++ [Call.add l]) = births calls ++ [Birth.action l] :=
  births_concat calls _

theorem births_terminate (calls : List Call) (l : Nat) :
    births (calls ++ [Call.terminate l]) = births calls := by
  rw [births_concat]
  exact List.append_nil _

theorem Follows.lifetime_size (h : Follows calls h') :
    h'.lifetime h'.size = none := by
  rw [← Option.not_isSome_iff_eq_none, h.objects, h.size]
  exact fun hlifetime => Nat.lt_irrefl _ hlifetime.lt

theorem Follows.nested_concat (h : Follows calls h')
    (hborn : WellBorn (births calls ++ [b]))
    (hparents : forall p, IsChild (births calls ++ [b]) p
      (births calls).length -> h'.isTerminated p = false) (l : Nat) :
    h'.isTerminated l = true <->
      exists a, Call.terminate a ∈ calls ∧
        Nested (births calls ++ [b]) a l := by
  rw [h.terminated]
  constructor
  · intro hexists
    rcases hexists with ⟨a, ha, hnested⟩
    exact ⟨a, ha, hnested.mono⟩
  · intro hexists
    rcases hexists with ⟨a, ha, hnested⟩
    rcases hnested.of_concat hborn with hold | ⟨rfl, p, hchild, hold⟩
    · exact ⟨a, ha, hold⟩
    · have hdead := (h.terminated p).mpr ⟨a, ha, hold⟩
      rw [hparents p hchild] at hdead
      cases hdead

theorem get_alloc (hnew : h.lifetime h.size = none) (q : Nat) :
    h.alloc.get q = h.get q := by
  rcases eq_or_ne q h.size with rfl | hne
  · simp [Heap.get, Heap.alloc, hnew]
  · simp [Heap.get, Heap.alloc, hne]

theorem isTerminated_alloc (hnew : h.lifetime h.size = none) (q : Nat) :
    h.alloc.isTerminated q = h.isTerminated q := by
  rw [Heap.isTerminated, get_alloc hnew, Heap.isTerminated]

theorem actions_alloc (hnew : h.lifetime h.size = none) (q : Nat) :
    h.alloc.actions q = h.actions q := by
  rw [Heap.actions, get_alloc hnew, Heap.actions]

theorem get_of_none {q : Nat} (hq : h.lifetime q = none) :
    h.get q = Lifetime.new := by
  rw [Heap.get, hq, Option.getD_none]

theorem isSome_alloc {q : Nat} : (h.alloc.lifetime q).isSome = true <->
    q = h.size ∨ (h.lifetime q).isSome = true := by
  rcases eq_or_ne q h.size with rfl | hne
  · simp [Heap.alloc]
  · simp [Heap.alloc, hne]

theorem live_alloc_size (hnew : h.lifetime h.size = none) :
    h.alloc.Live h.size := by
  constructor
  · exact isSome_alloc.mpr (Or.inl rfl)
  · rw [isTerminated_alloc hnew, Heap.isTerminated, get_of_none hnew]
    rfl

theorem live_alloc (hnew : h.lifetime h.size = none) {q : Nat}
    (hq : h.Live q) : h.alloc.Live q := by
  constructor
  · exact isSome_alloc.mpr (Or.inr hq.left)
  · rw [isTerminated_alloc hnew]
    exact hq.right

theorem create_live (hnew : h.lifetime h.size = none) {ps : List Nat}
    (hlive : forall p, p ∈ ps -> h.Live p) :
    (h.create ps).thrown = none ∧
      Enrolled h.size ps h.alloc (h.create ps).heap := by
  apply forEach_addNested ps (live_alloc_size hnew)
  · intro hmem
    have hsome := (hlive h.size hmem).left
    rw [hnew] at hsome
    cases hsome
  · exact fun p hp => live_alloc hnew (hlive p hp)

theorem Attached.grows {ps : List Nat} (hsize : h.size = bs.length)
    (hnew : h.lifetime h.size = none)
    (hlive : forall p, p ∈ ps -> h.isTerminated p = false)
    (hattached : Attached h.size ps h.alloc h') :
    Grows bs (Birth.lifetime ps) h h' where
  log := hattached.log
  terminated := by
    intro q
    rw [hattached.terminated, isTerminated_alloc hnew]
  parents := by
    intro p hchild
    rcases isChild_concat.mp hchild with hold | ⟨_, ps', heq, hmem⟩
    · exact absurd hold.isLifetime.lt (Nat.lt_irrefl _)
    · cases heq
      exact hlive p hmem
  owner := by
    intro l heq
    cases heq
  others := by
    intro q hq
    have hne : q ≠ h.size := by
      rw [hsize]
      exact Nat.ne_of_lt hq.lt
    have hgone : h.gone [] bs.length = false := by
      rw [← hsize, Heap.gone, Heap.isTerminated, get_of_none hnew]
      rfl
    rw [hattached.others q hne, actions_alloc hnew, hsize]
    rcases Classical.em (q ∈ ps) with hmem | hmem
    · simp [Birth.entry, hmem, hgone]
    · simp [Birth.entry, hmem]
  own := by
    intro ps' heq
    cases heq
    rw [← hsize, hattached.own, actions_alloc hnew, Heap.actions]
    rw [get_of_none hnew]
    rfl

theorem Follows.attached (h : Follows calls h') {ps : List Nat}
    (hallowed : h'.Allows (Call.create ps)) :
    (h'.call (Call.create ps)).thrown = none ∧
      Attached h'.size ps h'.alloc (h'.step (Call.create ps)) := by
  rcases create_live h.lifetime_size hallowed.right with
    ⟨hthrown, henrolled⟩
  exact ⟨hthrown, henrolled.attached hallowed.left⟩

theorem Follows.create (h : Follows calls h') {ps : List Nat}
    (hallowed : h'.Allows (Call.create ps)) :
    (h'.call (Call.create ps)).thrown = none ∧
      Follows (calls ++ [Call.create ps]) (h'.step (Call.create ps)) := by
  rcases h.attached hallowed with ⟨hthrown, hattached⟩
  rcases hallowed with ⟨hps, hlive⟩
  have hnew := h.lifetime_size
  have hparents : forall p, p ∈ ps -> IsLifetime (births calls) p :=
    fun p hp => (h.objects p).mp (hlive p hp).left
  have hgrows := hattached.grows h.size hnew (fun p hp => (hlive p hp).right)
  have hborn := h.born.concat_lifetime hps hparents
  have hbirths := births_create calls ps
  refine ⟨hthrown, ?_⟩
  constructor
  · rw [hbirths, List.length_append, ← h.size]
    exact hattached.size
  · intro q
    rw [hbirths, isLifetime_concat]
    refine (hattached.objects q).trans ?_
    rw [isSome_alloc, h.objects, h.size]
    constructor
    · intro hcase
      rcases hcase with rfl | hq
      · exact Or.inr ⟨rfl, ps, rfl⟩
      · exact Or.inl hq
    · intro hcase
      rcases hcase with hq | ⟨rfl, _⟩
      · exact Or.inr hq
      · exact Or.inl rfl
  · rw [hbirths]
    exact hborn
  · rw [hbirths]
    exact h.orderly.grow hborn hgrows
  · intro l
    have hsame : (h'.step (Call.create ps)).isTerminated l =
        h'.isTerminated l := hgrows.terminated l
    rw [hsame, hbirths, h.nested_concat hborn hgrows.parents]
    simp

theorem isTerminated_create (h : Follows calls h') {ps : List Nat}
    (hallowed : h'.Allows (Call.create ps)) (q : Nat) :
    (h'.step (Call.create ps)).isTerminated q = h'.isTerminated q := by
  rw [(h.attached hallowed).right.terminated]
  exact isTerminated_alloc h.lifetime_size q

theorem call_add_live {l : Nat} (hlive : h.isTerminated l = false) :
    h.call (Call.add l) = Outcome.ok
      ({ h with size := h.size + 1 }.setActions l
        (h.actions l ++ [Action.user h.size])) := by
  rw [Heap.call, Heap.plusAssign, Heap.add]
  exact if_neg (Bool.eq_false_iff.mp hlive)

theorem Follows.add (h : Follows calls h') {l : Nat}
    (hlive : h'.Allows (Call.add l)) :
    (h'.call (Call.add l)).thrown = none ∧
      Follows (calls ++ [Call.add l]) (h'.step (Call.add l)) := by
  have hl := (h.objects l).mp hlive.left
  have heq := call_add_live hlive.right
  have hstep : h'.step (Call.add l) =
      { h' with size := h'.size + 1 }.setActions l
        (h'.actions l ++ [Action.user h'.size]) := by
    rw [Heap.step, heq, Outcome.ok]
  have hgrows : Grows (births calls) (Birth.action l) h'
      (h'.step (Call.add l)) := by
    rw [hstep]
    constructor
    · rfl
    · exact fun q => Heap.isTerminated_setActions _
    · intro p hchild
      rcases isChild_concat.mp hchild with hold | ⟨_, ps, heq, _⟩
      · exact absurd hold.isLifetime.lt (Nat.lt_irrefl _)
      · cases heq
    · intro q heq
      cases heq
      exact hlive.right
    · intro q _
      rw [h.size]
      rcases eq_or_ne q l with rfl | hne
      · simp [Birth.entry]
      · rw [Heap.actions_setActions_of_ne hne]
        simp [Birth.entry, hne.symm, Heap.actions, Heap.get]
    · intro ps heq
      cases heq
  have hborn := h.born.concat_action hl
  have hbirths := births_add calls l
  constructor
  · rw [heq, Outcome.ok]
  · constructor
    · rw [hbirths, List.length_append, ← h.size, hstep]
      rfl
    · intro q
      rw [hbirths, isLifetime_concat, hstep]
      refine (isSome_setActions hlive.left _).trans ?_
      simp [h.objects]
    · rw [hbirths]
      exact hborn
    · rw [hbirths]
      exact h.orderly.grow hborn hgrows
    · intro q
      rw [hgrows.terminated, hbirths, h.nested_concat hborn hgrows.parents]
      simp

theorem Orderly.nested_terminated (horderly : Orderly bs [] h) {a l : Nat}
    (ha : h.isTerminated a = true) (hnested : Nested bs a l) :
    h.isTerminated l = true := by
  induction hnested with
  | refl => exact ha
  | tail _ hchild ih =>
      have hgone := gone_iff.mpr ⟨ih, List.not_mem_nil⟩
      exact (gone_iff.mp (horderly.closed _ _ hchild hgone)).left

theorem Follows.terminate (h : Follows calls h') {l : Nat}
    (hlive : h'.Allows (Call.terminate l)) :
    (h'.call (Call.terminate l)).thrown = none ∧
      Follows (calls ++ [Call.terminate l]) (h'.step (Call.terminate l)) := by
  have hl := (h.objects l).mp hlive.left
  rcases terminate_spec h.born h'.size [] h' l
      (h.size.symm.le.trans (Nat.le_add_right _ _)) h.orderly h.objects hl
      hlive.right (fun s hs => by cases hs) with
    ⟨hthrown, horderly, hshuts, hdead⟩
  have hbirths := births_terminate calls l
  refine ⟨hthrown, ?_⟩
  constructor
  · rw [hbirths, ← h.size]
    exact hshuts.size
  · intro q
    rw [hbirths, ← h.objects]
    exact hshuts.objects q
  · rw [hbirths]
    exact h.born
  · rw [hbirths]
    exact horderly
  · intro q
    rw [hbirths]
    constructor
    · intro hq
      rcases hshuts.nested q hq with hold | hnested
      · rcases (h.terminated q).mp hold with ⟨a, ha, hnested⟩
        exact ⟨a, List.mem_append_left _ ha, hnested⟩
      · exact ⟨l, List.mem_append_right _ List.mem_cons_self, hnested⟩
    · intro hexists
      rcases hexists with ⟨a, ha, hnested⟩
      rcases List.mem_append.mp ha with hold | hnew
      · exact hshuts.stays q ((h.terminated q).mpr ⟨a, hold, hnested⟩)
      · cases List.mem_singleton.mp hnew
        exact horderly.nested_terminated hdead hnested

theorem isTerminated_add {l : Nat} (hlive : h.isTerminated l = false)
    (q : Nat) : (h.step (Call.add l)).isTerminated q = h.isTerminated q := by
  rw [Heap.step, call_add_live hlive]
  exact Heap.isTerminated_setActions _

theorem Follows.isTerminated_terminate (h : Follows calls h') {l : Nat}
    (hlive : h'.Allows (Call.terminate l)) (q : Nat) :
    (h'.step (Call.terminate l)).isTerminated q = true <->
      h'.isTerminated q = true ∨ Nested (births calls) l q := by
  rw [(h.terminate hlive).right.terminated, h.terminated, births_terminate]
  constructor
  · intro hexists
    rcases hexists with ⟨a, ha, hnested⟩
    rcases List.mem_append.mp ha with hold | hnew
    · exact Or.inl ⟨a, hold, hnested⟩
    · cases List.mem_singleton.mp hnew
      exact Or.inr hnested
  · intro hcase
    rcases hcase with ⟨a, ha, hnested⟩ | hnested
    · exact ⟨a, List.mem_append_left _ ha, hnested⟩
    · exact ⟨l, List.mem_append_right _ List.mem_cons_self, hnested⟩

theorem get_initial (l : Nat) : Heap.initial.get l = Lifetime.new := by
  rcases eq_or_ne l 0 with rfl | hne
  · rfl
  · simp [Heap.get, Heap.initial, hne]

theorem not_isAction_initial (r l : Nat) : ¬ IsAction (births []) r l := by
  intro haction
  rcases r with _ | r <;> cases haction

theorem not_isChild_initial (p c : Nat) : ¬ IsChild (births []) p c := by
  intro hexists
  rcases hexists with ⟨ps, hc, hmem⟩
  rcases c with _ | c
  · cases hc
    cases hmem
  · cases hc

theorem orderly_initial : Orderly (births []) [] Heap.initial where
  underWay := by
    intro l hl
    cases hl
  actions := by
    rintro l hl _
    have hzero : l = 0 := Nat.lt_one_iff.mp hl.lt
    rw [hzero]
    rfl
  closed := fun p c hchild _ => absurd hchild (not_isChild_initial p c)
  ran := fun r l haction _ => absurd haction (not_isAction_initial r l)
  kept := fun r l haction _ => absurd haction (not_isAction_initial r l)
  once := List.nodup_nil
  known := by
    intro r hr
    cases hr
  upward := fun r _ l haction _ _ _ => absurd haction (not_isAction_initial r l)
  children := fun _ p c _ hchild _ _ => absurd hchild (not_isChild_initial p c)
  order := by
    intro r' r _ hr _
    cases hr

theorem follows_initial : Follows [] Heap.initial where
  size := rfl
  objects := by
    intro q
    rcases eq_or_ne q 0 with rfl | hne
    · simp [Heap.initial, births, IsLifetime]
    · simp [Heap.initial, births, IsLifetime, hne]
  born := by
    constructor
    · exact fun p c hchild => absurd hchild (not_isChild_initial p c)
    · exact fun r l haction => absurd haction (not_isAction_initial r l)
    · intro l ps hl
      rcases l with _ | l
      · cases hl
        exact List.nodup_nil
      · cases hl
  orderly := orderly_initial
  terminated := by
    intro l
    rw [Heap.isTerminated, get_initial]
    simp [Lifetime.new]

theorem Follows.step (h : Follows calls h') {call : Call}
    (hallowed : h'.Allows call) :
    (h'.call call).thrown = none ∧
      Follows (calls ++ [call]) (h'.step call) := by
  cases call with
  | create ps => exact h.create hallowed
  | add l => exact h.add hallowed
  | terminate l => exact h.terminate hallowed

/-- What a run of calls on live lifetimes leaves behind. -/
theorem follows_run
    (h : Machine.AllSteps Heap.step Heap.Allows Heap.initial calls) :
    Follows calls (Machine.run Heap.step Heap.initial calls) := by
  apply Machine.run_history Follows follows_initial
  intro before call hbegin hfollows
  exact (hfollows.step (h.at_prefix hbegin)).right

/-!
## Complete, orderly shutdowns
-/

/-- Exactly the lifetimes on which, or on an ancestor of which, `terminate` was
called have been terminated, and their actions have been run in order. -/
structure ShutsDown (calls : List Call) (h : Heap) : Prop where
  terminated : forall l, h.isTerminated l = true <->
    exists a, Call.terminate a ∈ calls ∧ Nested (births calls) a l
  once : forall r l, IsAction (births calls) r l ->
    h.log.count r = if h.isTerminated l = true then 1 else 0
  known : forall r, r ∈ h.log -> exists l, IsAction (births calls) r l
  reversed : forall r r' l, IsAction (births calls) r l ->
    IsAction (births calls) r' l -> r < r' -> h.isTerminated l = true ->
      [r', r].Sublist h.log
  children : forall r r' p c, IsChild (births calls) p c ->
    IsAction (births calls) r p -> IsAction (births calls) r' c -> r < c ->
      h.isTerminated p = true -> [r', r].Sublist h.log

theorem Follows.shutsDown (h : Follows calls h') : ShutsDown calls h' := by
  have hran : forall r l, IsAction (births calls) r l ->
      h'.isTerminated l = true -> r ∈ h'.log := by
    intro r l haction hl
    exact h.orderly.ran r l haction (gone_iff.mpr ⟨hl, List.not_mem_nil⟩)
  constructor
  · exact h.terminated
  · intro r l haction
    cases hl : h'.isTerminated l with
    | true =>
        rw [if_pos rfl]
        exact List.count_eq_one_of_mem h.orderly.once (hran r l haction hl)
    | false =>
        rw [if_neg Bool.false_ne_true]
        exact List.count_eq_zero_of_not_mem
          (h.orderly.kept r l haction hl)
  · exact h.orderly.known
  · intro r r' l haction haction' hlt hl
    exact h.orderly.order r' r (Or.inl ⟨l, haction', haction, hlt⟩)
      (hran r l haction hl) (hran r' l haction' hl)
  · intro r r' p c hchild haction haction' hlt hp
    have hc := h.orderly.nested_terminated hp
      (Relation.ReflTransGen.single hchild)
    exact h.orderly.order r' r
      (Or.inr ⟨p, c, hchild, haction, hlt, haction'⟩)
      (hran r p haction hp) (hran r' c haction' hc)

/-- Calls on live lifetimes never throw, and after each of them the lifetimes
that had to go are gone, completely, once and in order. -/
theorem lifetimes_shutDown (calls : List Call)
    (h : Machine.AllSteps Heap.step Heap.Allows Heap.initial calls) :
    Machine.AllSteps Heap.step (fun h call => (h.call call).thrown = none)
        Heap.initial calls ∧
      forall before, before <+: calls ->
        ShutsDown before (Machine.run Heap.step Heap.initial before) := by
  constructor
  · apply Machine.allSteps_of_run
    intro before call hbegin
    have hbefore := h.of_prefix ((List.prefix_append _ _).trans hbegin)
    exact ((follows_run hbefore).step (h.at_prefix hbegin)).left
  · intro before hbegin
    exact (follows_run (h.of_prefix hbegin)).shutsDown

/-- A lifetime 1 with an action 2, a child 3 of both 1 and `Lifetime.Eternal`
with an action 4, and a later action 5 of 1. -/
theorem lifetimes_shutDown_twoParents :
    ShutsDown
      [Call.create [0], Call.add 1, Call.create [1, 0], Call.add 3,
        Call.add 1, Call.terminate 1]
      (Machine.run Heap.step Heap.initial
        [Call.create [0], Call.add 1, Call.create [1, 0], Call.add 3,
          Call.add 1, Call.terminate 1]) ∧
    (Machine.run Heap.step Heap.initial
        [Call.create [0], Call.add 1, Call.create [1, 0], Call.add 3,
          Call.add 1, Call.terminate 1]).log = [5, 4, 2] :=
  ⟨(lifetimes_shutDown
      [Call.create [0], Call.add 1, Call.create [1, 0], Call.add 3,
        Call.add 1, Call.terminate 1]
      ⟨by decide, by decide, by decide, by decide, by decide, by decide,
        trivial⟩).right _ (List.prefix_refl _),
    by decide⟩

end Plugin
end Franky
