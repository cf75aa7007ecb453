import Franky.Foundation.ArenaTree
import Franky.Foundation.PrefixTree
import Franky.Foundation.MachineInt
import Franky.Protocol

/-!
# The flame tree

The plugin merges the samples of a result into a tree of method ids.  Nodes are
created on the way and point to their parents; here they are numbered in the
order of their creation, and the root is node zero.
-/

namespace Franky
namespace Plugin

open Foundation
open Protocol

/-- `FlameNode`; the children are kept in the order of their creation. -/
structure FlameNode where
  methodId : Int64
  parent : Option Nat
  cost : Int32
  children : List (Int64 × Nat)
deriving DecidableEq, Repr

/-- `FlameTree`: the nodes created so far. -/
structure FlameTree where
  size : Nat
  node : Nat -> FlameNode

def FlameNode.root : FlameNode :=
  { methodId := 0, parent := none, cost := 0, children := [] }

def FlameTree.empty : FlameTree :=
  { size := 1, node := fun _ => FlameNode.root }

/-- `node.cost += coef`. -/
def FlameTree.addCost (t : FlameTree) (i : Nat) (coef : Int32) : FlameTree :=
  { t with
    node := Function.update t.node i
      { t.node i with cost := (t.node i).cost + coef } }

/-- `node.children.computeIfAbsent`, which creates the child where the node has
none for this method. -/
def FlameTree.computeIfAbsent (t : FlameTree) (i : Nat) (methodId : Int64) :
    Nat × FlameTree :=
  match (t.node i).children.lookup methodId with
  | some j => (j, t)
  | none =>
      let parent := t.node i
      let child : FlameNode :=
        { methodId := methodId, parent := some i, cost := 0, children := [] }
      (t.size,
        { size := t.size + 1
          node := Function.update
            (Function.update t.node i
              { parent with
                children := parent.children ++ [(methodId, t.size)] })
            t.size child })

/-- The loop of `addSampleToTree` over the frames, from node `i` on. -/
def FlameTree.addFrames (coef : Int32) :
    FlameTree -> Nat -> List CallFrame -> FlameTree
  | t, _, [] => t
  | t, i, frame :: frames =>
      let (j, t) := t.computeIfAbsent i frame.jMethodId
      FlameTree.addFrames coef (t.addCost j coef) j frames

def FlameTree.addSampleToTree (t : FlameTree) (sample : CallTraceSampleInfo) :
    FlameTree :=
  FlameTree.addFrames sample.callCount (t.addCost 0 sample.callCount) 0
    sample.frameList.reverse

/-- `IllegalArgumentException("Empty trace sample ..")`, which names the
sample. -/
structure IllegalArgument where
  emptyTraceSample : CallTraceSampleInfo
deriving DecidableEq, Repr

/-- `CallTraceSampleInfo.validate`. -/
def validate (sample : CallTraceSampleInfo) : Except IllegalArgument Unit :=
  if sample.frameList.isEmpty then throw { emptyTraceSample := sample }
  else pure ()

/-- The loop of the constructor over the samples. -/
def FlameTree.addSamples :
    FlameTree -> List CallTraceSampleInfo -> Except IllegalArgument FlameTree
  | t, [] => pure t
  | t, sample :: samples => do
      validate sample
      (t.addSampleToTree sample).addSamples samples

/-- The constructor of `FlameTree`. -/
def FlameTree.ofSamples (samples : List CallTraceSampleInfo) :
    Except IllegalArgument FlameTree :=
  FlameTree.empty.addSamples samples

/-!
## The tree seen from outside
-/

def FlameTree.shape (t : FlameTree) : ArenaTree Int64 where
  size := t.size
  label := fun i => (t.node i).methodId
  parent := fun i => (t.node i).parent
  child := fun i methodId => (t.node i).children.lookup methodId

/-- The node reached from the root by following children by method id. -/
def FlameTree.follow (t : FlameTree) (p : List Int64) : Option Nat :=
  t.shape.follow 0 p

/-- The cost of the node at a path, where there is one. -/
def FlameTree.costAt (t : FlameTree) : PrefixTree.Weights Int64 Int32 :=
  fun p => (t.follow p).map (fun i => (t.node i).cost)

/-- No node has two children for one method. -/
def FlameTree.KeysDistinct (t : FlameTree) : Prop :=
  forall i, ((t.node i).children.map Prod.fst).Nodup

/-- The nodes are numbered in the order of their creation and each is known by
its path. -/
structure FlameTree.WellFormed (t : FlameTree) : Prop where
  paths : exists path, t.shape.Paths path
  keys : t.KeysDistinct

@[simp] theorem addCost_shape (t : FlameTree) (i : Nat) (coef : Int32) :
    (t.addCost i coef).shape = t.shape := by
  have hnode : forall j, ((t.addCost i coef).node j).methodId =
        (t.node j).methodId ∧
      ((t.addCost i coef).node j).parent = (t.node j).parent ∧
      ((t.addCost i coef).node j).children = (t.node j).children := by
    intro j
    unfold FlameTree.addCost
    by_cases hj : j = i
    · subst hj
      simp
    · simp [Function.update_of_ne hj]
  simp only [FlameTree.shape, fun j => (hnode j).left,
    fun j => (hnode j).right.left, fun j => (hnode j).right.right]
  rfl

theorem computeIfAbsent_some {t : FlameTree} {i j : Nat} {methodId : Int64}
    (h : t.shape.child i methodId = some j) :
    t.computeIfAbsent i methodId = (j, t) := by
  have hlookup : (t.node i).children.lookup methodId = some j := h
  simp only [FlameTree.computeIfAbsent, hlookup]

theorem computeIfAbsent_none {t : FlameTree} {i : Nat} {methodId : Int64}
    (hi : i < t.size) (h : t.shape.child i methodId = none) :
    (t.computeIfAbsent i methodId).1 = t.size ∧
      (t.computeIfAbsent i methodId).2.shape = t.shape.grow i methodId ∧
      ((t.computeIfAbsent i methodId).2.node t.size).cost = 0 ∧
      forall j, j < t.size ->
        ((t.computeIfAbsent i methodId).2.node j).cost = (t.node j).cost := by
  have hlookup : (t.node i).children.lookup methodId = none := h
  have hne : i ≠ t.size := Nat.ne_of_lt hi
  simp only [FlameTree.computeIfAbsent, hlookup]
  refine ⟨trivial, ?_, by simp, ?_⟩
  · unfold FlameTree.shape ArenaTree.grow
    congr 1
    · funext j
      by_cases hnew : j = t.size
      · simp [hnew]
      · by_cases hj : j = i <;> simp [hnew, hj, hne]
    · funext j
      by_cases hnew : j = t.size
      · simp [hnew]
      · by_cases hj : j = i <;> simp [hnew, hj, hne]
    · funext j m
      by_cases hnew : j = t.size
      · simp [hnew]
      · by_cases hj : j = i
        · subst hj
          by_cases hm : m = methodId
          · subst hm
            simp [hne, List.lookup_append, hlookup]
          · simp [hne, List.lookup_append, List.lookup_cons, hm,
              beq_eq_false_iff_ne.mpr hm]
        · simp [hnew, hj]
  · intro j hj
    by_cases hji : j = i <;> simp [Nat.ne_of_lt hj, hji, hne]

theorem lookup_of_mem {children : List (Int64 × Nat)}
    (hkeys : (children.map Prod.fst).Nodup) {methodId : Int64} {j : Nat}
    (h : (methodId, j) ∈ children) : children.lookup methodId = some j := by
  induction children with
  | nil => cases h
  | cons child children ih =>
      rcases List.nodup_cons.mp hkeys with ⟨hnew, hrest⟩
      rcases List.mem_cons.mp h with rfl | h
      · exact List.lookup_cons_self
      · have hne : (methodId == child.1) = false := by
          rw [beq_eq_false_iff_ne]
          intro hsame
          rw [← hsame] at hnew
          exact hnew (List.mem_map_of_mem (f := Prod.fst) h)
        rw [List.lookup_cons, hne]
        exact ih hrest h

theorem mem_of_lookup {children : List (Int64 × Nat)} {methodId : Int64}
    {j : Nat} (h : children.lookup methodId = some j) :
    (methodId, j) ∈ children := by
  rcases List.lookup_eq_some_iff.mp h with ⟨before, after, rfl, _⟩
  exact List.mem_append_right before List.mem_cons_self

theorem FlameTree.KeysDistinct.addCost {t : FlameTree} (h : t.KeysDistinct)
    (i : Nat) (coef : Int32) : (t.addCost i coef).KeysDistinct := by
  exact (Function.forall_update_iff t.node
    (fun _ (node : FlameNode) => (node.children.map Prod.fst).Nodup)).mpr
    ⟨h i, fun j _ => h j⟩

theorem FlameTree.KeysDistinct.computeIfAbsent {t : FlameTree}
    (h : t.KeysDistinct) (i : Nat) (methodId : Int64) :
    (t.computeIfAbsent i methodId).2.KeysDistinct := by
  unfold FlameTree.computeIfAbsent
  cases hlookup : (t.node i).children.lookup methodId with
  | some j => exact h
  | none =>
      refine (Function.forall_update_iff _
        (fun _ (node : FlameNode) => (node.children.map Prod.fst).Nodup)).mpr
        ⟨List.nodup_nil, ?_⟩
      intro j _
      refine (Function.forall_update_iff t.node
        (fun _ (node : FlameNode) => (node.children.map Prod.fst).Nodup)).mpr
        ⟨?_, fun j _ => h j⟩ j
      have hnew : methodId ∉ (t.node i).children.map Prod.fst := by
        intro hmem
        rcases List.mem_map.mp hmem with ⟨child, hchild, heq⟩
        have hne := List.lookup_eq_none_iff.mp hlookup child hchild
        simp [heq] at hne
      dsimp only
      rw [List.map_append, List.map_singleton, ← List.concat_eq_append]
      exact (h i).concat hnew

/-!
## Adding a sample
-/

variable {t : FlameTree} {path : Nat -> List Int64}

theorem addCost_costAt (h : t.shape.Paths path) {i : Nat} (hi : i < t.size)
    (coef : Int32) :
    (t.addCost i coef).costAt = PrefixTree.bump coef t.costAt (path i) := by
  funext p
  unfold FlameTree.costAt FlameTree.follow
  rw [addCost_shape]
  by_cases hp : p = path i
  · have hfollow : t.shape.follow 0 (path i) = some i := h.follow_path hi rfl
    rw [hp, PrefixTree.bump_self]
    simp [hfollow, FlameTree.addCost]
  · rw [PrefixTree.bump_of_ne _ _ hp]
    cases hfollow : t.shape.follow 0 p with
    | none => rfl
    | some j =>
        have hne : j ≠ i := by
          intro hsame
          rw [hsame] at hfollow
          exact hp (h.follow_root_iff.mp hfollow).right.symm
        simp [FlameTree.addCost, Function.update_of_ne hne]

/-- One round of the loop: the child for the frame is there afterwards, and its
cost is the old one, or zero, plus the count. -/
theorem computeIfAbsent_addCost (h : t.shape.Paths path) {i : Nat}
    (hi : i < t.size) (methodId : Int64) (coef : Int32) :
    exists path',
      ((t.computeIfAbsent i methodId).2.addCost
        (t.computeIfAbsent i methodId).1 coef).shape.Paths path' ∧
      (t.computeIfAbsent i methodId).1 <
        (t.computeIfAbsent i methodId).2.size ∧
      path' (t.computeIfAbsent i methodId).1 = path i ++ [methodId] ∧
      ((t.computeIfAbsent i methodId).2.addCost
        (t.computeIfAbsent i methodId).1 coef).costAt =
          PrefixTree.bump coef t.costAt (path i ++ [methodId]) := by
  cases hchild : t.shape.child i methodId with
  | some j =>
      rcases h.child_path i methodId j hi hchild with ⟨hj, hpath⟩
      rw [computeIfAbsent_some hchild]
      refine ⟨path, ?_, hj, hpath, ?_⟩
      · rw [addCost_shape]
        exact h
      · rw [addCost_costAt h hj, hpath]
  | none =>
      rcases computeIfAbsent_none hi hchild with ⟨hfst, hshape, hnew, hold⟩
      have hgrow := h.grow hi hchild
      have hpaths : (t.computeIfAbsent i methodId).2.shape.Paths
          (Function.update path t.size (path i ++ [methodId])) := by
        rw [hshape]
        exact hgrow
      have hsize : t.size < (t.computeIfAbsent i methodId).2.size := by
        change t.size < (t.computeIfAbsent i methodId).2.shape.size
        rw [hshape]
        exact Nat.lt_succ_self t.size
      refine ⟨Function.update path t.size (path i ++ [methodId]), ?_⟩
      rw [addCost_shape, hfst]
      refine ⟨hpaths, hsize, Function.update_self _ _ _, ?_⟩
      rw [addCost_costAt hpaths hsize, Function.update_self]
      -- the new node counts as zero, like a missing one
      funext p
      have hfollow := h.follow_grow hi hchild p
      by_cases hp : p = path i ++ [methodId]
      · have habsent : t.shape.follow 0 p = none := by
          rw [hp, ArenaTree.follow_concat, h.follow_path hi rfl]
          exact hchild
        rw [if_pos hp, ← hshape] at hfollow
        rw [← hp, PrefixTree.bump_self, PrefixTree.bump_self]
        simp [FlameTree.costAt, FlameTree.follow, hfollow, habsent]
        exact hnew
      · rw [if_neg hp, ← hshape] at hfollow
        rw [PrefixTree.bump_of_ne _ _ hp, PrefixTree.bump_of_ne _ _ hp]
        unfold FlameTree.costAt FlameTree.follow
        rw [hfollow]
        cases hj : t.shape.follow 0 p with
        | none => rfl
        | some j =>
            have hlt := (h.follow_root_iff.mp hj).left
            exact congrArg some (hold j hlt)

theorem addFrames_spec (h : t.shape.Paths path) (hkeys : t.KeysDistinct)
    {i : Nat} (hi : i < t.size) (coef : Int32) (frames : List CallFrame) :
    (FlameTree.addFrames coef t i frames).WellFormed ∧
      (FlameTree.addFrames coef t i frames).costAt =
        PrefixTree.bumpAlong coef t.costAt (path i)
          (frames.map CallFrame.jMethodId) := by
  induction frames generalizing t path i with
  | nil => exact ⟨⟨⟨path, h⟩, hkeys⟩, rfl⟩
  | cons frame frames ih =>
      rcases computeIfAbsent_addCost h hi frame.jMethodId coef with
        ⟨path', hpaths, hlt, hpath, hcost⟩
      have hkeys' := (hkeys.computeIfAbsent i frame.jMethodId).addCost
        (t.computeIfAbsent i frame.jMethodId).1 coef
      rcases ih hpaths hkeys' hlt with ⟨hwell, hrest⟩
      refine ⟨hwell, ?_⟩
      rw [hpath, hcost] at hrest
      exact hrest

theorem addSampleToTree_spec (h : t.WellFormed)
    (sample : CallTraceSampleInfo) :
    (t.addSampleToTree sample).WellFormed ∧
      (t.addSampleToTree sample).costAt =
        PrefixTree.bumpAlong sample.callCount
          (PrefixTree.bump sample.callCount t.costAt []) [] sample.path := by
  rcases h with ⟨⟨path, h⟩, hkeys⟩
  have hpaths : (t.addCost 0 sample.callCount).shape.Paths path := by
    rw [addCost_shape]
    exact h
  have hframes := addFrames_spec hpaths (hkeys.addCost 0 sample.callCount)
    h.root_lt sample.callCount sample.frameList.reverse
  rw [addCost_costAt h h.root_lt, h.root_path] at hframes
  exact hframes

/-!
## The whole construction
-/

/-- The samples as stacks of method ids with their counts. -/
def weighted (samples : List CallTraceSampleInfo) : List (List Int64 × Int32) :=
  samples.map (fun sample => (sample.path, sample.callCount))

theorem weighted_concat (samples : List CallTraceSampleInfo)
    (sample : CallTraceSampleInfo) :
    weighted (samples ++ [sample]) =
      weighted samples ++ [(sample.path, sample.callCount)] := by
  simp [weighted]

theorem empty_wellFormed : FlameTree.empty.WellFormed := by
  refine ⟨⟨fun _ => [], ?_⟩, fun _ => List.nodup_nil⟩
  constructor
  · exact Nat.one_pos
  · rfl
  · rfl
  · intro i j hi hj _
    rw [Nat.lt_one_iff.mp hi, Nat.lt_one_iff.mp hj]
  · intro i m j _ hchild
    cases hchild
  · intro j hj hne
    exact absurd (Nat.lt_one_iff.mp hj) hne

theorem empty_costAt :
    FlameTree.empty.costAt = PrefixTree.ofSamples (weighted []) := by
  rw [weighted, List.map_nil, PrefixTree.ofSamples_nil]
  funext p
  cases p with
  | nil => rfl
  | cons m p => rfl

theorem addSamples_spec (h : t.WellFormed)
    {before : List CallTraceSampleInfo}
    (hcost : t.costAt = PrefixTree.ofSamples (weighted before))
    {samples : List CallTraceSampleInfo}
    (hframes : forall sample, sample ∈ samples -> sample.frameList ≠ []) :
    exists t', t.addSamples samples = Except.ok t' ∧ t'.WellFormed ∧
      t'.costAt = PrefixTree.ofSamples (weighted (before ++ samples)) := by
  induction samples generalizing t before with
  | nil =>
      rw [List.append_nil]
      exact ⟨t, rfl, h, hcost⟩
  | cons sample samples ih =>
      have hvalid : validate sample = Except.ok () := by
        have hne := hframes sample List.mem_cons_self
        simp [validate, hne]
        rfl
      rcases addSampleToTree_spec h sample with ⟨hwell, hadd⟩
      rw [hcost, ← PrefixTree.ofSamples_concat, ← weighted_concat] at hadd
      rcases ih hwell hadd
          (fun s hs => hframes s (List.mem_cons_of_mem sample hs)) with
        ⟨t', hok, hwell', hcost'⟩
      refine ⟨t', ?_, hwell', ?_⟩
      · simp only [FlameTree.addSamples, hvalid]
        exact hok
      · rw [hcost', List.append_assoc]
        rfl

/-- The tree of samples that all have frames is the prefix tree of their
stacks. -/
theorem ofSamples_spec {samples : List CallTraceSampleInfo}
    (hframes : forall sample, sample ∈ samples -> sample.frameList ≠ []) :
    exists t, FlameTree.ofSamples samples = Except.ok t ∧ t.WellFormed ∧
      t.costAt = PrefixTree.ofSamples (weighted samples) :=
  addSamples_spec empty_wellFormed empty_costAt hframes

theorem addSamples_error {samples : List CallTraceSampleInfo}
    (h : exists sample, sample ∈ samples ∧ sample.frameList = [])
    (t : FlameTree) :
    exists thrown, t.addSamples samples = Except.error thrown := by
  induction samples generalizing t with
  | nil =>
      rcases h with ⟨_, hmem, _⟩
      cases hmem
  | cons sample samples ih =>
      by_cases hempty : sample.frameList = []
      · refine ⟨{ emptyTraceSample := sample }, ?_⟩
        simp [FlameTree.addSamples, validate, hempty]
        rfl
      · have hrest : exists s, s ∈ samples ∧ s.frameList = [] := by
          rcases h with ⟨s, hmem, hs⟩
          rcases List.mem_cons.mp hmem with rfl | hmem
          · exact absurd hs hempty
          · exact ⟨s, hmem, hs⟩
        rcases ih hrest (t.addSampleToTree sample) with ⟨thrown, herror⟩
        refine ⟨thrown, ?_⟩
        simp [FlameTree.addSamples, validate, hempty]
        exact herror

theorem frames_of_ofSamples {samples : List CallTraceSampleInfo}
    (h : FlameTree.ofSamples samples = Except.ok t) :
    forall sample, sample ∈ samples -> sample.frameList ≠ [] := by
  intro sample hmem hempty
  rcases addSamples_error ⟨sample, hmem, hempty⟩ FlameTree.empty with
    ⟨thrown, herror⟩
  rw [FlameTree.ofSamples, herror] at h
  cases h

/-!
## What the tree says about the samples
-/

/-- The samples whose stack, read from its outermost frame, begins with `p`. -/
def samplesThrough (samples : List CallTraceSampleInfo) (p : List Int64) :
    List CallTraceSampleInfo :=
  samples.filter (fun sample => decide (p <+: sample.path))

def totalCount (samples : List CallTraceSampleInfo) : Int :=
  (samples.map (fun sample => sample.callCount.toInt)).sum

/-- The tree merges the samples: a node at every prefix of their stacks, known
by its last method and its ancestors, and counting the samples through it. -/
structure FlameTree.Merges (t : FlameTree)
    (samples : List CallTraceSampleInfo) : Prop where
  reached : forall p, p ≠ [] ->
    ((exists i, t.follow p = some i) <->
      exists sample, sample ∈ samples ∧ p <+: sample.path)
  methodId : forall p i (hp : p ≠ []), t.follow p = some i ->
    (t.node i).methodId = p.getLast hp
  ancestors : forall p i, t.follow p = some i -> t.shape.SpellsUp i p
  cost : forall p i, p ≠ [] -> t.follow p = some i ->
    (t.node i).cost = Int32.ofInt (totalCount (samplesThrough samples p))
  rootCost : (t.node 0).cost = Int32.ofInt (totalCount samples)

/-- No count is negative and their total fits in an `Int`. -/
structure CountsFit (samples : List CallTraceSampleInfo) : Prop where
  nonneg : forall sample, sample ∈ samples -> 0 ≤ sample.callCount.toInt
  total : totalCount samples < 2 ^ 31

/-- The costs are the totals, as integers. -/
structure FlameTree.CostsExact (t : FlameTree)
    (samples : List CallTraceSampleInfo) : Prop where
  cost : forall p i, t.follow p = some i ->
    (t.node i).cost.toInt = totalCount (samplesThrough samples p)
  rootCost : (t.node 0).cost.toInt = totalCount samples

theorem samplesThrough_nil (samples : List CallTraceSampleInfo) :
    samplesThrough samples [] = samples := by
  simp [samplesThrough]

theorem weightAt_weighted (samples : List CallTraceSampleInfo)
    (p : List Int64) :
    PrefixTree.weightAt (weighted samples) p =
      Int32.ofInt (totalCount (samplesThrough samples p)) := by
  have hthrough : PrefixTree.through (weighted samples) p =
      weighted (samplesThrough samples p) := by
    unfold PrefixTree.through weighted samplesThrough
    rw [List.filter_map]
    rfl
  unfold PrefixTree.weightAt totalCount
  rw [hthrough, weighted, List.map_map]
  exact MachineInt.sum_eq_ofInt CallTraceSampleInfo.callCount _

theorem FlameTree.WellFormed.merges (h : t.WellFormed)
    {samples : List CallTraceSampleInfo}
    (hcost : t.costAt = PrefixTree.ofSamples (weighted samples)) :
    t.Merges samples := by
  rcases h.paths with ⟨path, h⟩
  have hnode : forall p i, t.follow p = some i ->
      (t.node i).cost = Int32.ofInt (totalCount (samplesThrough samples p)) := by
    intro p i hfollow
    have hat : t.costAt p = some (t.node i).cost := by
      simp [FlameTree.costAt, hfollow]
    rw [← weightAt_weighted, ← PrefixTree.ofSamples_getD, ← hcost, hat]
    rfl
  constructor
  · intro p hp
    have hsome : (exists i, t.follow p = some i) <-> t.costAt p ≠ none := by
      simp [FlameTree.costAt, Option.ne_none_iff_exists']
    rw [hsome, hcost, PrefixTree.ofSamples_ne_none_iff hp]
    simp [weighted]
  · intro p i hp hfollow
    rcases h.follow_root_iff.mp hfollow with ⟨hi, hpath⟩
    exact h.label_eq_getLast hi hpath hp
  · intro p i hfollow
    rcases h.follow_root_iff.mp hfollow with ⟨hi, hpath⟩
    rw [← hpath]
    exact h.spellsUp hi
  · intro p i _ hfollow
    exact hnode p i hfollow
  · rw [hnode [] 0 rfl, samplesThrough_nil]

theorem totalCount_nonneg {samples : List CallTraceSampleInfo}
    (h : forall sample, sample ∈ samples -> 0 ≤ sample.callCount.toInt) :
    0 ≤ totalCount samples := by
  apply List.sum_nonneg
  intro x hx
  rcases List.mem_map.mp hx with ⟨sample, hmem, rfl⟩
  exact h sample hmem

theorem totalCount_through_le {samples : List CallTraceSampleInfo}
    (h : forall sample, sample ∈ samples -> 0 ≤ sample.callCount.toInt)
    (p : List Int64) :
    totalCount (samplesThrough samples p) ≤ totalCount samples := by
  unfold totalCount
  apply List.Sublist.sum_le_sum
  · exact List.filter_sublist.map _
  · intro x hx
    rcases List.mem_map.mp hx with ⟨sample, hmem, rfl⟩
    exact h sample hmem

theorem CountsFit.toInt_totalCount {samples : List CallTraceSampleInfo}
    (h : CountsFit samples) (p : List Int64) :
    (Int32.ofInt (totalCount (samplesThrough samples p))).toInt =
      totalCount (samplesThrough samples p) := by
  have hle := totalCount_through_le h.nonneg p
  have hnonneg : 0 ≤ totalCount (samplesThrough samples p) := by
    apply totalCount_nonneg
    intro sample hmem
    exact h.nonneg sample (List.mem_of_mem_filter hmem)
  have htotal := h.total
  rw [MachineInt.toInt_ofInt_of_bounds] <;> lia

theorem FlameTree.Merges.costsExact {samples : List CallTraceSampleInfo}
    (h : t.Merges samples) (hfit : CountsFit samples) :
    t.CostsExact samples := by
  have hroot : (t.node 0).cost.toInt = totalCount samples := by
    rw [h.rootCost, ← samplesThrough_nil samples, hfit.toInt_totalCount]
  constructor
  · intro p i hfollow
    cases p with
    | nil =>
        cases hfollow
        rw [hroot, samplesThrough_nil]
    | cons m p =>
        rw [h.cost (m :: p) i (List.cons_ne_nil m p) hfollow,
          hfit.toInt_totalCount]
  · exact hroot

theorem FlameTree.CostsExact.cost_pos {samples : List CallTraceSampleInfo}
    (h : t.CostsExact samples) (hmerges : t.Merges samples)
    (hne : samples ≠ [])
    (hcounts : forall sample, sample ∈ samples -> 0 < sample.callCount.toInt)
    {p : List Int64} {i : Nat} (hfollow : t.follow p = some i) :
    0 < (t.node i).cost.toInt := by
  have hthrough : samplesThrough samples p ≠ [] := by
    cases p with
    | nil =>
        rw [samplesThrough_nil]
        exact hne
    | cons m p =>
        rcases (hmerges.reached _ (List.cons_ne_nil m p)).mp ⟨i, hfollow⟩ with
          ⟨sample, hmem, hpre⟩
        exact List.ne_nil_of_mem
          (List.mem_filter.mpr ⟨hmem, decide_eq_true hpre⟩)
  rw [h.cost p i hfollow]
  apply List.sum_pos
  · intro x hx
    rcases List.mem_map.mp hx with ⟨sample, hmem, rfl⟩
    exact hcounts sample (List.mem_of_mem_filter hmem)
  · simpa using hthrough

theorem FlameTree.CostsExact.sum_children_le
    {samples : List CallTraceSampleInfo} (h : t.CostsExact samples)
    (hcounts : forall sample, sample ∈ samples -> 0 ≤ sample.callCount.toInt)
    (hpaths : t.shape.Paths path) (hkeys : t.KeysDistinct) {i : Nat}
    (hi : i < t.size) :
    ((t.node i).children.map (fun child => (t.node child.2).cost.toInt)).sum ≤
      (t.node i).cost.toInt := by
  let counted := samples.map
    (fun sample => (sample.path, sample.callCount.toInt))
  have hweight : forall p,
      totalCount (samplesThrough samples p) = PrefixTree.weightAt counted p := by
    intro p
    unfold totalCount samplesThrough PrefixTree.weightAt PrefixTree.through
    rw [List.filter_map, List.map_map]
    rfl
  have hchild : forall child, child ∈ (t.node i).children ->
      (t.node child.2).cost.toInt =
        PrefixTree.weightAt counted (path i ++ [child.1]) := by
    intro child hmem
    have hm : t.shape.child i child.1 = some child.2 :=
      lookup_of_mem (hkeys i) hmem
    rcases hpaths.child_path i child.1 child.2 hi hm with ⟨hlt, hpath⟩
    rw [← hweight, h.cost _ child.2 (hpaths.follow_path hlt hpath)]
  have hnonneg : forall s, s ∈ counted -> 0 ≤ s.2 := by
    simpa [counted] using hcounts
  have hsum := PrefixTree.sum_weightAt_children_le hnonneg (path i) (hkeys i)
  rw [List.map_map] at hsum
  rw [List.map_congr_left hchild, h.cost _ i (hpaths.follow_path hi rfl),
    hweight]
  exact hsum

/-- The constructor merges samples that all have frames, and throws when one of
them has none.  The tree depends only on the stacks and their total counts. -/
theorem flameTree_isPrefixTree (samples : List CallTraceSampleInfo) :
    ((forall sample, sample ∈ samples -> sample.frameList ≠ []) ->
      exists t, FlameTree.ofSamples samples = Except.ok t ∧
        t.Merges samples ∧ (CountsFit samples -> t.CostsExact samples) ∧
        forall samples' t', FlameTree.ofSamples samples' = Except.ok t' ->
          PrefixTree.SameStacks (weighted samples) (weighted samples') ->
            t'.costAt = t.costAt) ∧
    ((exists sample, sample ∈ samples ∧ sample.frameList = []) ->
      exists thrown, FlameTree.ofSamples samples = Except.error thrown) := by
  constructor
  · intro hframes
    rcases ofSamples_spec hframes with ⟨t, hok, hwell, hcost⟩
    have hmerges := hwell.merges hcost
    refine ⟨t, hok, hmerges, hmerges.costsExact, ?_⟩
    intro samples' t' hok' hsame
    rcases ofSamples_spec (frames_of_ofSamples hok') with
      ⟨t₂, hok₂, _, hcost'⟩
    rw [hok₂] at hok'
    cases hok'
    rw [hcost', hcost, hsame.ofSamples_eq]
  · intro hempty
    exact addSamples_error hempty FlameTree.empty

end Plugin
end Franky
