import Franky.Agent.Overflow
import Franky.EndToEnd.FullTables

/-!
# Hot methods and the flame graph

The result of a run lists the methods that were at the top of a stack, and it
lists the stacks.  The two lists tell the same story: the count of a method is
what the flame graph shows at its nodes and at none of their children.
-/

namespace Franky
namespace EndToEnd

open Foundation
open Foundation.Sorting
open Protocol
open Agent
open Plugin

/-- What a node costs beyond its children. -/
def selfCost (t : FlameTree) (i : Nat) : Int :=
  (t.node i).cost.toInt -
    ((t.node i).children.map
      (fun child => (t.node child.2).cost.toInt)).sum

/-- The nodes below the root that stand for a method. -/
def nodesOf (t : FlameTree) (id : Int64) : Finset Nat :=
  (Finset.range t.size).filter
    (fun i => i ≠ 0 ∧ (t.node i).methodId = id)

/-- The methods of the result are those at the top of the stacks, each listed
once and counted as often as it was there, and as the flame tree counts it. -/
structure HotMethodsAgree (info : ProfilingInfo) (t : FlameTree)
    (traces : List AsgctCallTrace) : Prop where
  listed : forall id, id ∈ info.methods.map MethodSampleInfo.jMethodId <->
    exists trace, trace ∈ traces ∧ jMethodIdToId trace.topMethod = id
  distinct : (info.methods.map MethodSampleInfo.jMethodId).Nodup
  samples : forall entry, entry ∈ info.methods ->
    entry.callCount.toInt = traces.countP (fun trace =>
      decide (jMethodIdToId trace.topMethod = entry.jMethodId))
  tree : forall entry, entry ∈ info.methods ->
    entry.callCount.toInt = ∑ i ∈ nodesOf t entry.jMethodId, selfCost t i

/-!
## What ends at a node
-/

section Tree

variable {t : FlameTree} {traces : List AsgctCallTrace}
  {path : Nat -> List Int64}

def stackSamples (traces : List AsgctCallTrace) : List (List Int64 × Int) :=
  traces.map (fun trace => (stackOf trace, 1))

theorem weightAt_stackSamples (traces : List AsgctCallTrace) (q : List Int64) :
    PrefixTree.weightAt (stackSamples traces) q =
      traces.countP (fun trace => decide (q <+: stackOf trace)) := by
  induction traces with
  | nil => rfl
  | cons trace traces ih =>
      rw [stackSamples, List.map_cons, PrefixTree.weightAt_cons, List.countP_cons]
      change _ + PrefixTree.weightAt (stackSamples traces) q = _
      rw [ih]
      by_cases h : q <+: stackOf trace <;> simp [h, Int.add_comm]

theorem CountsStacks.cost_eq (h : CountsStacks t traces)
    (hpaths : t.shape.Paths path) {i : Nat} (hi : i < t.size) :
    (t.node i).cost.toInt = PrefixTree.weightAt (stackSamples traces) (path i) := by
  rw [weightAt_stackSamples]
  by_cases hnil : path i = []
  · have hzero : i = 0 := hpaths.injective i 0 hi hpaths.root_lt (by
      rw [hnil, hpaths.root_path])
    rw [hnil, hzero, h.rootCost]
    simp
  · exact h.cost (path i) i hnil (hpaths.follow_path hi rfl)

theorem CountsStacks.selfCost_eq (h : CountsStacks t traces)
    (hpaths : t.shape.Paths path) (hkeys : t.KeysDistinct) {i : Nat}
    (hi : i < t.size) :
    selfCost t i = PrefixTree.exactWeight (stackSamples traces) (path i) := by
  have hchild : forall child, child ∈ (t.node i).children ->
      (t.node child.2).cost.toInt =
        PrefixTree.weightAt (stackSamples traces) (path i ++ [child.1]) := by
    intro child hmem
    have hm : t.shape.child i child.1 = some child.2 :=
      lookup_of_mem (hkeys i) hmem
    rcases hpaths.child_path i child.1 child.2 hi hm with ⟨hlt, hpath⟩
    rw [h.cost_eq hpaths hlt, hpath]
  have hcover : forall s, s ∈ stackSamples traces -> forall m,
      path i ++ [m] <+: s.1 -> m ∈ (t.node i).children.map Prod.fst := by
    intro s hs m hm
    rcases List.mem_map.mp hs with ⟨trace, ht, rfl⟩
    rcases (h.node _ (List.concat_ne_nil m (path i))).mpr ⟨trace, ht, hm⟩ with
      ⟨j, hj⟩
    rw [FlameTree.follow, ArenaTree.follow_concat,
      hpaths.follow_path hi rfl] at hj
    exact List.mem_map_of_mem (f := Prod.fst) (mem_of_lookup hj)
  have hsplit := PrefixTree.weightAt_eq_exactWeight_add (stackSamples traces)
    (path i) (hkeys i) hcover
  rw [List.map_map] at hsplit
  unfold selfCost
  rw [h.cost_eq hpaths hi, List.map_congr_left hchild, hsplit]
  exact Int.add_sub_cancel _ _

/-- At the nodes of a method end the stacks with this method at the top. -/
theorem CountsStacks.sum_selfCost (h : CountsStacks t traces)
    (hpaths : t.shape.Paths path) (hkeys : t.KeysDistinct)
    (hframes : forall trace, trace ∈ traces -> stackOf trace ≠ [])
    (id : Int64) :
    (∑ i ∈ nodesOf t id, selfCost t i) =
      traces.countP (fun trace =>
        decide ((stackOf trace).getLast? = some id)) := by
  have hrange : forall i, i ∈ nodesOf t id ->
      i < t.size ∧ i ≠ 0 ∧ (t.node i).methodId = id := by
    intro i hi
    rcases Finset.mem_filter.mp hi with ⟨hlt, hne, hid⟩
    exact ⟨Finset.mem_range.mp hlt, hne, hid⟩
  have hself : (∑ i ∈ nodesOf t id, selfCost t i) =
      ∑ i ∈ nodesOf t id, PrefixTree.exactWeight (stackSamples traces) (path i) :=
    Finset.sum_congr rfl
      (fun i hi => h.selfCost_eq hpaths hkeys (hrange i hi).left)
  have hinj : Set.InjOn path (nodesOf t id) := by
    intro i hi j hj hsame
    exact hpaths.injective i j (hrange i hi).left (hrange j hj).left hsame
  have hends := PrefixTree.sum_exactWeight (nodesOf t id) path hinj
    (stackSamples traces) (fun q => q.getLast? = some id) (by
      intro s hs
      rcases List.mem_map.mp hs with ⟨trace, ht, rfl⟩
      dsimp only
      constructor
      · intro hlast
        rcases (h.node _ (hframes trace ht)).mpr
            ⟨trace, ht, List.prefix_refl _⟩ with ⟨i, hfollow⟩
        rcases hpaths.path_of_follow hpaths.root_lt hfollow with ⟨hi, hpath⟩
        rw [hpaths.root_path, List.nil_append] at hpath
        have hne : i ≠ 0 := by
          intro hzero
          rw [hzero, hpaths.root_path] at hpath
          exact hframes trace ht hpath.symm
        have hid : (t.node i).methodId = id := by
          have hlabel := hpaths.label_eq_getLast hi hpath (hframes trace ht)
          rw [List.getLast?_eq_getLast_of_ne_nil (hframes trace ht)] at hlast
          exact hlabel.trans (Option.some.inj hlast)
        exact ⟨i, Finset.mem_filter.mpr ⟨Finset.mem_range.mpr hi, hne, hid⟩,
          hpath⟩
      · intro hnode
        rcases hnode with ⟨i, hi, hpath⟩
        rcases hrange i hi with ⟨hlt, _, hid⟩
        have hlabel := hpaths.label_eq_getLast hlt hpath (hframes trace ht)
        rw [List.getLast?_eq_getLast_of_ne_nil (hframes trace ht), ← hlabel]
        exact congrArg some hid)
  rw [hself, hends, stackSamples, List.filter_map, List.map_map,
    List.countP_eq_length_filter]
  simp [Function.comp_def]

end Tree

/-!
## The method table of a run
-/

theorem head?_frameList {trace : AsgctCallTrace} (h : 0 < trace.numFrames) :
    trace.frameList.head? = some (trace.frames 0) := by
  have hpos : 0 < trace.numFrames.toInt := MachineInt.pos_iff.mp h
  have hlt : 0 < trace.frameList.length := by
    rw [length_frameList]
    lia
  rw [List.head?_eq_getElem?, List.getElem?_eq_getElem hlt,
    getElem_frameList trace hlt (by decide)]
  rfl

theorem getLast?_stackOf {trace : AsgctCallTrace} (h : 0 < trace.numFrames) :
    (stackOf trace).getLast? = some (jMethodIdToId trace.topMethod) := by
  rw [stackOf, List.getLast?_map, List.getLast?_reverse, head?_frameList h]
  rfl

section Methods

variable {p : Profiler} {methods : List JMethodId}

theorem countsMethods_recordSample (h : p.CountsMethods methods)
    (hlength : methods.length + 1 < 2 ^ 31) {known : Finset JMethodId}
    (hcard : known.card ≤ maxCalltraces) (hnull : 0 ∉ known)
    (hknown : forall m, m ∈ methods -> m ∈ known)
    {outcome : Option AsgctCallTrace}
    (hmem : forall t, t ∈ javaTraces [outcome] -> t.topMethod ∈ known) :
    (p.recordSample outcome).CountsMethods
      (methods ++ (javaTraces [outcome]).map AsgctCallTrace.topMethod) := by
  cases hjava : isJavaSample outcome with
  | false =>
      rcases recordSample_other_tables (p := p) hjava with ⟨_, _, hmethods⟩
      rw [javaTraces_other hjava, List.map_nil, List.append_nil]
      unfold Profiler.CountsMethods Profiler.methodKey Profiler.methodCount
      rw [hmethods]
      exact h
  | true =>
      cases outcome with
      | none => cases hjava
      | some trace =>
          have hframes : 0 < trace.numFrames := of_decide_eq_true hjava
          have hstored : (p.countCall.storeCallTrace trace).CountsMethods
              methods := by
            unfold Profiler.CountsMethods Profiler.methodKey
              Profiler.methodCount
            rw [storeCallTrace_methods]
            exact h
          rw [javaTraces_java hframes] at hmem ⊢
          rw [recordSample_java hframes]
          exact hstored.storeMethod hlength hcard hnull hknown
            (hmem trace List.mem_cons_self)

/-- A start, the samples of a run and a stop leave a table that counts the top
methods of the run. -/
theorem profiledRun_countsMethods {a : Process}
    (hstopped : a.profiler.running = false) (interval : Int64)
    {outcomes : List (Option AsgctCallTrace)}
    (hlength : outcomes.length < 2 ^ 31)
    (h : Distinguishable (javaTraces outcomes)) :
    (profiledRun a interval outcomes).profiler.CountsMethods
      ((javaTraces outcomes).map AsgctCallTrace.topMethod) := by
  let known := ((javaTraces outcomes).map AsgctCallTrace.topMethod).toFinset
  have hmem : forall t, t ∈ javaTraces outcomes -> t.topMethod ∈ known :=
    fun t ht => List.mem_toFinset.mpr (List.mem_map_of_mem ht)
  have hnull : 0 ∉ known := by
    intro hzero
    rcases List.mem_map.mp (List.mem_toFinset.mp hzero) with ⟨t, ht, htop⟩
    exact h.named t ht _ (frame_zero_mem (mem_javaTraces.mp ht).right) htop
  have hcard : known.card ≤ maxCalltraces := by
    refine le_trans ?_ h.few
    apply Finset.card_le_card_of_surjOn
      (fun frames => (frames.head?.map AsgctCallFrame.methodId).getD 0)
    intro method hmethod
    rcases List.mem_map.mp (List.mem_toFinset.mp hmethod) with ⟨t, ht, rfl⟩
    refine ⟨t.frameList, List.mem_toFinset.mpr (List.mem_map_of_mem ht), ?_⟩
    dsimp only
    rw [head?_frameList (mem_javaTraces.mp ht).right]
    rfl
  rw [profiledRun_profiler, start_of_stopped hstopped]
  apply Machine.run_history (fun taken (q : Profiler) => q.CountsMethods
    ((javaTraces taken).map AsgctCallTrace.topMethod)) (clear_countsMethods _)
  intro taken outcome hbegin hcounts
  have hshort := length_javaTraces_le taken
  have hle := hbegin.length_le
  rw [List.length_append, List.length_singleton] at hle
  rcases hbegin with ⟨rest, rfl⟩
  rw [javaTraces_append, List.map_append]
  apply countsMethods_recordSample hcounts (by rw [List.length_map]; lia)
    hcard hnull
  · intro m hm
    rcases List.mem_map.mp hm with ⟨t, ht, rfl⟩
    apply hmem t
    rw [List.append_assoc, javaTraces_append]
    exact List.mem_append_left _ ht
  · intro t ht
    apply hmem t
    rw [javaTraces_append, javaTraces_append]
    exact List.mem_append_left _ (List.mem_append_right _ ht)

theorem countsMethods_slot (h : p.CountsMethods methods)
    {i : Fin maxCalltraces} (hpos : 0 < (p.methods i).callCount.toInt) :
    (p.methods i).method ∈ methods ∧
      (p.methods i).callCount.toInt = methods.count (p.methods i).method := by
  rcases Option.ne_none_iff_exists'.mp
    ((LinearProbing.Tallies.counts_pos_iff h i).mp hpos) with ⟨method, hkey⟩
  rw [(methodKey_eq_some_iff.mp hkey).left]
  exact ⟨LinearProbing.Tallies.recorded h i method hkey,
    LinearProbing.Tallies.tally h i method hkey⟩

theorem countsMethods_distinct {qsort : Qsort maxCalltraces}
    (hqsort : Contract qsort) (h : p.CountsMethods methods) :
    (((p.countedMethods qsort).map MethodSample.toInfo).map
      MethodSampleInfo.jMethodId).Nodup := by
  apply reportedMethods_nodup hqsort (LinearProbing.Tallies.linked h)
    (LinearProbing.Tallies.counts_nonneg h)
  intro i hpos
  rcases Option.ne_none_iff_exists'.mp
    ((LinearProbing.Tallies.counts_pos_iff h i).mp hpos) with ⟨method, hkey⟩
  rcases methodKey_eq_some_iff.mp hkey with ⟨hmethod, hne⟩
  rw [hmethod]
  exact hne

theorem countsMethods_reported {qsort : Qsort maxCalltraces}
    (hqsort : Contract qsort) (h : p.CountsMethods methods) (id : Int64) :
    (id ∈ ((p.countedMethods qsort).map MethodSample.toInfo).map
        MethodSampleInfo.jMethodId <-> id ∈ methods.map jMethodIdToId) ∧
      forall entry, entry ∈ (p.countedMethods qsort).map MethodSample.toInfo ->
        entry.callCount.toInt =
          (methods.map jMethodIdToId).count entry.jMethodId := by
  have hslots : forall i, 0 ≤ (p.methods i).callCount.toInt :=
    LinearProbing.Tallies.counts_nonneg h
  have hmem : forall sample, sample ∈ p.countedMethods qsort <->
      exists i, p.methods i = sample ∧ 0 < (p.methods i).callCount.toInt :=
    fun _ => mem_countedMethods_iff hqsort hslots
  constructor
  · rw [List.map_map, List.mem_map, List.mem_map]
    constructor
    · intro hlisted
      rcases hlisted with ⟨sample, hsample, rfl⟩
      rcases (hmem sample).mp hsample with ⟨i, rfl, hpos⟩
      exact ⟨_, (countsMethods_slot h hpos).left, rfl⟩
    · intro hgiven
      rcases hgiven with ⟨method, hmethod, rfl⟩
      rcases LinearProbing.Tallies.stored h method hmethod with ⟨i, hkey⟩
      refine ⟨p.methods i, (hmem _).mpr ⟨i, rfl, ?_⟩, ?_⟩
      · apply (LinearProbing.Tallies.counts_pos_iff h i).mpr
        rw [hkey]
        exact Option.some_ne_none _
      · change jMethodIdToId _ = _
        rw [(methodKey_eq_some_iff.mp hkey).left]
  · intro entry hentry
    rcases List.mem_map.mp hentry with ⟨sample, hsample, rfl⟩
    rcases (hmem sample).mp hsample with ⟨i, rfl, hpos⟩
    refine (countsMethods_slot h hpos).right.trans ?_
    change _ = ((methods.map jMethodIdToId).count
      (jMethodIdToId (p.methods i).method) : Int)
    rw [List.count_map_of_injective _ _ jMethodIdToId_injective]

end Methods

/-- The hot methods that a run reports are those of its samples, and the flame
tree built from the report shows each of them with the same count. -/
theorem hotMethods_agree (qsort : Qsort maxCalltraces)
    (hqsort : Contract qsort) (names : JMethodId -> MethodName) (pid : Int32)
    (vm : VM) (a : Process) (interval : Int64)
    (hstopped : a.profiler.running = false)
    (outcomes : List (Option AsgctCallTrace))
    (hlength : outcomes.length < 2 ^ 31)
    (hstacks : Distinguishable (javaTraces outcomes)) :
    exists info t,
      ((profiledRun a interval outcomes).profiler.writeResult qsort names pid
        vm).1.profInfo = some info ∧
      FlameTree.ofSamples info.samples = Except.ok t ∧
      HotMethodsAgree info t (javaTraces outcomes) := by
  have hframes : forall trace, trace ∈ javaTraces outcomes ->
      0 < trace.numFrames := fun t ht => (mem_javaTraces.mp ht).right
  have hlast : forall trace, trace ∈ javaTraces outcomes ->
      (stackOf trace).getLast? = some (jMethodIdToId trace.topMethod) :=
    fun t ht => getLast?_stackOf (hframes t ht)
  have hshort := length_javaTraces_le outcomes
  have hcounts := profiledRun_countsTraces hstopped interval hlength hstacks
  have hmethods := profiledRun_countsMethods hstopped interval hlength hstacks
  rcases hstacks.flameTree hframes (by lia) hqsort hcounts with
    ⟨t, hok, htree⟩
  rcases ofSamples_spec (frames_of_ofSamples hok) with ⟨t', hok', hwell, _⟩
  rw [hok] at hok'
  cases hok'
  rcases hwell.paths with ⟨path, hpaths⟩
  have hsamples : forall entry, entry ∈
      ((profiledRun a interval outcomes).profiler.countedMethods qsort).map
        MethodSample.toInfo ->
      entry.callCount.toInt = (javaTraces outcomes).countP (fun trace =>
        decide (jMethodIdToId trace.topMethod = entry.jMethodId)) := by
    intro entry hentry
    rw [(countsMethods_reported hqsort hmethods 0).right entry hentry,
      List.map_map, List.count, List.countP_map]
    rfl
  refine ⟨_, t, rfl, ?_, ?_, ?_, ?_, ?_⟩
  · rw [profilingInfo_samples]
    exact hok
  · intro id
    rw [profilingInfo_methods, (countsMethods_reported hqsort hmethods id).left,
      List.map_map, List.mem_map]
    rfl
  · rw [profilingInfo_methods]
    exact countsMethods_distinct hqsort hmethods
  · rw [profilingInfo_methods]
    exact hsamples
  · intro entry hentry
    rw [profilingInfo_methods] at hentry
    rw [hsamples entry hentry, htree.sum_selfCost hpaths hwell.keys]
    · refine congrArg Nat.cast (List.countP_congr ?_)
      intro trace ht
      rw [hlast trace ht]
      simp
    · intro trace ht hnil
      have hsome := hlast trace ht
      rw [hnil] at hsome
      cases hsome

theorem hotMethods_agree_otherLine :
    exists info t,
      ((profiledRun Process.initial defaultInterval
        [some callTrace, none, some otherLineTrace]).profiler.writeResult
          mergeQsort (fun _ => ⟨"name", "()V", "LHolder;"⟩) 1
          VM.initial).1.profInfo = some info ∧
      FlameTree.ofSamples info.samples = Except.ok t ∧
      HotMethodsAgree info t [callTrace, otherLineTrace] := by
  apply hotMethods_agree mergeQsort mergeQsort_contract _ 1 VM.initial
    Process.initial defaultInterval rfl
    [some callTrace, none, some otherLineTrace] (by decide)
  change Distinguishable [callTrace, otherLineTrace]
  have hapart : ToldApart [callTrace, otherLineTrace] :=
    toldApart_pair (by decide) (by decide)
  exact ⟨hapart.named, by decide, hapart.hashes, by decide⟩

end EndToEnd
end Franky
