import Mathlib.Algebra.BigOperators.Fin
import Franky.Agent.TraceTable
import Franky.Agent.Report
import Franky.Plugin.FlameTree

/-!
# The flame graph of a run

The samples of a run pass through the trace table, the sorted result message and
the merged tree.  When the hash tells the stacks of the run apart, each node of
the tree counts the Java samples of the run whose stack leads through it.
-/

namespace Franky
namespace EndToEnd

open Foundation
open Foundation.Sorting
open Protocol
open Agent
open Plugin

/-- The stack of a sample as the flame graph shows it: the ids of its methods,
outermost first. -/
def stackOf (trace : AsgctCallTrace) : List Int64 :=
  trace.frameList.reverse.map (fun frame => jMethodIdToId frame.methodId)

/-- The stacks of a run that the agent can tell apart: every frame has a method,
the table has a slot for each stack, and each stack has a hash of its own. -/
structure Distinguishable (traces : List AsgctCallTrace) : Prop where
  named : forall trace, trace ∈ traces ->
    forall frame, frame ∈ trace.frameList -> frame.methodId ≠ 0
  few : (traces.map AsgctCallTrace.frameList).toFinset.card ≤ maxCalltraces
  hashes : forall trace trace', trace ∈ traces -> trace' ∈ traces ->
    trace.frameList ≠ trace'.frameList ->
      hashCallTrace trace ≠ hashCallTrace trace'
  nonzero : forall trace, trace ∈ traces -> hashCallTrace trace ≠ 0

/-- A start, the samples of a run, and a stop. -/
def profiledRun (a : Process) (interval : Int64)
    (outcomes : List (Option AsgctCallTrace)) : Process :=
  (Machine.run Process.sample (a.start interval) outcomes).stop

/-!
## Hashes and stacks
-/

theorem hashCallTrace_congr {trace trace' : AsgctCallTrace}
    (hframes : 0 < trace.numFrames)
    (heq : trace.frameList = trace'.frameList) :
    hashCallTrace trace = hashCallTrace trace' := by
  have hlength := congrArg List.length heq
  rw [length_frameList, length_frameList] at hlength
  rw [MachineInt.pos_iff] at hframes
  have hnum : trace.numFrames = trace'.numFrames := by
    apply Int32.toInt_inj.mp
    lia
  unfold hashCallTrace
  rw [hnum, heq]

variable {traces : List AsgctCallTrace}

theorem Distinguishable.card_hashes (h : Distinguishable traces)
    (hframes : forall trace, trace ∈ traces -> 0 < trace.numFrames) :
    (traces.map hashCallTrace).toFinset.card ≤ maxCalltraces := by
  refine le_trans ?_ h.few
  apply Finset.card_le_card_of_surjOn
    (fun frames => ((traces.find? (fun t => t.frameList = frames)).map
      hashCallTrace).getD 0)
  intro hash hmem
  rcases List.mem_map.mp (List.mem_toFinset.mp hmem) with ⟨trace, ht, rfl⟩
  refine ⟨trace.frameList, ?_, ?_⟩
  · exact List.mem_toFinset.mpr (List.mem_map_of_mem ht)
  · cases hfind : traces.find? (fun t => t.frameList = trace.frameList) with
    | none =>
        have hmissing := List.find?_eq_none.mp hfind trace ht
        simp at hmissing
    | some first =>
        have hsame : first.frameList = trace.frameList := by
          simpa using List.find?_some hfind
        have hfirst := List.mem_of_find?_eq_some hfind
        simp only [hfind, Option.map_some, Option.getD_some]
        exact hashCallTrace_congr (hframes first hfirst) hsame

theorem Distinguishable.stackOf_eq (h : Distinguishable traces)
    {trace trace' : AsgctCallTrace} (ht : trace ∈ traces)
    (ht' : trace' ∈ traces)
    (hhash : hashCallTrace trace = hashCallTrace trace') :
    stackOf trace = stackOf trace' := by
  have hsame : trace.frameList = trace'.frameList := by
    by_contra hne
    exact h.hashes trace trace' ht ht' hne hhash
  unfold stackOf
  rw [hsame]

/-!
## The result of a run
-/

section Result

variable {p : Profiler} {qsort : Qsort maxCalltraces}

theorem Distinguishable.toInfo_path (h : Distinguishable traces)
    {sample : CallTraceSample} {trace : AsgctCallTrace} (ht : trace ∈ traces)
    (hholds : sample.Holds trace) : sample.toInfo.path = stackOf trace := by
  have hnamed : sample.namedFrames = trace.frameList := by
    unfold CallTraceSample.namedFrames
    rw [hholds.frameList]
    apply List.filter_eq_self.mpr
    intro frame hframe
    exact bne_iff_ne.mpr (h.named trace ht frame hframe)
  unfold CallTraceSampleInfo.path CallTraceSample.toInfo stackOf
  rw [hnamed, ← List.map_reverse, List.map_map]
  rfl

/-- A slot that counts a hash holds the stack of a trace with that hash. -/
theorem Distinguishable.slot (h : Distinguishable traces)
    (hcounts : p.CountsTraces traces) {i : Fin maxCalltraces} {hash : UInt64}
    (hkey : p.traceKey i = some hash) :
    exists trace, trace ∈ traces ∧ hashCallTrace trace = hash ∧
      (p.traces i).toInfo.path = stackOf trace ∧
      (p.traces i).namedFrames = trace.frameList := by
  rcases hcounts.first i hash hkey with ⟨trace, hfind, hholds⟩
  have ht := List.mem_of_find?_eq_some hfind
  have hhash : hashCallTrace trace = hash := by
    simpa using List.find?_some hfind
  refine ⟨trace, ht, hhash, h.toInfo_path ht hholds, ?_⟩
  unfold CallTraceSample.namedFrames
  rw [hholds.frameList]
  apply List.filter_eq_self.mpr
  intro frame hframe
  exact bne_iff_ne.mpr (h.named trace ht frame hframe)

theorem sum_map_filter {entry : Type*} (q : entry -> Bool) (f : entry -> Int)
    (xs : List entry) :
    ((xs.filter q).map f).sum =
      (xs.map (fun x => if q x then f x else 0)).sum := by
  induction xs with
  | nil => rfl
  | cons x xs ih =>
      cases hx : q x <;> simp [hx, ih]

theorem totalCount_countedTraces (hqsort : Contract qsort)
    (hnonneg : forall i, 0 ≤ (p.traces i).callCount.toInt) (q : List Int64) :
    totalCount (samplesThrough
        ((p.countedTraces qsort).map CallTraceSample.toInfo) q) =
      ∑ i, if q <+: (p.traces i).toInfo.path then p.traceCount i else 0 := by
  have hperm := countedTraces_perm hqsort hnonneg
  have hmap : totalCount (samplesThrough
      ((p.countedTraces qsort).map CallTraceSample.toInfo) q) =
        (((p.countedTraces qsort).filter
          (fun s => decide (q <+: s.toInfo.path))).map
            CallTraceSample.count).sum := by
    unfold totalCount samplesThrough
    rw [List.filter_map, List.map_map]
    rfl
  rw [hmap, ((hperm.filter _).map _).sum_eq, sum_map_filter, sum_map_filter,
    List.map_ofFn, List.sum_ofFn]
  apply Finset.sum_congr rfl
  intro i _
  rw [Function.comp_apply]
  rcases eq_or_ne (p.traces i).callCount 0 with hzero | hne
  · have hcount : p.traceCount i = 0 := MachineInt.eq_zero_iff.mp hzero
    simp [hzero, hcount]
  · simp [hne, Profiler.traceCount]

theorem totalCount_reported (hqsort : Contract qsort)
    (hcounts : p.CountsTraces traces) (q : List Int64) :
    totalCount (samplesThrough
        ((p.countedTraces qsort).map CallTraceSample.toInfo) q) =
      ∑ i, if q <+: (p.traces i).toInfo.path then p.traceCount i else 0 :=
  totalCount_countedTraces hqsort hcounts.tallies.counts_nonneg q

/-- The reported samples through a path count the traces through it. -/
theorem Distinguishable.totalCount_eq (h : Distinguishable traces)
    (hqsort : Contract qsort) (hcounts : p.CountsTraces traces)
    (q : List Int64) :
    totalCount (samplesThrough
        ((p.countedTraces qsort).map CallTraceSample.toInfo) q) =
      traces.countP (fun trace => decide (q <+: stackOf trace)) := by
  classical
  let leads : UInt64 -> Prop := fun hash =>
    exists trace, trace ∈ traces ∧ hashCallTrace trace = hash ∧
      q <+: stackOf trace
  have hleads : forall trace, trace ∈ traces ->
      (leads (hashCallTrace trace) <-> q <+: stackOf trace) := by
    intro trace ht
    constructor
    · intro hl
      rcases hl with ⟨other, hother, hhash, hpre⟩
      rw [← h.stackOf_eq hother ht hhash]
      exact hpre
    · intro hpre
      exact ⟨trace, ht, rfl, hpre⟩
  have hsum := hcounts.tallies.sum_counts leads
  rw [List.countP_map] at hsum
  rw [totalCount_reported hqsort hcounts q]
  trans (∑ i, if (exists k, p.traceKey i = some k ∧ leads k)
    then p.traceCount i else 0)
  · apply Finset.sum_congr rfl
    intro i _
    cases hkey : p.traceKey i with
    | none => simp [hcounts.tallies.vacant i hkey]
    | some hash =>
        rcases h.slot hcounts hkey with ⟨trace, ht, hhash, hpath, _⟩
        have hiff : (exists k, some hash = some k ∧ leads k) <->
            q <+: (p.traces i).toInfo.path := by
          rw [hpath, ← hleads trace ht, hhash]
          simp
        simp only [hiff]
  · rw [hsum]
    refine congrArg Nat.cast (List.countP_congr ?_)
    intro trace ht
    simp [hleads trace ht]

theorem Distinguishable.exists_reported_iff (h : Distinguishable traces)
    (hqsort : Contract qsort) (hcounts : p.CountsTraces traces)
    (q : List Int64) :
    (exists sample,
      sample ∈ (p.countedTraces qsort).map CallTraceSample.toInfo ∧
        q <+: sample.path) <->
      exists trace, trace ∈ traces ∧ q <+: stackOf trace := by
  have hnonneg : forall i, 0 ≤ (p.traces i).callCount.toInt :=
    hcounts.tallies.counts_nonneg
  constructor
  · intro hs
    rcases hs with ⟨sample, hsample, hpre⟩
    rcases List.mem_map.mp hsample with ⟨entry, hentry, rfl⟩
    rcases (mem_countedTraces_iff hqsort hnonneg).mp hentry with
      ⟨i, rfl, hpos⟩
    rcases Option.ne_none_iff_exists'.mp
        ((hcounts.tallies.counts_pos_iff i).mp hpos) with ⟨hash, hkey⟩
    rcases h.slot hcounts hkey with ⟨trace, ht, _, hpath, _⟩
    exact ⟨trace, ht, hpath ▸ hpre⟩
  · intro ht
    rcases ht with ⟨trace, ht, hpre⟩
    rcases hcounts.tallies.stored (hashCallTrace trace)
        (List.mem_map_of_mem ht) with ⟨i, hkey⟩
    rcases h.slot hcounts hkey with ⟨other, hother, hhash, hpath, _⟩
    have hpos : 0 < p.traceCount i := by
      rw [hcounts.tallies.counts_pos_iff, hkey]
      exact Option.some_ne_none _
    refine ⟨(p.traces i).toInfo, ?_, ?_⟩
    · apply List.mem_map_of_mem
      exact (mem_countedTraces_iff hqsort hnonneg).mpr ⟨i, rfl, hpos⟩
    · rw [hpath, h.stackOf_eq hother ht hhash]
      exact hpre

theorem Distinguishable.framed (h : Distinguishable traces)
    (hframes : forall trace, trace ∈ traces -> 0 < trace.numFrames)
    (hqsort : Contract qsort) (hcounts : p.CountsTraces traces) :
    forall sample,
      sample ∈ (p.countedTraces qsort).map CallTraceSample.toInfo ->
        sample.frameList ≠ [] := by
  intro sample hsample
  rcases List.mem_map.mp hsample with ⟨entry, hentry, rfl⟩
  rcases (mem_countedTraces_iff hqsort hcounts.tallies.counts_nonneg).mp hentry
    with ⟨i, rfl, hpos⟩
  rcases Option.ne_none_iff_exists'.mp
      ((hcounts.tallies.counts_pos_iff i).mp hpos) with ⟨hash, hkey⟩
  rcases h.slot hcounts hkey with ⟨trace, ht, _, _, hnamed⟩
  intro hnil
  have hempty := List.map_eq_nil_iff.mp hnil
  rw [hnamed] at hempty
  exact List.ne_nil_of_mem (frame_zero_mem (hframes trace ht)) hempty

theorem Distinguishable.countsFit (h : Distinguishable traces)
    (hlength : traces.length < 2 ^ 31) (hqsort : Contract qsort)
    (hcounts : p.CountsTraces traces) :
    CountsFit ((p.countedTraces qsort).map CallTraceSample.toInfo) := by
  constructor
  · intro sample hsample
    rcases List.mem_map.mp hsample with ⟨entry, hentry, rfl⟩
    rcases (mem_countedTraces_iff hqsort
      hcounts.tallies.counts_nonneg).mp hentry with ⟨i, rfl, hpos⟩
    exact Int.le_of_lt hpos
  · rw [← samplesThrough_nil (List.map _ _), h.totalCount_eq hqsort hcounts]
    have hle := List.countP_le_length
      (p := fun trace => decide ([] <+: stackOf trace)) (l := traces)
    lia

end Result

/-!
## The tree of a run
-/

/-- The tree has a node for every way a stack begins, and the node counts the
stacks that begin that way. -/
structure CountsStacks (t : FlameTree) (traces : List AsgctCallTrace) :
    Prop where
  node : forall q, q ≠ [] ->
    ((exists i, t.follow q = some i) <->
      exists trace, trace ∈ traces ∧ q <+: stackOf trace)
  cost : forall q i, q ≠ [] -> t.follow q = some i ->
    (t.node i).cost.toInt =
      traces.countP (fun trace => decide (q <+: stackOf trace))
  rootCost : (t.node 0).cost.toInt = traces.length

theorem Distinguishable.flameTree {p : Profiler} {qsort : Qsort maxCalltraces}
    (h : Distinguishable traces)
    (hframes : forall trace, trace ∈ traces -> 0 < trace.numFrames)
    (hlength : traces.length < 2 ^ 31) (hqsort : Contract qsort)
    (hcounts : p.CountsTraces traces) :
    exists t, FlameTree.ofSamples
        ((p.countedTraces qsort).map CallTraceSample.toInfo) = Except.ok t ∧
      CountsStacks t traces := by
  rcases ofSamples_spec (h.framed hframes hqsort hcounts) with
    ⟨t, hok, hwell, hcost⟩
  have hmerges := hwell.merges hcost
  have hexact := hmerges.costsExact (h.countsFit hlength hqsort hcounts)
  refine ⟨t, hok, ?_, ?_, ?_⟩
  · intro q hq
    rw [hmerges.reached q hq, h.exists_reported_iff hqsort hcounts]
  · intro q i _ hfollow
    rw [hexact.cost q i hfollow, h.totalCount_eq hqsort hcounts]
  · rw [hexact.rootCost, ← samplesThrough_nil (List.map _ _),
      h.totalCount_eq hqsort hcounts]
    simp

theorem run_sample_profiler (a : Process)
    (outcomes : List (Option AsgctCallTrace)) :
    (Machine.run Process.sample a outcomes).profiler =
      Machine.run Profiler.recordSample a.profiler outcomes := by
  induction outcomes generalizing a with
  | nil => rfl
  | cons outcome outcomes ih => exact ih (a.sample outcome)

theorem stop_countsTraces {a : Process}
    (h : a.profiler.CountsTraces traces) :
    a.stop.profiler.CountsTraces traces := by
  cases hrunning : a.profiler.running with
  | true =>
      rw [stop_of_running hrunning]
      exact ⟨h.tallies, h.first⟩
  | false =>
      rw [stop_of_stopped hrunning]
      exact h

/-- A start, the samples of a run and a stop leave a table that counts the Java
traces of the run. -/
theorem profiledRun_countsTraces {a : Process}
    (hstopped : a.profiler.running = false) (interval : Int64)
    {outcomes : List (Option AsgctCallTrace)}
    (hlength : outcomes.length < 2 ^ 31)
    (h : Distinguishable (javaTraces outcomes)) :
    (profiledRun a interval outcomes).profiler.CountsTraces
      (javaTraces outcomes) := by
  apply stop_countsTraces
  rw [run_sample_profiler, start_of_stopped hstopped]
  have hclear := clear_countsTraces { a.profiler with running := true }
  have hcard := h.card_hashes (fun t ht => (mem_javaTraces.mp ht).right)
  rw [← List.nil_append (javaTraces outcomes)]
  apply hclear.run hcard
  · intro hzero
    rcases List.mem_map.mp (List.mem_toFinset.mp hzero) with ⟨t, ht, hhash⟩
    exact h.nonzero t ht hhash
  · intro t ht
    cases ht
  · rw [List.length_nil, Nat.zero_add]
    exact hlength
  · intro t ht
    exact List.mem_toFinset.mpr (List.mem_map_of_mem ht)

/-- The flame tree built from the result of a run counts the Java samples of the
run, stack by stack. -/
theorem flameGraph_truthful (qsort : Qsort maxCalltraces)
    (hqsort : Contract qsort) (names : JMethodId -> MethodName) (pid : Int32)
    (vm : VM) (a : Process) (interval : Int64)
    (hstopped : a.profiler.running = false)
    (outcomes : List (Option AsgctCallTrace))
    (hlength : outcomes.length < 2 ^ 31)
    (hstacks : Distinguishable (javaTraces outcomes)) :
    exists info t,
      ((profiledRun a interval outcomes).profiler.writeResult qsort names pid
        vm).1.profInfo = some info ∧
      FlameTree.ofSamples info.samples = Except.ok t ∧
      CountsStacks t (javaTraces outcomes) := by
  have hcounts := profiledRun_countsTraces hstopped interval hlength hstacks
  have hshort := length_javaTraces_le outcomes
  rcases hstacks.flameTree (fun t ht => (mem_javaTraces.mp ht).right)
    (by lia) hqsort hcounts with ⟨t, hok, htree⟩
  refine ⟨_, t, rfl, ?_, htree⟩
  rw [profilingInfo_samples]
  exact hok

/-- Two traces of the same methods, which differ in a bytecode index. -/
def callTrace : AsgctCallTrace :=
  AsgctCallTrace.ofFrames
    [{ bci := 3, methodId := 0x7f3a5004ddf0 },
      { bci := 7, methodId := 0x7f3a508e9f58 }] (by decide)

def otherLineTrace : AsgctCallTrace :=
  AsgctCallTrace.ofFrames
    [{ bci := 5, methodId := 0x7f3a5004ddf0 },
      { bci := 7, methodId := 0x7f3a508e9f58 }] (by decide)

theorem flameGraph_truthful_otherLine :
    exists info t,
      ((profiledRun Process.initial defaultInterval
        [some callTrace, none, some otherLineTrace]).profiler.writeResult
          mergeQsort (fun _ => ⟨"name", "()V", "LHolder;"⟩) 1
          VM.initial).1.profInfo = some info ∧
      FlameTree.ofSamples info.samples = Except.ok t ∧
      CountsStacks t [callTrace, otherLineTrace] := by
  apply flameGraph_truthful mergeQsort mergeQsort_contract _ 1 VM.initial
    Process.initial defaultInterval rfl
    [some callTrace, none, some otherLineTrace] (by decide)
  change Distinguishable [callTrace, otherLineTrace]
  constructor
  · decide
  · decide
  · intro trace trace' ht ht' hne hhash
    rcases List.mem_pair.mp ht with rfl | rfl <;>
      rcases List.mem_pair.mp ht' with rfl | rfl
    · exact hne rfl
    · revert hhash
      decide
    · revert hhash
      decide
    · exact hne rfl
  · decide

end EndToEnd
end Franky
