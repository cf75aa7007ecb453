import Franky.Agent.Overflow
import Franky.Agent.Recorder
import Franky.EndToEnd.Truthful

/-!
# Results of a full table

The tables of the agent may be too small for a run.  The result then misses
samples, but it shows none that were not taken: no node of the flame graph and
no entry of the result counts more than the samples it stands for.
-/

namespace Franky
namespace EndToEnd

open Foundation
open Foundation.Sorting
open Protocol
open Agent
open Plugin

/-- The frames of the stacks have methods, and the stacks have different
hashes. -/
structure ToldApart (traces : List AsgctCallTrace) : Prop where
  named : forall trace, trace ∈ traces ->
    forall frame, frame ∈ trace.frameList -> frame.methodId ≠ 0
  hashes : forall trace trace', trace ∈ traces -> trace' ∈ traces ->
    trace.frameList ≠ trace'.frameList ->
      hashCallTrace trace ≠ hashCallTrace trace'

/-- The tree shows only stacks that were taken, none of them more often than it
was taken, and the samples that are missing are those that were lost. -/
structure NeverExaggerates (t : FlameTree) (traces : List AsgctCallTrace)
    (lost : Int) : Prop where
  node : forall q i, q ≠ [] -> t.follow q = some i ->
    exists trace, trace ∈ traces ∧ q <+: stackOf trace
  cost : forall q i, q ≠ [] -> t.follow q = some i ->
    0 < (t.node i).cost.toInt ∧ (t.node i).cost.toInt ≤
      traces.countP (fun trace => decide (q <+: stackOf trace))
  rootCost : (t.node 0).cost.toInt + lost = traces.length

/-- Each entry of the result stands for samples of its own, and counts no more
than these. -/
structure EntriesWithin (info : ProfilingInfo)
    (traces : List AsgctCallTrace) : Prop where
  samples : forall entry, entry ∈ info.samples -> exists trace,
    trace ∈ traces ∧
      entry.frameList = trace.frameList.map AsgctCallFrame.toCallFrame ∧
      0 < entry.callCount.toInt ∧ entry.callCount.toInt ≤
        traces.countP (fun other => decide (other.frameList = trace.frameList))
  samples_nodup :
    (info.samples.map CallTraceSampleInfo.frameList).Nodup
  methods : forall entry, entry ∈ info.methods ->
    0 < entry.callCount.toInt ∧ entry.callCount.toInt ≤
      traces.countP (fun trace =>
        decide (jMethodIdToId trace.topMethod = entry.jMethodId))
  methods_nodup : (info.methods.map MethodSampleInfo.jMethodId).Nodup

/-!
## Slots
-/

variable {traces : List AsgctCallTrace} {p : Profiler}
  {qsort : Qsort maxCalltraces}

theorem namedFrames_of_holds {sample : CallTraceSample}
    {trace : AsgctCallTrace}
    (hnamed : forall frame, frame ∈ trace.frameList -> frame.methodId ≠ 0)
    (hholds : sample.Holds trace) :
    sample.namedFrames = trace.frameList := by
  unfold CallTraceSample.namedFrames
  rw [hholds.frameList]
  apply List.filter_eq_self.mpr
  intro frame hframe
  exact bne_iff_ne.mpr (hnamed frame hframe)

/-- A slot that counts something holds the stack of a trace with its hash. -/
theorem ToldApart.slot (h : ToldApart traces) (hunder : p.Undercounts traces)
    {i : Fin maxCalltraces} (hpos : 0 < p.traceCount i) :
    exists trace, trace ∈ traces ∧ hashCallTrace trace = p.hashes i ∧
      (p.traces i).namedFrames = trace.frameList ∧
      (p.traces i).toInfo.path = stackOf trace := by
  rcases hunder.traces.held i hpos with ⟨trace, ht, hhash, hholds⟩
  have hnamed := namedFrames_of_holds (h.named trace ht) hholds
  refine ⟨trace, ht, hhash, hnamed, ?_⟩
  unfold CallTraceSampleInfo.path CallTraceSample.toInfo stackOf
  rw [hnamed, ← List.map_reverse, List.map_map]
  rfl

theorem ToldApart.frameList_eq (h : ToldApart traces)
    {trace trace' : AsgctCallTrace} (ht : trace ∈ traces)
    (ht' : trace' ∈ traces)
    (hhash : hashCallTrace trace = hashCallTrace trace') :
    trace.frameList = trace'.frameList := by
  by_contra hne
  exact h.hashes trace trace' ht ht' hne hhash

/-- The slots that hold a kind of stack count no more than the traces with such
a stack. -/
theorem ToldApart.sum_slots_le (h : ToldApart traces)
    (hunder : p.Undercounts traces) (P : List AsgctCallFrame -> Prop)
    [DecidablePred P] :
    (∑ i, if P (p.traces i).namedFrames then p.traceCount i else 0) ≤
      traces.countP (fun trace => decide (P trace.frameList)) := by
  classical
  let leads : UInt64 -> Prop := fun hash =>
    exists trace, trace ∈ traces ∧ hashCallTrace trace = hash ∧
      P trace.frameList
  have hleads : forall trace, trace ∈ traces ->
      (leads (hashCallTrace trace) <-> P trace.frameList) := by
    intro trace ht
    constructor
    · intro hl
      rcases hl with ⟨other, hother, hhash, hP⟩
      rw [← h.frameList_eq hother ht hhash]
      exact hP
    · intro hP
      exact ⟨trace, ht, rfl, hP⟩
  have htotal := hunder.traces.counts.total leads
  rw [List.countP_map] at htotal
  have hslots : (∑ i, if P (p.traces i).namedFrames then p.traceCount i
      else 0) = ∑ i, if leads (p.hashes i) then p.traceCount i else 0 := by
    apply Finset.sum_congr rfl
    intro i _
    rcases (hunder.traces.counts.nonneg i).eq_or_lt with hzero | hpos
    · simp [← hzero]
    · rcases h.slot hunder hpos with ⟨trace, ht, hhash, hframes, _⟩
      simp only [hframes, ← hhash, hleads trace ht]
  have hcount : traces.countP ((fun hash => decide (leads hash)) ∘
      hashCallTrace) =
        traces.countP (fun trace => decide (P trace.frameList)) := by
    apply List.countP_congr
    intro trace ht
    simp [hleads trace ht]
  rw [hslots, ← hcount]
  exact htotal

/-!
## The tree
-/

theorem ToldApart.totalCount_le (h : ToldApart traces)
    (hqsort : Contract qsort) (hunder : p.Undercounts traces)
    (q : List Int64) :
    totalCount (samplesThrough
        ((p.countedTraces qsort).map CallTraceSample.toInfo) q) ≤
      traces.countP (fun trace => decide (q <+: stackOf trace)) := by
  have hle := h.sum_slots_le hunder (fun frames =>
    q <+: frames.reverse.map (fun frame => jMethodIdToId frame.methodId))
  rw [totalCount_countedTraces hqsort hunder.nonneg]
  refine le_trans (le_of_eq ?_) hle
  apply Finset.sum_congr rfl
  intro i _
  have hpath : (p.traces i).toInfo.path = (p.traces i).namedFrames.reverse.map
      (fun frame => jMethodIdToId frame.methodId) := by
    unfold CallTraceSampleInfo.path CallTraceSample.toInfo
    rw [← List.map_reverse, List.map_map]
    rfl
  rw [hpath]

theorem exists_slot_of_reported (hqsort : Contract qsort)
    (hunder : p.Undercounts traces) {sample : CallTraceSampleInfo}
    (hsample : sample ∈ (p.countedTraces qsort).map CallTraceSample.toInfo) :
    exists i, (p.traces i).toInfo = sample ∧ 0 < p.traceCount i := by
  rcases List.mem_map.mp hsample with ⟨entry, hentry, rfl⟩
  rcases (mem_countedTraces_iff hqsort hunder.nonneg).mp hentry with
    ⟨i, rfl, hpos⟩
  exact ⟨i, rfl, hpos⟩

theorem ToldApart.flameTree (h : ToldApart traces)
    (hframes : forall trace, trace ∈ traces -> 0 < trace.numFrames)
    (hlength : traces.length < 2 ^ 31) (hqsort : Contract qsort)
    (hunder : p.Undercounts traces) {lost : Int}
    (hlost : p.tracesTotal + lost = traces.length) :
    exists t, FlameTree.ofSamples
        ((p.countedTraces qsort).map CallTraceSample.toInfo) = Except.ok t ∧
      NeverExaggerates t traces lost := by
  have hframed : forall sample,
      sample ∈ (p.countedTraces qsort).map CallTraceSample.toInfo ->
        sample.frameList ≠ [] := by
    intro sample hsample hnil
    rcases exists_slot_of_reported hqsort hunder hsample with ⟨i, rfl, hpos⟩
    rcases h.slot hunder hpos with ⟨trace, ht, _, hnamed, _⟩
    have hempty := List.map_eq_nil_iff.mp hnil
    rw [hnamed] at hempty
    exact List.ne_nil_of_mem (frame_zero_mem (hframes trace ht)) hempty
  have hpositive : forall sample,
      sample ∈ (p.countedTraces qsort).map CallTraceSample.toInfo ->
        0 < sample.callCount.toInt := by
    intro sample hsample
    rcases exists_slot_of_reported hqsort hunder hsample with ⟨i, rfl, hpos⟩
    exact hpos
  have htotal : totalCount
      ((p.countedTraces qsort).map CallTraceSample.toInfo) =
        p.tracesTotal := by
    rw [← samplesThrough_nil (List.map _ _),
      totalCount_countedTraces hqsort hunder.nonneg]
    simp [Profiler.tracesTotal, Profiler.traceCount, CallTraceSample.count]
  have hle := h.totalCount_le hqsort hunder []
  rw [samplesThrough_nil, htotal] at hle
  have hshort := List.countP_le_length
    (p := fun trace => decide ([] <+: stackOf trace)) (l := traces)
  have hfit : CountsFit
      ((p.countedTraces qsort).map CallTraceSample.toInfo) :=
    ⟨fun sample hsample => Int.le_of_lt (hpositive sample hsample), by lia⟩
  rcases ofSamples_spec hframed with ⟨t, hok, hwell, hcost⟩
  have hmerges := hwell.merges hcost
  have hexact := hmerges.costsExact hfit
  have hreached : forall q i, q ≠ [] -> t.follow q = some i ->
      exists sample,
        sample ∈ (p.countedTraces qsort).map CallTraceSample.toInfo ∧
          q <+: sample.path :=
    fun q i hq hfollow => (hmerges.reached q hq).mp ⟨i, hfollow⟩
  refine ⟨t, hok, ?_, ?_, ?_⟩
  · intro q i hq hfollow
    rcases hreached q i hq hfollow with ⟨sample, hsample, hbegin⟩
    rcases exists_slot_of_reported hqsort hunder hsample with ⟨j, rfl, hpos⟩
    rcases h.slot hunder hpos with ⟨trace, ht, _, _, hpath⟩
    exact ⟨trace, ht, hpath ▸ hbegin⟩
  · intro q i hq hfollow
    rcases hreached q i hq hfollow with ⟨sample, hsample, _⟩
    refine ⟨hexact.cost_pos hmerges (List.ne_nil_of_mem hsample) hpositive
      hfollow, ?_⟩
    rw [hexact.cost q i hfollow]
    exact h.totalCount_le hqsort hunder q
  · rw [hexact.rootCost, htotal]
    exact hlost

/-!
## Entries
-/

theorem nodup_of_slots {entry key : Type} {n : Nat} (f : Fin n -> entry)
    (q : entry -> Bool) (g : entry -> key)
    (h : forall i j, q (f i) = true -> q (f j) = true ->
      g (f i) = g (f j) -> i = j) :
    (((List.ofFn f).filter q).map g).Nodup := by
  rw [List.Nodup, List.pairwise_map, List.pairwise_filter, List.pairwise_ofFn]
  intro i j hij hi hj heq
  exact absurd (h i j hi hj heq) (ne_of_lt hij)

theorem toCallFrame_injective :
    Function.Injective AsgctCallFrame.toCallFrame := by
  intro frame frame' h
  rcases frame with ⟨bci, method⟩
  rcases frame' with ⟨bci', method'⟩
  have hbci := congrArg CallFrame.bci h
  have hid := jMethodIdToId_injective (congrArg CallFrame.jMethodId h)
  cases hbci
  cases hid
  rfl

theorem count_pos_of_ne_zero {x : Int32} (hnonneg : 0 ≤ x.toInt)
    (hne : (x != 0) = true) : 0 < x.toInt := by
  have hzero : x.toInt ≠ 0 := by
    rw [bne_iff_ne, ne_eq, MachineInt.eq_zero_iff] at hne
    exact hne
  lia

theorem reportedMethods_nodup (hqsort : Contract qsort)
    (hlinked : LinearProbing.Linked methodBucket p.methodKey)
    (hnonneg : forall i, 0 ≤ (p.methods i).callCount.toInt)
    (hnamed : forall i, 0 < (p.methods i).callCount.toInt ->
      (p.methods i).method ≠ 0) :
    (((p.countedMethods qsort).map MethodSample.toInfo).map
      MethodSampleInfo.jMethodId).Nodup := by
  rw [List.map_map, ((countedMethods_perm hqsort hnonneg).map _).nodup_iff]
  apply nodup_of_slots
  intro i j hi _ heq
  have hpos := count_pos_of_ne_zero (hnonneg i) hi
  have hid := jMethodIdToId_injective heq
  apply hlinked.slot_unique (k := (p.methods i).method)
  · exact methodKey_eq_some_iff.mpr ⟨rfl, hnamed i hpos⟩
  · exact methodKey_eq_some_iff.mpr ⟨hid.symm, hnamed i hpos⟩

/-- The stack of a slot counts as samples of its own what the slot counts. -/
theorem ToldApart.slot_le (h : ToldApart traces) (hunder : p.Undercounts traces)
    {i : Fin maxCalltraces} {frames : List AsgctCallFrame}
    (hnamed : (p.traces i).namedFrames = frames) :
    p.traceCount i ≤
      traces.countP (fun other => decide (other.frameList = frames)) := by
  refine le_trans ?_ (h.sum_slots_le hunder (fun frames' => frames' = frames))
  have hslot : p.traceCount i =
      if (p.traces i).namedFrames = frames then p.traceCount i else 0 :=
    (if_pos hnamed).symm
  rw [hslot]
  apply Finset.single_le_sum (f := fun j =>
    if (p.traces j).namedFrames = frames then p.traceCount j else 0) _
    (Finset.mem_univ i)
  intro j _
  split
  · exact hunder.nonneg j
  · exact le_refl 0

theorem ToldApart.reportedSamples_nodup (h : ToldApart traces)
    (hframes : forall trace, trace ∈ traces -> 0 < trace.numFrames)
    (hnonzero : forall trace, trace ∈ traces -> hashCallTrace trace ≠ 0)
    (hqsort : Contract qsort) (hunder : p.Undercounts traces)
    (hlinked : LinearProbing.Linked bucketOf p.traceKey) :
    (((p.countedTraces qsort).map CallTraceSample.toInfo).map
      CallTraceSampleInfo.frameList).Nodup := by
  rw [List.map_map,
    ((countedTraces_perm hqsort hunder.nonneg).map _).nodup_iff]
  apply nodup_of_slots
  intro i j hi hj heq
  have hposi := count_pos_of_ne_zero (hunder.nonneg i) hi
  have hposj := count_pos_of_ne_zero (hunder.nonneg j) hj
  rcases h.slot hunder hposi with ⟨trace, ht, hhash, hnamed, _⟩
  rcases h.slot hunder hposj with ⟨trace', ht', hhash', hnamed', _⟩
  have hsame : trace.frameList = trace'.frameList := by
    rw [← hnamed, ← hnamed']
    exact List.map_injective_iff.mpr toCallFrame_injective heq
  rw [hashCallTrace_congr (hframes trace ht) hsame] at hhash
  have hne : hashCallTrace trace' ≠ 0 := hnonzero trace' ht'
  apply hlinked.slot_unique (k := hashCallTrace trace')
  · exact traceKey_eq_some_iff.mpr ⟨hhash.symm, hne⟩
  · exact traceKey_eq_some_iff.mpr ⟨hhash'.symm, hne⟩

theorem ToldApart.entriesWithin (h : ToldApart traces)
    (hframes : forall trace, trace ∈ traces -> 0 < trace.numFrames)
    (hnonzero : forall trace, trace ∈ traces -> hashCallTrace trace ≠ 0)
    (hqsort : Contract qsort) (hunder : p.Undercounts traces)
    (hapart : p.KeysApart) (hmethods : p.MethodsNamed)
    (names : JMethodId -> MethodName) (vm : VM) :
    EntriesWithin (p.profilingInfo qsort names vm).1 traces := by
  have hmethodCounts : forall i, 0 ≤ (p.methods i).callCount.toInt :=
    Overwriting.Undercounts.nonneg hunder.methods
  constructor
  · intro entry hentry
    rw [profilingInfo_samples] at hentry
    rcases exists_slot_of_reported hqsort hunder hentry with ⟨i, rfl, hpos⟩
    rcases h.slot hunder hpos with ⟨trace, ht, _, hnamed, _⟩
    refine ⟨trace, ht, ?_, hpos, h.slot_le hunder hnamed⟩
    unfold CallTraceSample.toInfo
    rw [hnamed]
  · rw [profilingInfo_samples]
    exact h.reportedSamples_nodup hframes hnonzero hqsort hunder hapart.traces
  · intro entry hentry
    rw [profilingInfo_methods] at hentry
    rcases List.mem_map.mp hentry with ⟨sample, hsample, rfl⟩
    rcases (mem_countedMethods_iff hqsort hmethodCounts).mp hsample with
      ⟨i, rfl, hpos⟩
    refine ⟨hpos, ?_⟩
    have hle := Overwriting.Undercounts.counts_le_count hunder.methods i
    rw [List.count, List.countP_map] at hle
    refine le_trans hle (le_of_eq (congrArg Nat.cast (List.countP_congr ?_)))
    intro trace _
    simp only [Function.comp_apply, beq_iff_eq, decide_eq_true_eq]
    exact jMethodIdToId_injective.eq_iff.symm
  · rw [profilingInfo_methods]
    exact reportedMethods_nodup hqsort hapart.methods hmethodCounts
      (fun i => (hmethods i).mpr)

/-!
## A whole run
-/

theorem profiledRun_profiler (a : Process) (interval : Int64)
    (outcomes : List (Option AsgctCallTrace)) :
    (profiledRun a interval outcomes).profiler =
      { Machine.run Profiler.recordSample (a.start interval).profiler
          outcomes with running := false } := by
  rw [profiledRun, profiler_stop, run_sample_profiler]

theorem profiledRun_undercounts {a : Process}
    (hstopped : a.profiler.running = false) (interval : Int64)
    {outcomes : List (Option AsgctCallTrace)}
    (hlength : outcomes.length < 2 ^ 31) :
    (profiledRun a interval outcomes).profiler.Undercounts
      (javaTraces outcomes) := by
  have h := start_undercounts hstopped interval hlength
  rw [profiledRun_profiler]
  exact ⟨⟨h.traces.counts, h.traces.held⟩, h.methods⟩

theorem mem_javaTraces_of_mem {outcomes : List (Option AsgctCallTrace)}
    {outcome : Option AsgctCallTrace} (hmem : outcome ∈ outcomes)
    {trace : AsgctCallTrace} (ht : trace ∈ javaTraces [outcome]) :
    trace ∈ javaTraces outcomes := by
  rcases mem_javaTraces.mp ht with ⟨hsome, hframes⟩
  rw [← List.mem_singleton.mp hsome] at hmem
  exact mem_javaTraces.mpr ⟨hmem, hframes⟩

/-- The flame tree of a run of any number of stacks shows no more than the
samples of the run, and all but the lost ones. -/
theorem flameGraph_neverExaggerates (qsort : Qsort maxCalltraces)
    (hqsort : Contract qsort) (names : JMethodId -> MethodName) (pid : Int32)
    (vm : VM) (a : Process) (interval : Int64)
    (hstopped : a.profiler.running = false)
    (outcomes : List (Option AsgctCallTrace))
    (hlength : outcomes.length < 2 ^ 31)
    (hstacks : ToldApart (javaTraces outcomes)) :
    exists info t,
      ((profiledRun a interval outcomes).profiler.writeResult qsort names pid
        vm).1.profInfo = some info ∧
      FlameTree.ofSamples info.samples = Except.ok t ∧
      NeverExaggerates t (javaTraces outcomes)
        (Profiler.lostBy Profiler.traceLost (a.start interval).profiler
          outcomes) := by
  have hshort := length_javaTraces_le outcomes
  have haccounts := (start_awaits hstopped interval hlength).accountsWithLoss
    (start_blank hstopped interval)
  have htotal := haccounts.traces
  rcases hstacks.flameTree (fun t ht => (mem_javaTraces.mp ht).right)
    (by lia) hqsort (profiledRun_undercounts hstopped interval hlength)
    (by rw [profiledRun_profiler]; exact htotal) with ⟨t, hok, htree⟩
  refine ⟨_, t, rfl, ?_, htree⟩
  rw [profilingInfo_samples]
  exact hok

theorem toldApart_pair {trace trace' : AsgctCallTrace}
    (hnamed : forall t, t ∈ [trace, trace'] ->
      forall frame, frame ∈ t.frameList -> frame.methodId ≠ 0)
    (hhash : hashCallTrace trace ≠ hashCallTrace trace') :
    ToldApart [trace, trace'] where
  named := hnamed
  hashes := by
    intro t t' ht ht' hne
    rcases List.mem_pair.mp ht with rfl | rfl <;>
      rcases List.mem_pair.mp ht' with rfl | rfl
    · exact absurd rfl hne
    · exact hhash
    · exact hhash.symm
    · exact absurd rfl hne

/-- The second sample replaces the entry of the first one, which is lost. -/
theorem flameGraph_neverExaggerates_zeroHash :
    exists info t,
      ((profiledRun Process.initial defaultInterval
        [some zeroHashTrace, some firstBucketTrace]).profiler.writeResult
          mergeQsort (fun _ => ⟨"name", "()V", "LHolder;"⟩) 1
          VM.initial).1.profInfo = some info ∧
      FlameTree.ofSamples info.samples = Except.ok t ∧
      NeverExaggerates t [zeroHashTrace, firstBucketTrace] 1 := by
  have hlost : Profiler.lostBy Profiler.traceLost
      (Process.initial.start defaultInterval).profiler
      [some zeroHashTrace, some firstBucketTrace] = 1 := by decide
  rw [← hlost]
  exact flameGraph_neverExaggerates mergeQsort mergeQsort_contract _ 1
    VM.initial Process.initial defaultInterval rfl
    [some zeroHashTrace, some firstBucketTrace] (by decide)
    (toldApart_pair (by decide) (by decide))

/-- The entries of the result of a run of any number of stacks and methods stand
for different stacks and methods, and count no more than their samples. -/
theorem entries_within (qsort : Qsort maxCalltraces)
    (hqsort : Contract qsort) (names : JMethodId -> MethodName) (pid : Int32)
    (vm : VM) (a : Process) (interval : Int64)
    (hstopped : a.profiler.running = false)
    (outcomes : List (Option AsgctCallTrace))
    (hlength : outcomes.length < 2 ^ 31)
    (hstacks : ToldApart (javaTraces outcomes))
    (hnonzero : forall trace, trace ∈ javaTraces outcomes ->
      hashCallTrace trace ≠ 0) :
    exists info,
      ((profiledRun a interval outcomes).profiler.writeResult qsort names pid
        vm).1.profInfo = some info ∧
      EntriesWithin info (javaTraces outcomes) := by
  have hawaits := start_awaits hstopped interval hlength
  have hkeys : (a.start interval).profiler.KeysApart := by
    rw [start_of_stopped hstopped]
    exact clear_keysApart _
  have hapart := hkeys.run hawaits (by
    intro outcome hmem trace ht
    have htrace := mem_javaTraces_of_mem hmem ht
    refine ⟨hnonzero trace htrace, ?_⟩
    apply hstacks.named trace htrace
    exact frame_zero_mem (mem_javaTraces.mp ht).right)
  have hnamed := (start_accounted hstopped interval).right.run hawaits (by
    intro outcome hmem
    apply nonNullMethods_of_java
    intro trace ht
    exact hstacks.named trace (mem_javaTraces_of_mem hmem ht))
  refine ⟨_, rfl, ?_⟩
  apply hstacks.entriesWithin (fun t ht => (mem_javaTraces.mp ht).right)
    hnonzero hqsort (profiledRun_undercounts hstopped interval hlength)
  · rw [profiledRun_profiler]
    exact ⟨hapart.traces, hapart.methods⟩
  · rw [profiledRun_profiler]
    exact hnamed

theorem entries_within_otherLine :
    exists info,
      ((profiledRun Process.initial defaultInterval
        [some callTrace, none, some otherLineTrace]).profiler.writeResult
          mergeQsort (fun _ => ⟨"name", "()V", "LHolder;"⟩) 1
          VM.initial).1.profInfo = some info ∧
      EntriesWithin info [callTrace, otherLineTrace] :=
  entries_within mergeQsort mergeQsort_contract _ 1 VM.initial
    Process.initial defaultInterval rfl
    [some callTrace, none, some otherLineTrace] (by decide)
    (toldApart_pair (by decide) (by decide)) (by
      change forall trace, trace ∈ [callTrace, otherLineTrace] ->
        hashCallTrace trace ≠ 0
      decide)

end EndToEnd
end Franky
