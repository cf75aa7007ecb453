import Franky.Agent.Report
import Franky.Plugin.ProfilingResult

/-!
# The result as an image of the tables

Nothing that was counted is missing from a result, nothing is in it twice, and
the plugin finds a description for every method of the tree it builds from it.
-/

namespace Franky
namespace EndToEnd

open Foundation
open Foundation.Sorting (Qsort Contract mergeQsort mergeQsort_contract)
open Protocol
open Agent
open Plugin

/-- The result lists the slots with a positive count, each once, the larger
counts first, and describes each method it names once. -/
structure ImageOf (p : Profiler) (info : ProfilingInfo) : Prop where
  samples : info.samples.Perm
    (((List.ofFn p.traces).filter (fun s => 0 < s.callCount)).map
      CallTraceSample.toInfo)
  samples_fall : info.samples.Pairwise (fun s s' => s'.callCount ≤ s.callCount)
  methods : info.methods.Perm
    (((List.ofFn p.methods).filter (fun s => 0 < s.callCount)).map
      MethodSample.toInfo)
  methods_fall : info.methods.Pairwise (fun s s' => s'.callCount ≤ s.callCount)
  methodInfos_nodup : (info.methodInfos.map MethodInfo.jMethodId).Nodup
  methodInfos : forall id, id ∈ info.methodInfos.map MethodInfo.jMethodId <->
    (exists sample frame, sample ∈ info.samples ∧ frame ∈ sample.frameList ∧
      frame.jMethodId = id) ∨
    (exists sample, sample ∈ info.methods ∧ sample.jMethodId = id)

/-- No count in the tables is negative. -/
structure CountsNonneg (p : Profiler) : Prop where
  traces : forall i, 0 ≤ (p.traces i).callCount.toInt
  methods : forall i, 0 ≤ (p.methods i).callCount.toInt

variable {qsort : Qsort maxCalltraces} {p : Profiler}

theorem countsNonneg_of_bounded (h : p.CountsBounded) : CountsNonneg p where
  traces := fun i => (h.traces.counts i).left
  methods := fun i => (h.methods i).left

theorem filter_counted {entry : Type} {n : Nat} (count : entry -> Int32)
    {xs : Fin n -> entry} (h : forall i, 0 ≤ (count (xs i)).toInt) :
    (List.ofFn xs).filter (fun x => count x != 0) =
      (List.ofFn xs).filter (fun x => 0 < count x) := by
  apply List.filter_congr
  intro x hx
  rcases List.mem_ofFn.mp hx with ⟨i, rfl⟩
  have hnonneg := h i
  rw [Bool.eq_iff_iff, bne_iff_ne, decide_eq_true_iff, MachineInt.pos_iff,
    ne_eq, MachineInt.eq_zero_iff]
  lia

theorem CountsNonneg.imageOf (hqsort : Contract qsort) (h : CountsNonneg p)
    (names : JMethodId -> MethodName) (vm : VM) :
    ImageOf p (p.profilingInfo qsort names vm).1 where
  samples := by
    rw [profilingInfo_samples,
      ← filter_counted CallTraceSample.callCount h.traces]
    exact (countedTraces_perm hqsort h.traces).map _
  samples_fall := by
    rw [profilingInfo_samples]
    exact List.pairwise_map.mpr (countedTraces_pairwise hqsort h.traces)
  methods := by
    rw [profilingInfo_methods,
      ← filter_counted MethodSample.callCount h.methods]
    exact (countedMethods_perm hqsort h.methods).map _
  methods_fall := by
    rw [profilingInfo_methods]
    exact List.pairwise_map.mpr (countedMethods_pairwise hqsort h.methods)
  methodInfos_nodup := methodInfos_nodup p vm
  methodInfos := by
    intro id
    rw [mem_methodInfos_iff, profilingInfo_samples, profilingInfo_methods,
      or_comm]
    simp [CallTraceSample.toInfo, MethodSample.toInfo,
      AsgctCallFrame.toCallFrame]

theorem ImageOf.described {info : ProfilingInfo} (h : ImageOf p info)
    {t : FlameTree} (ht : FlameTree.ofSamples info.samples = Except.ok t)
    {i : Nat} (hi : i < t.size) (hne : i ≠ 0) :
    exists method, associateBy info.methodInfos (t.node i).methodId =
        some method ∧ method ∈ info.methodInfos ∧
      method.jMethodId = (t.node i).methodId := by
  rcases exists_frame_of_node ht hi hne with ⟨sample, frame, hs, hf, hid⟩
  exact exists_associateBy
    ((h.methodInfos _).mpr (Or.inl ⟨sample, frame, hs, hf, hid⟩))

/-- The message that `writeResult` builds is a faithful and closed image of the
tables. -/
theorem writeResult_imageOf (qsort : Qsort maxCalltraces)
    (hqsort : Contract qsort) (names : JMethodId -> MethodName) (pid : Int32)
    (vm : VM) (p : Profiler) (hcounts : CountsNonneg p) :
    exists info, (p.writeResult qsort names pid vm).1.profInfo = some info ∧
      ImageOf p info ∧
      forall t methods,
        createComponent (p.writeResult qsort names pid vm).1 =
            Except.ok (t, methods) ->
          forall i, i < t.size -> i ≠ 0 ->
            exists method, methods (t.node i).methodId = some method ∧
              method ∈ info.methodInfos ∧
              method.jMethodId = (t.node i).methodId := by
  have himage := hcounts.imageOf hqsort names vm
  have hinfo := writeResult_profInfo qsort names pid p vm
  refine ⟨(p.profilingInfo qsort names vm).1, hinfo, himage, ?_⟩
  intro t methods hcreate i hi hne
  rcases createComponent_ok hcreate with ⟨ht, hmethods⟩
  rw [getProfInfo, hinfo, Option.getD_some] at ht hmethods
  rw [hmethods]
  exact himage.described ht hi hne

def twoFrames : AsgctCallTrace :=
  AsgctCallTrace.ofFrames [⟨3, 16⟩, ⟨5, 32⟩] (by decide)

/-- A trace of one frame, on a method of the other one. -/
def oneFrame : AsgctCallTrace :=
  AsgctCallTrace.ofFrames [⟨7, 32⟩] (by decide)

def differentCounts : List (Option AsgctCallTrace) :=
  [some twoFrames, some oneFrame, some oneFrame, some twoFrames, some oneFrame]

/-- The profiler when it has counted these traces. -/
def fiveSamples : Profiler :=
  Machine.run Profiler.recordSample
    (Process.initial.start defaultInterval).profiler differentCounts

def someName : MethodName := ⟨"f", "()V", "LC;"⟩

theorem writeResult_imageOf_fiveSamples :
    exists info,
      (fiveSamples.writeResult mergeQsort (fun _ => someName) 7
        VM.initial).1.profInfo = some info ∧
      ImageOf fiveSamples info ∧
      forall t methods,
        createComponent (fiveSamples.writeResult mergeQsort
            (fun _ => someName) 7 VM.initial).1 = Except.ok (t, methods) ->
          forall i, i < t.size -> i ≠ 0 ->
            exists method, methods (t.node i).methodId = some method ∧
              method ∈ info.methodInfos ∧
              method.jMethodId = (t.node i).methodId := by
  have hawaits : (Process.initial.start defaultInterval).profiler.Awaits
      differentCounts := start_awaits rfl defaultInterval (by decide)
  have hrun : fiveSamples.Awaits [] :=
    hawaits.recordSample.recordSample.recordSample.recordSample.recordSample
  exact writeResult_imageOf mergeQsort mergeQsort_contract (fun _ => someName) 7
    VM.initial fiveSamples (countsNonneg_of_bounded hrun.counts)

end EndToEnd
end Franky
