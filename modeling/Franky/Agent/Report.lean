import Franky.Foundation.Sorting
import Franky.Agent.CompileRegistry
import Franky.Agent.Counts

/-!
# The result of a profiling session

`Profiler::writeResult` sorts both tables in place and lists the entries in
front of the first one without a count, then the methods that occurred in them.
-/

namespace Franky
namespace Agent

open Foundation
open Foundation.Sorting
open Protocol

/-!
## One entry
-/

def CallTraceSample.comparator : CallTraceSample -> CallTraceSample -> Int32 :=
  descending CallTraceSample.callCount

def MethodSample.comparator : MethodSample -> MethodSample -> Int32 :=
  descending MethodSample.callCount

/-- The frames of an entry whose method is not `NULL`. -/
def CallTraceSample.namedFrames (sample : CallTraceSample) :
    List AsgctCallFrame :=
  sample.frameList.filter (fun frame => frame.methodId != 0)

def AsgctCallFrame.toCallFrame (frame : AsgctCallFrame) : CallFrame :=
  { bci := frame.bci, jMethodId := jMethodIdToId frame.methodId }

/-- The `CallTraceSampleInfo` of an entry. -/
def CallTraceSample.toInfo (sample : CallTraceSample) : CallTraceSampleInfo :=
  { callCount := sample.callCount
    frameList := sample.namedFrames.map AsgctCallFrame.toCallFrame }

/-- The `MethodSampleInfo` of an entry. -/
def MethodSample.toInfo (sample : MethodSample) : MethodSampleInfo :=
  { callCount := sample.callCount, jMethodId := jMethodIdToId sample.method }

theorem frame_mem_namedFrames {sample : CallTraceSample}
    {frame : AsgctCallFrame} :
    frame ∈ sample.namedFrames <->
      frame ∈ sample.frameList ∧ frame.methodId ≠ 0 := by
  simp [CallTraceSample.namedFrames]

/-!
## The result

The set of method ids is a list without repetitions; the order in which the
library walks the set is not specified, and nothing below depends on it.
-/

def insertIds (ids new : List JMethodId) : List JMethodId :=
  new.foldl (fun ids method => ids.insert method) ids

/-- The entries of the sorted method table that the loop over it lists. -/
def Profiler.countedMethods (qsort : Qsort maxCalltraces) (p : Profiler) :
    List MethodSample :=
  reported MethodSample.callCount
    (qsort MethodSample MethodSample.comparator p.methods)

/-- The entries of the sorted trace table that the loop over it lists. -/
def Profiler.countedTraces (qsort : Qsort maxCalltraces) (p : Profiler) :
    List CallTraceSample :=
  reported CallTraceSample.callCount
    (qsort CallTraceSample CallTraceSample.comparator p.traces)

def Profiler.saveMethods (qsort : Qsort maxCalltraces) (p : Profiler)
    (ids : List JMethodId) :
    List MethodSampleInfo × List JMethodId × Profiler :=
  let counted := p.countedMethods qsort
  (counted.map MethodSample.toInfo,
    insertIds ids (counted.map MethodSample.method),
    { p with methods := qsort MethodSample MethodSample.comparator p.methods })

def Profiler.saveCallTraces (qsort : Qsort maxCalltraces) (p : Profiler)
    (ids : List JMethodId) :
    List CallTraceSampleInfo × List JMethodId × Profiler :=
  let counted := p.countedTraces qsort
  (counted.map CallTraceSample.toInfo,
    insertIds ids
      (counted.flatMap (fun sample =>
        sample.namedFrames.map AsgctCallFrame.methodId)),
    { p with
      traces := qsort CallTraceSample CallTraceSample.comparator p.traces })

/-- `Profiler::saveMethodIds`. -/
def VM.saveMethodIds (names : JMethodId -> MethodName) :
    VM -> List JMethodId -> List MethodInfo × VM
  | vm, [] => ([], vm)
  | vm, method :: ids =>
      let (info, vm) := vm.fillMethodInfo names method
      let (infos, vm) := VM.saveMethodIds names vm ids
      (info :: infos, vm)

/-- The `ProfilingInfo` that `Profiler::writeResult` fills in. -/
def Profiler.profilingInfo (qsort : Qsort maxCalltraces)
    (names : JMethodId -> MethodName) (p : Profiler) (vm : VM) :
    ProfilingInfo × Profiler × VM :=
  let methods := p.saveMethods qsort []
  let samples := methods.2.2.saveCallTraces qsort methods.2.1
  let infos := vm.saveMethodIds names samples.2.1
  ({ callsTotal := p.callsTotal
     callsNonJava := p.callsNonJava
     callsGc := p.callsGc
     callsDeopt := p.callsDeopt
     callsUnknown := p.callsUnknown
     methods := methods.1
     samples := samples.1
     methodInfos := infos.1 }, samples.2.2, infos.2)

/-- The message that `Profiler::writeResult` builds and sends. -/
def Profiler.writeResult (qsort : Qsort maxCalltraces)
    (names : JMethodId -> MethodName) (pid : Int32) (p : Profiler) (vm : VM) :
    Response × Profiler × VM :=
  let info := p.profilingInfo qsort names vm
  ({ id := pid, type := ResponseType.profInfo, profInfo := some info.1 },
    info.2)

/-!
## What the result lists
-/

section Result

variable {qsort : Qsort maxCalltraces} {names : JMethodId -> MethodName}

theorem writeResult_profInfo (qsort : Qsort maxCalltraces)
    (names : JMethodId -> MethodName) (pid : Int32) (p : Profiler) (vm : VM) :
    (p.writeResult qsort names pid vm).1.profInfo =
      some (p.profilingInfo qsort names vm).1 := by
  simp only [Profiler.writeResult]

@[simp] theorem profilingInfo_samples (p : Profiler) (vm : VM) :
    (p.profilingInfo qsort names vm).1.samples =
      (p.countedTraces qsort).map CallTraceSample.toInfo := by
  simp only [Profiler.profilingInfo, Profiler.saveMethods,
    Profiler.saveCallTraces, Profiler.countedTraces]

@[simp] theorem profilingInfo_methods (p : Profiler) (vm : VM) :
    (p.profilingInfo qsort names vm).1.methods =
      (p.countedMethods qsort).map MethodSample.toInfo := by
  simp only [Profiler.profilingInfo, Profiler.saveMethods]

theorem mem_insertIds {ids new : List JMethodId} {method : JMethodId} :
    method ∈ insertIds ids new <-> method ∈ ids ∨ method ∈ new := by
  unfold insertIds
  induction new generalizing ids with
  | nil => simp
  | cons m new ih =>
      rw [List.foldl_cons, ih, List.mem_insert_iff, List.mem_cons]
      tauto

theorem saveMethodIds_ids (vm : VM) (ids : List JMethodId) :
    (vm.saveMethodIds names ids).1.map MethodInfo.jMethodId =
      ids.map jMethodIdToId := by
  induction ids generalizing vm with
  | nil => rfl
  | cons method ids ih =>
      simp only [VM.saveMethodIds, List.map_cons, ih]
      rfl

/-- The ids that `saveMethods` and `saveCallTraces` collect. -/
def Profiler.collectedIds (qsort : Qsort maxCalltraces) (p : Profiler) :
    List JMethodId :=
  insertIds (insertIds [] ((p.countedMethods qsort).map MethodSample.method))
    ((p.countedTraces qsort).flatMap (fun sample =>
      sample.namedFrames.map AsgctCallFrame.methodId))

theorem profilingInfo_ids (p : Profiler) (vm : VM) :
    (p.profilingInfo qsort names vm).1.methodInfos.map MethodInfo.jMethodId =
      (p.collectedIds qsort).map jMethodIdToId := by
  simp only [Profiler.profilingInfo, Profiler.saveMethods,
    Profiler.saveCallTraces, Profiler.countedTraces, saveMethodIds_ids]
  rfl

theorem mem_methodInfos_iff (p : Profiler) (vm : VM) {id : Int64} :
    id ∈ (p.profilingInfo qsort names vm).1.methodInfos.map
        MethodInfo.jMethodId <->
      (exists sample, sample ∈ p.countedMethods qsort ∧
        jMethodIdToId sample.method = id) ∨
      (exists sample frame, sample ∈ p.countedTraces qsort ∧
        frame ∈ sample.namedFrames ∧ jMethodIdToId frame.methodId = id) := by
  rw [profilingInfo_ids, List.mem_map]
  simp only [Profiler.collectedIds, mem_insertIds, List.not_mem_nil, false_or,
    List.mem_flatMap, List.mem_map]
  constructor
  · intro h
    rcases h with ⟨method, ⟨s, hs, rfl⟩ | ⟨s, hs, f, hf, rfl⟩, hid⟩
    · exact Or.inl ⟨s, hs, hid⟩
    · exact Or.inr ⟨s, f, hs, hf, hid⟩
  · intro h
    rcases h with ⟨s, hs, hid⟩ | ⟨s, f, hs, hf, hid⟩
    · exact ⟨s.method, Or.inl ⟨s, hs, rfl⟩, hid⟩
    · exact ⟨f.methodId, Or.inr ⟨s, hs, f, hf, rfl⟩, hid⟩

theorem insertIds_nodup {ids : List JMethodId} (h : ids.Nodup)
    (new : List JMethodId) : (insertIds ids new).Nodup := by
  unfold insertIds
  induction new generalizing ids with
  | nil => exact h
  | cons method new ih => exact ih h.insert

theorem jMethodIdToId_injective : Function.Injective jMethodIdToId := by
  intro method method' h
  have hcast := congrArg Int64.toUInt64 h
  simpa [jMethodIdToId] using hcast

theorem methodInfos_nodup (p : Profiler) (vm : VM) :
    ((p.profilingInfo qsort names vm).1.methodInfos.map
      MethodInfo.jMethodId).Nodup := by
  rw [profilingInfo_ids]
  apply List.Nodup.map jMethodIdToId_injective
  exact insertIds_nodup (insertIds_nodup List.nodup_nil _) _

theorem exists_of_mem_countedTraces (hqsort : Contract qsort) {p : Profiler}
    {sample : CallTraceSample} (h : sample ∈ p.countedTraces qsort) :
    exists i, p.traces i = sample ∧ (p.traces i).callCount ≠ 0 :=
  exists_of_mem_reported (hqsort.rearranges _ _ _) h

theorem exists_of_mem_countedMethods (hqsort : Contract qsort) {p : Profiler}
    {sample : MethodSample} (h : sample ∈ p.countedMethods qsort) :
    exists i, p.methods i = sample ∧ (p.methods i).callCount ≠ 0 :=
  exists_of_mem_reported (hqsort.rearranges _ _ _) h

theorem countedTraces_perm (hqsort : Contract qsort) {p : Profiler}
    (h : forall i, 0 ≤ (p.traces i).callCount.toInt) :
    (p.countedTraces qsort).Perm
      ((List.ofFn p.traces).filter (fun s => s.callCount != 0)) :=
  reported_perm h (hqsort.sortedPermutation (descending_orders h))

theorem countedTraces_pairwise (hqsort : Contract qsort) {p : Profiler}
    (h : forall i, 0 ≤ (p.traces i).callCount.toInt) :
    (p.countedTraces qsort).Pairwise
      (fun s s' => s'.callCount ≤ s.callCount) :=
  reported_pairwise h (hqsort.sortedPermutation (descending_orders h))

theorem countedMethods_perm (hqsort : Contract qsort) {p : Profiler}
    (h : forall i, 0 ≤ (p.methods i).callCount.toInt) :
    (p.countedMethods qsort).Perm
      ((List.ofFn p.methods).filter (fun s => s.callCount != 0)) :=
  reported_perm h (hqsort.sortedPermutation (descending_orders h))

theorem countedMethods_pairwise (hqsort : Contract qsort) {p : Profiler}
    (h : forall i, 0 ≤ (p.methods i).callCount.toInt) :
    (p.countedMethods qsort).Pairwise
      (fun s s' => s'.callCount ≤ s.callCount) :=
  reported_pairwise h (hqsort.sortedPermutation (descending_orders h))

theorem mem_countedTraces_iff (hqsort : Contract qsort) {p : Profiler}
    (h : forall i, 0 ≤ (p.traces i).callCount.toInt)
    {sample : CallTraceSample} :
    sample ∈ p.countedTraces qsort <->
      exists i, p.traces i = sample ∧ 0 < (p.traces i).callCount.toInt :=
  mem_reported_iff h (hqsort.sortedPermutation (descending_orders h))

theorem mem_countedMethods_iff (hqsort : Contract qsort) {p : Profiler}
    (h : forall i, 0 ≤ (p.methods i).callCount.toInt) {sample : MethodSample} :
    sample ∈ p.countedMethods qsort <->
      exists i, p.methods i = sample ∧ 0 < (p.methods i).callCount.toInt :=
  mem_reported_iff h (hqsort.sortedPermutation (descending_orders h))

end Result

theorem jMethodIdToId_eq_zero_iff {method : JMethodId} :
    jMethodIdToId method = 0 <-> method = 0 := by
  rw [show (0 : Int64) = jMethodIdToId 0 from rfl]
  exact jMethodIdToId_injective.eq_iff

end Agent
end Franky
