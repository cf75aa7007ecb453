import Franky.Foundation.LinearProbing
import Franky.Foundation.MachineInt

/-!
# The sample tables of the profiler

The agent counts stack traces and top methods in two open addressing tables of
fixed size.  The definitions follow `profiler.h` and `profiler.cpp`; a pointer
is its 64 bit address, and the null pointer is zero.
-/

namespace Franky
namespace Agent

open Foundation
open Foundation.LinearProbing (Probe probe)

def maxFrames : Nat := 64

def maxCalltraces : Nat := 32768

instance : NeZero maxFrames := ⟨by decide⟩

instance : NeZero maxCalltraces := ⟨by decide⟩

abbrev JMethodId := UInt64

structure AsgctCallFrame where
  bci : Int32
  methodId : JMethodId
deriving DecidableEq, Repr

/-- `ASGCT_CallTrace` as `AsyncGetCallTrace` fills it: at most as many frames
as the depth it was given, or a non-positive code. -/
structure AsgctCallTrace where
  numFrames : Int32
  frames : Fin maxFrames -> AsgctCallFrame
  numFrames_le : numFrames.toInt ≤ maxFrames

/-- The frames the loops over a trace visit, innermost first. -/
def AsgctCallTrace.frameList (trace : AsgctCallTrace) : List AsgctCallFrame :=
  (List.ofFn trace.frames).take trace.numFrames.toInt.toNat

/-- `frames[0].method_id`. -/
def AsgctCallTrace.topMethod (trace : AsgctCallTrace) : JMethodId :=
  (trace.frames 0).methodId

structure CallTraceSample where
  callCount : Int32
  numFrames : Int32
  frames : Fin maxFrames -> AsgctCallFrame

/-- The frames of an entry that the loop over it visits. -/
def CallTraceSample.frameList (sample : CallTraceSample) :
    List AsgctCallFrame :=
  (List.ofFn sample.frames).take sample.numFrames.toInt.toNat

structure MethodSample where
  callCount : Int32
  method : JMethodId

/-- The `Profiler` state, less its network fields. -/
structure Profiler where
  running : Bool
  callsTotal : Int32
  callsNonJava : Int32
  callsGc : Int32
  callsDeopt : Int32
  callsUnknown : Int32
  hashes : Fin maxCalltraces -> UInt64
  traces : Fin maxCalltraces -> CallTraceSample
  methods : Fin maxCalltraces -> MethodSample

def AsgctCallFrame.zero : AsgctCallFrame := { bci := 0, methodId := 0 }

def CallTraceSample.zero : CallTraceSample :=
  { callCount := 0, numFrames := 0, frames := fun _ => AsgctCallFrame.zero }

def MethodSample.zero : MethodSample := { callCount := 0, method := 0 }

/-- `Profiler::_instance` when the library is loaded. -/
def Profiler.instance : Profiler :=
  { running := false, callsTotal := 0, callsNonJava := 0, callsGc := 0,
    callsDeopt := 0, callsUnknown := 0, hashes := fun _ => 0,
    traces := fun _ => CallTraceSample.zero,
    methods := fun _ => MethodSample.zero }

/-- The counters and tables as `Profiler::start` resets them. -/
def Profiler.clear (p : Profiler) : Profiler :=
  { p with
    callsTotal := 0, callsNonJava := 0, callsGc := 0, callsDeopt := 0,
    callsUnknown := 0, hashes := fun _ => 0,
    traces := fun _ => CallTraceSample.zero,
    methods := fun _ => MethodSample.zero }

/-!
## Hashing
-/

/-- The multiplier `M` of both hash functions. -/
def hashM : UInt64 := 0xc6a4a7935bd1e995

/-- One round of `Profiler::hashCallTrace`. -/
def hashFrame (h : UInt64) (frame : AsgctCallFrame) : UInt64 :=
  let k := (frame.bci.toInt64.toUInt64 <<< 32) ^^^ frame.methodId
  let k := k * hashM
  let k := k ^^^ (k >>> 47)
  let k := k * hashM
  (h ^^^ k) * hashM

/-- `Profiler::hashCallTrace`. -/
def hashCallTrace (trace : AsgctCallTrace) : UInt64 :=
  let h := trace.numFrames.toInt64.toUInt64 * hashM
  let h := trace.frameList.foldl hashFrame h
  let h := h ^^^ (h >>> 47)
  let h := h * hashM
  h ^^^ (h >>> 47)

/-- `Profiler::hashMethod`. -/
def hashMethod (method : JMethodId) : UInt64 :=
  let h := method ^^^ (method >>> 17)
  let h := h * hashM
  h ^^^ (h >>> 17)

/-- The slot a hash value points to. -/
def bucketOf (hash : UInt64) : Fin maxCalltraces :=
  ⟨hash.toNat % maxCalltraces, Nat.mod_lt _ (by decide)⟩

/-!
## Storing a sample
-/

/-- `CallTraceSample::assign`; the frames past the end of the trace keep what
they held. -/
def CallTraceSample.assign (sample : CallTraceSample)
    (trace : AsgctCallTrace) : CallTraceSample :=
  { callCount := 1
    numFrames := trace.numFrames
    frames := fun i =>
      if (i.val : Int) < trace.numFrames.toInt then trace.frames i
      else sample.frames i }

/-- The search loop of `Profiler::storeCallTrace`. -/
def Profiler.probeTrace (p : Profiler) (hash : UInt64) : Probe maxCalltraces :=
  probe (fun i => p.hashes i = hash ∧ 0 < (p.traces i).callCount)
    (fun i => p.hashes i = 0) (bucketOf hash)

def Profiler.storeCallTrace (p : Profiler) (trace : AsgctCallTrace) :
    Profiler :=
  let hash := hashCallTrace trace
  match p.probeTrace hash with
  | Probe.hit i =>
      let sample := p.traces i
      { p with
        traces := Function.update p.traces i
          { sample with callCount := sample.callCount + 1 } }
  | Probe.stop i =>
      { p with
        hashes := Function.update p.hashes i hash
        traces := Function.update p.traces i ((p.traces i).assign trace) }

/-- The search loop of `Profiler::storeMethod`. -/
def Profiler.probeMethod (p : Profiler) (method : JMethodId) :
    Probe maxCalltraces :=
  probe (fun i => (p.methods i).method = method)
    (fun i => (p.methods i).method = 0) (bucketOf (hashMethod method))

def Profiler.storeMethod (p : Profiler) (method : JMethodId) : Profiler :=
  match p.probeMethod method with
  | Probe.hit i =>
      let sample := p.methods i
      { p with
        methods := Function.update p.methods i
          { sample with callCount := sample.callCount + 1 } }
  | Probe.stop i =>
      { p with
        methods := Function.update p.methods i
          { callCount := 1, method := method } }

/-- `Profiler::recordSample`.  The argument is what the call finds: `none` on a
thread that the virtual machine does not know, else the trace that
`AsyncGetCallTrace` filled in. -/
def Profiler.recordSample (p : Profiler) (outcome : Option AsgctCallTrace) :
    Profiler :=
  let p := { p with callsTotal := p.callsTotal + 1 }
  match outcome with
  | none => { p with callsNonJava := p.callsNonJava + 1 }
  | some trace =>
      if 0 < trace.numFrames then
        (p.storeCallTrace trace).storeMethod (trace.frames 0).methodId
      else if trace.numFrames = -2 then { p with callsGc := p.callsGc + 1 }
      else if trace.numFrames = -9 then
        { p with callsDeopt := p.callsDeopt + 1 }
      else { p with callsUnknown := p.callsUnknown + 1 }

def Profiler.countCall (p : Profiler) : Profiler :=
  { p with callsTotal := p.callsTotal + 1 }

/-- The sample is a Java sample: it has a trace with at least one frame. -/
def isJavaSample (outcome : Option AsgctCallTrace) : Bool :=
  outcome.any (fun trace => 0 < trace.numFrames)

/-- The traces that a sequence of samples stores. -/
def javaTraces (outcomes : List (Option AsgctCallTrace)) :
    List AsgctCallTrace :=
  (outcomes.filter isJavaSample).reduceOption

/-- The trace with the given frames, as `AsyncGetCallTrace` would report it. -/
def AsgctCallTrace.ofFrames (frames : List AsgctCallFrame)
    (h : frames.length ≤ maxFrames) : AsgctCallTrace :=
  { numFrames := Int32.ofInt frames.length
    frames := fun i => frames.getD i.val AsgctCallFrame.zero
    numFrames_le := by
      rw [MachineInt.toInt_ofInt_of_bounds]
      · exact Int.ofNat_le.mpr h
      · lia
      · have hmax : maxFrames = 64 := rfl
        lia }

/-!
## Equations

Each store is one of two updates, and a sample is one of two stores or one of
four counters.
-/

theorem storeCallTrace_hit {p : Profiler} {trace : AsgctCallTrace}
    {i : Fin maxCalltraces}
    (h : p.probeTrace (hashCallTrace trace) = Probe.hit i) :
    p.storeCallTrace trace =
      { p with
        traces := Function.update p.traces i
          { p.traces i with callCount := (p.traces i).callCount + 1 } } := by
  simp only [Profiler.storeCallTrace, h]

theorem storeCallTrace_stop {p : Profiler} {trace : AsgctCallTrace}
    {i : Fin maxCalltraces}
    (h : p.probeTrace (hashCallTrace trace) = Probe.stop i) :
    p.storeCallTrace trace =
      { p with
        hashes := Function.update p.hashes i (hashCallTrace trace)
        traces := Function.update p.traces i ((p.traces i).assign trace) } := by
  simp only [Profiler.storeCallTrace, h]

theorem storeMethod_hit {p : Profiler} {method : JMethodId}
    {i : Fin maxCalltraces} (h : p.probeMethod method = Probe.hit i) :
    p.storeMethod method =
      { p with
        methods := Function.update p.methods i
          { p.methods i with callCount := (p.methods i).callCount + 1 } } := by
  simp only [Profiler.storeMethod, h]

theorem storeMethod_stop {p : Profiler} {method : JMethodId}
    {i : Fin maxCalltraces} (h : p.probeMethod method = Probe.stop i) :
    p.storeMethod method =
      { p with
        methods := Function.update p.methods i
          { callCount := 1, method := method } } := by
  simp only [Profiler.storeMethod, h]

theorem recordSample_java {p : Profiler} {trace : AsgctCallTrace}
    (h : 0 < trace.numFrames) :
    p.recordSample (some trace) =
      (p.countCall.storeCallTrace trace).storeMethod
        (trace.frames 0).methodId := by
  simp only [Profiler.recordSample, h, if_true]
  rfl

theorem recordSample_other {p : Profiler} {outcome : Option AsgctCallTrace}
    (h : isJavaSample outcome = false) :
    p.recordSample outcome =
        { p.countCall with callsNonJava := p.callsNonJava + 1 } ∨
      p.recordSample outcome =
        { p.countCall with callsGc := p.callsGc + 1 } ∨
      p.recordSample outcome =
        { p.countCall with callsDeopt := p.callsDeopt + 1 } ∨
      p.recordSample outcome =
        { p.countCall with callsUnknown := p.callsUnknown + 1 } := by
  cases outcome with
  | none => exact Or.inl rfl
  | some trace =>
      have hframes : ¬ 0 < trace.numFrames := of_decide_eq_false h
      simp only [Profiler.recordSample, hframes, if_false]
      by_cases hgc : trace.numFrames = -2
      · exact Or.inr (Or.inl (by rw [if_pos hgc]; rfl))
      · by_cases hdeopt : trace.numFrames = -9
        · exact Or.inr (Or.inr (Or.inl (by rw [if_neg hgc, if_pos hdeopt]; rfl)))
        · exact Or.inr (Or.inr (Or.inr
            (by rw [if_neg hgc, if_neg hdeopt]; rfl)))

theorem length_frameList (trace : AsgctCallTrace) :
    trace.frameList.length = trace.numFrames.toInt.toNat := by
  have hle := trace.numFrames_le
  unfold AsgctCallTrace.frameList
  rw [List.length_take, List.length_ofFn]
  lia

theorem getElem_frameList (trace : AsgctCallTrace) {j : Nat}
    (hj : j < trace.frameList.length) (hmax : j < maxFrames) :
    trace.frameList[j] = trace.frames ⟨j, hmax⟩ := by
  simp only [AsgctCallTrace.frameList, List.getElem_take, List.getElem_ofFn]

theorem assign_frameList (sample : CallTraceSample) (trace : AsgctCallTrace) :
    (sample.assign trace).frameList = trace.frameList := by
  unfold CallTraceSample.frameList AsgctCallTrace.frameList
  apply List.ext_getElem
  · simp [CallTraceSample.assign]
  · intro i hi hi'
    rw [List.getElem_take, List.getElem_take, List.getElem_ofFn,
      List.getElem_ofFn]
    rw [List.length_take] at hi'
    have hlt : (i : Int) < trace.numFrames.toInt := by lia
    simp [CallTraceSample.assign, hlt]

theorem frame_zero_mem {trace : AsgctCallTrace} (h : 0 < trace.numFrames) :
    trace.frames 0 ∈ trace.frameList := by
  have hpos : 0 < trace.numFrames.toInt := MachineInt.pos_iff.mp h
  unfold AsgctCallTrace.frameList
  rw [List.mem_take_iff_getElem]
  refine ⟨0, ?_, ?_⟩
  · rw [List.length_ofFn]
    exact lt_min (by lia) (by decide)
  · rw [List.getElem_ofFn]
    rfl

end Agent
end Franky
