import Franky.Foundation.Machine
import Franky.Agent.Timer

/-!
# Counts along a run

No count of the profiler is negative or larger than the number of calls, so
none can wrap around in a run of fewer than `2 ^ 31` samples.  This holds of
every run, also of one in which entries are replaced.
-/

namespace Franky
namespace Agent

open Foundation
open Foundation.MachineInt
open Foundation.LinearProbing (Probe)

/-!
## What a sample leaves alone
-/

theorem storeCallTrace_frame (p : Profiler) (trace : AsgctCallTrace) :
    p.storeCallTrace trace =
      { p with
        hashes := (p.storeCallTrace trace).hashes
        traces := (p.storeCallTrace trace).traces } := by
  cases hprobe : p.probeTrace (hashCallTrace trace) with
  | hit i => simp only [storeCallTrace_hit hprobe]
  | stop i => simp only [storeCallTrace_stop hprobe]

theorem storeMethod_frame (p : Profiler) (method : JMethodId) :
    p.storeMethod method =
      { p with methods := (p.storeMethod method).methods } := by
  cases hprobe : p.probeMethod method with
  | hit i => simp only [storeMethod_hit hprobe]
  | stop i => simp only [storeMethod_stop hprobe]

@[simp] theorem storeCallTrace_callsTotal (p : Profiler)
    (trace : AsgctCallTrace) :
    (p.storeCallTrace trace).callsTotal = p.callsTotal := by
  rw [storeCallTrace_frame]

@[simp] theorem storeCallTrace_methods (p : Profiler)
    (trace : AsgctCallTrace) :
    (p.storeCallTrace trace).methods = p.methods := by
  rw [storeCallTrace_frame]

@[simp] theorem storeMethod_callsTotal (p : Profiler) (method : JMethodId) :
    (p.storeMethod method).callsTotal = p.callsTotal := by
  rw [storeMethod_frame]

@[simp] theorem storeMethod_traces (p : Profiler) (method : JMethodId) :
    (p.storeMethod method).traces = p.traces := by
  rw [storeMethod_frame]

@[simp] theorem storeMethod_hashes (p : Profiler) (method : JMethodId) :
    (p.storeMethod method).hashes = p.hashes := by
  rw [storeMethod_frame]

theorem recordSample_callsTotal (p : Profiler)
    (outcome : Option AsgctCallTrace) :
    (p.recordSample outcome).callsTotal = p.callsTotal + 1 := by
  cases hjava : isJavaSample outcome with
  | false =>
      rcases recordSample_other hjava with heq | heq | heq | heq <;>
        rw [heq] <;> rfl
  | true =>
      cases outcome with
      | none => cases hjava
      | some trace =>
          rw [recordSample_java (of_decide_eq_true hjava),
            storeMethod_callsTotal, storeCallTrace_callsTotal]
          rfl

theorem recordSample_other_tables {p : Profiler}
    {outcome : Option AsgctCallTrace}
    (hother : isJavaSample outcome = false) :
    (p.recordSample outcome).hashes = p.hashes ∧
      (p.recordSample outcome).traces = p.traces ∧
      (p.recordSample outcome).methods = p.methods := by
  rcases recordSample_other hother with heq | heq | heq | heq <;>
    rw [heq] <;> exact ⟨rfl, rfl, rfl⟩

/-!
## Counts within a bound
-/

/-- The counter lies between zero and the bound. -/
def Within (bound : Int) (x : Int32) : Prop :=
  0 ≤ x.toInt ∧ x.toInt ≤ bound

structure Profiler.TracesWithin (p : Profiler) (bound : Int) : Prop where
  counts : forall i, Within bound (p.traces i).callCount
  hashed : forall i, p.hashes i ≠ 0 -> 0 < (p.traces i).callCount.toInt

def Profiler.MethodsWithin (p : Profiler) (bound : Int) : Prop :=
  forall i, Within bound (p.methods i).callCount

structure Profiler.CountersWithin (p : Profiler) (bound : Int) : Prop where
  nonJava : Within bound p.callsNonJava
  gc : Within bound p.callsGc
  deopt : Within bound p.callsDeopt
  unknown : Within bound p.callsUnknown

theorem Within.mono {bound bound' : Int} {x : Int32} (h : Within bound x)
    (hle : bound ≤ bound') : Within bound' x :=
  ⟨h.left, le_trans h.right hle⟩

theorem Within.toInt_succ {bound : Int} {x : Int32} (h : Within bound x)
    (hbound : bound + 1 < 2 ^ 31) : (x + 1).toInt = x.toInt + 1 :=
  MachineInt.toInt_succ h.left (by have := h.right; lia)

theorem Within.succ {bound : Int} {x : Int32} (h : Within bound x)
    (hbound : bound + 1 < 2 ^ 31) : Within (bound + 1) (x + 1) := by
  have hlow := h.left
  have hhigh := h.right
  unfold Within
  rw [h.toInt_succ hbound]
  constructor <;> lia

theorem within_one {bound : Int} (h : 0 ≤ bound) : Within (bound + 1) 1 := by
  unfold Within
  rw [toInt_one]
  constructor <;> lia

theorem within_zero {bound : Int} (h : 0 ≤ bound) : Within bound 0 :=
  ⟨le_refl 0, h⟩

theorem Profiler.TracesWithin.mono {p : Profiler} {bound bound' : Int}
    (h : p.TracesWithin bound) (hle : bound ≤ bound') :
    p.TracesWithin bound' :=
  ⟨fun i => (h.counts i).mono hle, h.hashed⟩

theorem Profiler.CountersWithin.mono {p : Profiler} {bound bound' : Int}
    (h : p.CountersWithin bound) (hle : bound ≤ bound') :
    p.CountersWithin bound' :=
  ⟨h.nonJava.mono hle, h.gc.mono hle, h.deopt.mono hle, h.unknown.mono hle⟩

theorem Profiler.TracesWithin.storeCallTrace {p : Profiler} {bound : Int}
    (h : p.TracesWithin bound) (hlow : 0 ≤ bound)
    (hbound : bound + 1 < 2 ^ 31) (trace : AsgctCallTrace) :
    (p.storeCallTrace trace).TracesWithin (bound + 1) := by
  have hmono := h.mono (show bound ≤ bound + 1 by lia)
  cases hprobe : p.probeTrace (hashCallTrace trace) with
  | hit i =>
      have hcount := (h.counts i).succ hbound
      have hsucc := (h.counts i).toInt_succ hbound
      have hnonneg := (h.counts i).left
      rw [storeCallTrace_hit hprobe]
      constructor
      · exact (Function.forall_update_iff p.traces
          (fun _ s => Within (bound + 1) s.callCount)).mpr
          ⟨hcount, fun j _ => hmono.counts j⟩
      · refine (Function.forall_update_iff p.traces
          (fun j s => p.hashes j ≠ 0 -> 0 < s.callCount.toInt)).mpr
          ⟨fun _ => ?_, fun j _ => h.hashed j⟩
        dsimp only
        lia
  | stop i =>
      rw [storeCallTrace_stop hprobe]
      constructor
      · exact (Function.forall_update_iff p.traces
          (fun _ s => Within (bound + 1) s.callCount)).mpr
          ⟨within_one hlow, fun j _ => hmono.counts j⟩
      · refine (Function.forall_update_iff p.traces
          (fun j s => Function.update p.hashes i (hashCallTrace trace) j ≠ 0 ->
            0 < s.callCount.toInt)).mpr
          ⟨fun _ => show (0 : Int) < 1 by decide, ?_⟩
        intro j hj hhash
        rw [Function.update_of_ne hj] at hhash
        exact h.hashed j hhash

theorem Profiler.MethodsWithin.storeMethod {p : Profiler} {bound : Int}
    (h : p.MethodsWithin bound) (hlow : 0 ≤ bound)
    (hbound : bound + 1 < 2 ^ 31) (method : JMethodId) :
    (p.storeMethod method).MethodsWithin (bound + 1) := by
  have hmono : p.MethodsWithin (bound + 1) :=
    fun i => (h i).mono (by lia)
  cases hprobe : p.probeMethod method with
  | hit i =>
      rw [storeMethod_hit hprobe]
      exact (Function.forall_update_iff p.methods
        (fun _ s => Within (bound + 1) s.callCount)).mpr
        ⟨(h i).succ hbound, fun j _ => hmono j⟩
  | stop i =>
      rw [storeMethod_stop hprobe]
      exact (Function.forall_update_iff p.methods
        (fun _ s => Within (bound + 1) s.callCount)).mpr
        ⟨within_one hlow, fun j _ => hmono j⟩

theorem recordSample_countersWithin {p : Profiler} {bound : Int}
    (h : p.CountersWithin bound) (hbound : bound + 1 < 2 ^ 31)
    (outcome : Option AsgctCallTrace) :
    (p.recordSample outcome).CountersWithin (bound + 1) := by
  have hmono := h.mono (show bound ≤ bound + 1 by lia)
  cases hjava : isJavaSample outcome with
  | false =>
      rcases recordSample_other hjava with heq | heq | heq | heq <;> rw [heq]
      · exact { hmono with nonJava := h.nonJava.succ hbound }
      · exact { hmono with gc := h.gc.succ hbound }
      · exact { hmono with deopt := h.deopt.succ hbound }
      · exact { hmono with unknown := h.unknown.succ hbound }
  | true =>
      cases outcome with
      | none => cases hjava
      | some trace =>
          rw [recordSample_java (of_decide_eq_true hjava), storeMethod_frame,
            storeCallTrace_frame]
          exact { hmono with }

/-!
## Counts and calls
-/

structure Profiler.CountsBounded (p : Profiler) : Prop where
  calls : 0 ≤ p.callsTotal.toInt
  counters : p.CountersWithin p.callsTotal.toInt
  traces : p.TracesWithin p.callsTotal.toInt
  methods : p.MethodsWithin p.callsTotal.toInt

theorem recordSample_callsTotal_toInt {p : Profiler} (h : p.CountsBounded)
    (hbound : p.callsTotal.toInt + 1 < 2 ^ 31)
    (outcome : Option AsgctCallTrace) :
    (p.recordSample outcome).callsTotal.toInt = p.callsTotal.toInt + 1 := by
  rw [recordSample_callsTotal]
  exact toInt_succ h.calls hbound

theorem recordSample_tracesWithin {p : Profiler} {bound : Int}
    (h : p.TracesWithin bound) (hlow : 0 ≤ bound) (hbound : bound + 1 < 2 ^ 31)
    (outcome : Option AsgctCallTrace) :
    (p.recordSample outcome).TracesWithin (bound + 1) := by
  cases hjava : isJavaSample outcome with
  | false =>
      rcases recordSample_other_tables (p := p) hjava with
        ⟨hhashes, htraces, _⟩
      have hmono := h.mono (show bound ≤ bound + 1 by lia)
      constructor
      · rw [htraces]
        exact hmono.counts
      · rw [hhashes, htraces]
        exact hmono.hashed
  | true =>
      cases outcome with
      | none => cases hjava
      | some trace =>
          have hcounted : p.countCall.TracesWithin bound := ⟨h.counts, h.hashed⟩
          have hstored := hcounted.storeCallTrace hlow hbound trace
          rw [recordSample_java (of_decide_eq_true hjava)]
          constructor
          · rw [storeMethod_traces]
            exact hstored.counts
          · rw [storeMethod_traces, storeMethod_hashes]
            exact hstored.hashed

theorem storeCallTrace_methodsWithin {p : Profiler} {bound : Int}
    (h : p.MethodsWithin bound) (trace : AsgctCallTrace) :
    (p.countCall.storeCallTrace trace).MethodsWithin bound := by
  unfold Profiler.MethodsWithin
  rw [storeCallTrace_methods]
  exact h

theorem recordSample_methodsWithin {p : Profiler} {bound : Int}
    (h : p.MethodsWithin bound) (hlow : 0 ≤ bound) (hbound : bound + 1 < 2 ^ 31)
    (outcome : Option AsgctCallTrace) :
    (p.recordSample outcome).MethodsWithin (bound + 1) := by
  cases hjava : isJavaSample outcome with
  | false =>
      rcases recordSample_other_tables (p := p) hjava with ⟨_, _, hmethods⟩
      intro i
      rw [hmethods]
      exact (h i).mono (by lia)
  | true =>
      cases outcome with
      | none => cases hjava
      | some trace =>
          rw [recordSample_java (of_decide_eq_true hjava)]
          exact (storeCallTrace_methodsWithin h trace).storeMethod hlow hbound _

theorem Profiler.CountsBounded.recordSample {p : Profiler}
    (h : p.CountsBounded) (hbound : p.callsTotal.toInt + 1 < 2 ^ 31)
    (outcome : Option AsgctCallTrace) :
    (p.recordSample outcome).CountsBounded := by
  have hlow := h.calls
  have hcalls := recordSample_callsTotal_toInt h hbound outcome
  refine ⟨by lia, ?_, ?_, ?_⟩
  · rw [hcalls]
    exact recordSample_countersWithin h.counters hbound outcome
  · rw [hcalls]
    exact recordSample_tracesWithin h.traces hlow hbound outcome
  · rw [hcalls]
    exact recordSample_methodsWithin h.methods hlow hbound outcome

theorem clear_countsBounded (p : Profiler) : p.clear.CountsBounded where
  calls := le_refl 0
  counters := ⟨within_zero (le_refl 0), within_zero (le_refl 0),
    within_zero (le_refl 0), within_zero (le_refl 0)⟩
  traces := ⟨fun _ => within_zero (le_refl 0), fun _ h => absurd rfl h⟩
  methods := fun _ => within_zero (le_refl 0)

/-- A profiler with so many samples still to come that its counts cannot wrap
around. -/
structure Profiler.Awaits (p : Profiler)
    (outcomes : List (Option AsgctCallTrace)) : Prop where
  counts : p.CountsBounded
  bound : p.callsTotal.toInt + outcomes.length < 2 ^ 31

theorem Profiler.Awaits.calls_bound {p : Profiler}
    {outcome : Option AsgctCallTrace} {outcomes : List (Option AsgctCallTrace)}
    (h : p.Awaits (outcome :: outcomes)) :
    p.callsTotal.toInt + 1 < 2 ^ 31 := by
  have hbound := h.bound
  rw [List.length_cons] at hbound
  push_cast at hbound
  lia

theorem Profiler.Awaits.recordSample {p : Profiler}
    {outcome : Option AsgctCallTrace} {outcomes : List (Option AsgctCallTrace)}
    (h : p.Awaits (outcome :: outcomes)) :
    (p.recordSample outcome).Awaits outcomes := by
  have hcalls := recordSample_callsTotal_toInt h.counts h.calls_bound outcome
  have hbound := h.bound
  rw [List.length_cons] at hbound
  push_cast at hbound
  exact ⟨h.counts.recordSample h.calls_bound outcome, by lia⟩

theorem start_awaits {a : Process} (hstopped : a.profiler.running = false)
    (interval : Int64) {outcomes : List (Option AsgctCallTrace)}
    (hlength : outcomes.length < 2 ^ 31) :
    (a.start interval).profiler.Awaits outcomes := by
  rw [start_of_stopped hstopped]
  refine ⟨clear_countsBounded _, ?_⟩
  change (0 : Int) + (outcomes.length : Int) < 2 ^ 31
  lia

end Agent
end Franky
