import Franky.Agent.Counts

/-!
# Accounting for recorded samples

Every sample is counted once in a counter or once in the two tables, unless
storing it replaces an entry that still had a count.  This module says exactly
when that happens, and derives when the totals agree along a whole run.
-/

namespace Franky
namespace Agent

open Foundation
open Foundation.MachineInt
open Foundation.LinearProbing (Probe probe slotAt Passed)

/-!
## Totals
-/

def Profiler.tracesTotal (p : Profiler) : Int :=
  ∑ i, (p.traces i).callCount.toInt

def Profiler.methodsTotal (p : Profiler) : Int :=
  ∑ i, (p.methods i).callCount.toInt

/-- The samples that are counted outside the tables. -/
def Profiler.countersTotal (p : Profiler) : Int :=
  p.callsNonJava.toInt + p.callsGc.toInt + p.callsDeopt.toInt +
    p.callsUnknown.toInt

/-- No sample is lost or counted twice. -/
structure Profiler.Accounted (p : Profiler) : Prop where
  traces : p.callsTotal.toInt = p.countersTotal + p.tracesTotal
  methods : p.methodsTotal = p.tracesTotal

/-- The method slots that have a count are those that hold a method. -/
def Profiler.MethodsNamed (p : Profiler) : Prop :=
  forall i, (p.methods i).method ≠ 0 <-> 0 < (p.methods i).callCount.toInt

@[simp] theorem storeCallTrace_countersTotal (p : Profiler)
    (trace : AsgctCallTrace) :
    (p.storeCallTrace trace).countersTotal = p.countersTotal := by
  rw [storeCallTrace_frame]
  rfl

@[simp] theorem storeCallTrace_methodsTotal (p : Profiler)
    (trace : AsgctCallTrace) :
    (p.storeCallTrace trace).methodsTotal = p.methodsTotal := by
  rw [storeCallTrace_frame]
  rfl

@[simp] theorem storeMethod_countersTotal (p : Profiler)
    (method : JMethodId) :
    (p.storeMethod method).countersTotal = p.countersTotal := by
  rw [storeMethod_frame]
  rfl

@[simp] theorem storeMethod_tracesTotal (p : Profiler) (method : JMethodId) :
    (p.storeMethod method).tracesTotal = p.tracesTotal := by
  rw [storeMethod_frame]
  rfl

/-!
## When a sample finds its place

A trace fits when the slots from its bucket on lead, past the slots of other
traces, to the slot that counts the trace already or to a slot that counts
nothing.  A method fits when the table holds it or has an empty slot.
-/

def Profiler.TraceFits (p : Profiler) (hash : UInt64) : Prop :=
  exists d, d < maxCalltraces ∧
    (forall e, e < d ->
      p.hashes (slotAt (bucketOf hash) e) ≠ 0 ∧
        p.hashes (slotAt (bucketOf hash) e) ≠ hash) ∧
    ((p.hashes (slotAt (bucketOf hash) d) = hash ∧
        0 < (p.traces (slotAt (bucketOf hash) d)).callCount) ∨
      (p.hashes (slotAt (bucketOf hash) d) = 0 ∧
        (p.traces (slotAt (bucketOf hash) d)).callCount = 0))

def Profiler.MethodFits (p : Profiler) (method : JMethodId) : Prop :=
  exists i, (p.methods i).method = method ∨ (p.methods i).method = 0

/-- The sample replaces no entry that has a count. -/
def Profiler.SampleFits (p : Profiler) : Option AsgctCallTrace -> Prop
  | none => True
  | some trace => 0 < trace.numFrames ->
      p.TraceFits (hashCallTrace trace) ∧
        p.MethodFits (trace.frames 0).methodId

/-- The count that storing a trace throws away. -/
def Profiler.traceOverwritten (p : Profiler) (hash : UInt64) : Int :=
  match p.probeTrace hash with
  | Probe.hit _ => 0
  | Probe.stop i => (p.traces i).callCount.toInt

/-- The count that storing a method throws away. -/
def Profiler.methodOverwritten (p : Profiler) (method : JMethodId) : Int :=
  match p.probeMethod method with
  | Probe.hit _ => 0
  | Probe.stop i => (p.methods i).callCount.toInt

theorem traceOverwritten_nonneg {p : Profiler} {bound : Int}
    (h : p.TracesWithin bound) (hash : UInt64) : 0 ≤ p.traceOverwritten hash := by
  unfold Profiler.traceOverwritten
  cases p.probeTrace hash with
  | hit i => exact le_refl 0
  | stop i => exact (h.counts i).left

theorem traceFits_iff {p : Profiler} {bound : Int}
    (h : p.TracesWithin bound) (hash : UInt64) :
    p.TraceFits hash <-> p.traceOverwritten hash = 0 := by
  unfold Profiler.traceOverwritten Profiler.probeTrace
  constructor
  · intro hexists
    rcases hexists with ⟨d, hd, hbefore, hend⟩
    have hpassed : Passed
        (fun i => decide (p.hashes i = hash ∧ 0 < (p.traces i).callCount))
        (fun i => decide (p.hashes i = 0)) (bucketOf hash) d := by
      intro e he
      rcases hbefore e he with ⟨hzero, hother⟩
      simp [hzero, hother]
    rcases hend with ⟨hsame, hcount⟩ | ⟨hzero, hcount⟩
    · rw [LinearProbing.probe_eq_hit_of_passed hd hpassed
        (decide_eq_true ⟨hsame, hcount⟩)]
    · rw [LinearProbing.probe_eq_stop_of_passed hd hpassed
        (by simp [hcount]) (decide_eq_true hzero)]
      simp [hcount]
  · intro hlost
    rcases LinearProbing.probe_endsAs
        (fun i => decide (p.hashes i = hash ∧ 0 < (p.traces i).callCount))
        (fun i => decide (p.hashes i = 0)) (bucketOf hash) with
      ⟨d, hd, hpassed, hhit, heq⟩ | ⟨d, hd, hpassed, _, hfree, heq⟩ |
        ⟨hpassed, heq⟩
    · refine ⟨d, hd, ?_, Or.inl (of_decide_eq_true hhit)⟩
      intro e he
      rcases hpassed e he with ⟨hmissed, hused⟩
      have hzero := of_decide_eq_false hused
      refine ⟨hzero, ?_⟩
      intro hsame
      exact of_decide_eq_false hmissed ⟨hsame, pos_iff.mpr (h.hashed _ hzero)⟩
    · rw [heq] at hlost
      refine ⟨d, hd, ?_, Or.inr ⟨of_decide_eq_true hfree,
        eq_zero_iff.mpr hlost⟩⟩
      intro e he
      rcases hpassed e he with ⟨hmissed, hused⟩
      have hzero := of_decide_eq_false hused
      refine ⟨hzero, ?_⟩
      intro hsame
      exact of_decide_eq_false hmissed ⟨hsame, pos_iff.mpr (h.hashed _ hzero)⟩
    · rw [heq] at hlost
      have hused := (hpassed 0 LinearProbing.size_pos).right
      rw [LinearProbing.slotAt_zero] at hused
      have hpos := h.hashed _ (of_decide_eq_false hused)
      simp only at hlost
      lia

theorem methodFits_iff {p : Profiler} {bound : Int}
    (h : p.MethodsWithin bound) (hnamed : p.MethodsNamed)
    {method : JMethodId} :
    p.MethodFits method <-> p.methodOverwritten method = 0 := by
  unfold Profiler.methodOverwritten
  cases hprobe : p.probeMethod method with
  | hit i =>
      have hhit := LinearProbing.hit_of_probe_eq_hit hprobe
      exact iff_of_true ⟨i, Or.inl (of_decide_eq_true hhit)⟩ rfl
  | stop i =>
      rcases LinearProbing.free_or_full_of_probe_eq_stop hprobe with
        ⟨_, hfree⟩ | ⟨_, hfull⟩
      · have hzero := of_decide_eq_true hfree
        refine iff_of_true ⟨i, Or.inr hzero⟩ ?_
        have hnot := mt (hnamed i).mpr (not_not.mpr hzero)
        have hnonneg := (h i).left
        show (p.methods i).callCount.toInt = 0
        lia
      · apply iff_of_false
        · intro hexists
          rcases hexists with ⟨j, hmethod | hzero⟩
          · exact of_decide_eq_false (hfull j).left hmethod
          · exact of_decide_eq_false (hfull j).right hzero
        · have hpos := (hnamed i).mp (of_decide_eq_false (hfull i).right)
          show (p.methods i).callCount.toInt ≠ 0
          lia

/-!
## One stored trace, one stored method
-/

theorem storeCallTrace_tracesTotal {p : Profiler} {bound : Int}
    (h : p.TracesWithin bound) (hbound : bound + 1 < 2 ^ 31)
    (trace : AsgctCallTrace) :
    (p.storeCallTrace trace).tracesTotal =
      p.tracesTotal + 1 - p.traceOverwritten (hashCallTrace trace) := by
  unfold Profiler.traceOverwritten Profiler.tracesTotal
  cases hprobe : p.probeTrace (hashCallTrace trace) with
  | hit i =>
      have hcount := (h.counts i).toInt_succ hbound
      rw [storeCallTrace_hit hprobe]
      dsimp only
      rw [LinearProbing.sum_update (fun s : CallTraceSample =>
        s.callCount.toInt)]
      dsimp only
      rw [hcount]
      ring
  | stop i =>
      rw [storeCallTrace_stop hprobe]
      dsimp only
      rw [LinearProbing.sum_update (fun s : CallTraceSample =>
        s.callCount.toInt)]
      dsimp only [CallTraceSample.assign]
      rw [toInt_one]
      ring

theorem storeMethod_methodsTotal {p : Profiler} {bound : Int}
    (h : p.MethodsWithin bound) (hbound : bound + 1 < 2 ^ 31)
    (method : JMethodId) :
    (p.storeMethod method).methodsTotal =
      p.methodsTotal + 1 - p.methodOverwritten method := by
  unfold Profiler.methodOverwritten Profiler.methodsTotal
  cases hprobe : p.probeMethod method with
  | hit i =>
      have hcount := (h i).toInt_succ hbound
      rw [storeMethod_hit hprobe]
      dsimp only
      rw [LinearProbing.sum_update (fun s : MethodSample =>
        s.callCount.toInt)]
      dsimp only
      rw [hcount]
      ring
  | stop i =>
      rw [storeMethod_stop hprobe]
      dsimp only
      rw [LinearProbing.sum_update (fun s : MethodSample =>
        s.callCount.toInt)]
      dsimp only
      rw [toInt_one]
      ring

theorem Profiler.MethodsNamed.storeMethod {p : Profiler}
    (hnamed : p.MethodsNamed) {bound : Int} (h : p.MethodsWithin bound)
    (hbound : bound + 1 < 2 ^ 31) {method : JMethodId}
    (hmethod : method ≠ 0) : (p.storeMethod method).MethodsNamed := by
  cases hprobe : p.probeMethod method with
  | hit i =>
      have hcount := (h i).toInt_succ hbound
      have hsame : (p.methods i).method = method :=
        of_decide_eq_true (LinearProbing.hit_of_probe_eq_hit hprobe)
      have hpos := (hnamed i).mp (hsame ▸ hmethod)
      rw [storeMethod_hit hprobe]
      refine (Function.forall_update_iff p.methods
        (fun _ s => s.method ≠ 0 <-> 0 < s.callCount.toInt)).mpr
        ⟨?_, fun j _ => hnamed j⟩
      dsimp only
      exact iff_of_true (hsame ▸ hmethod) (by lia)
  | stop i =>
      rw [storeMethod_stop hprobe]
      exact (Function.forall_update_iff p.methods
        (fun _ s => s.method ≠ 0 <-> 0 < s.callCount.toInt)).mpr
        ⟨iff_of_true hmethod (show (0 : Int) < 1 by decide),
          fun j _ => hnamed j⟩

/-!
## One sample

A sample is accounted for exactly when it fits.
-/

def NonNullMethods (outcome : Option AsgctCallTrace) : Prop :=
  forall trace, outcome = some trace ->
    forall frame, frame ∈ trace.frameList -> frame.methodId ≠ 0

theorem NonNullMethods.top {trace : AsgctCallTrace}
    (h : NonNullMethods (some trace)) (hframes : 0 < trace.numFrames) :
    (trace.frames 0).methodId ≠ 0 :=
  h trace rfl _ (frame_zero_mem hframes)

theorem storeCallTrace_methodsNamed {p : Profiler} (hnamed : p.MethodsNamed)
    (trace : AsgctCallTrace) :
    (p.countCall.storeCallTrace trace).MethodsNamed := by
  unfold Profiler.MethodsNamed
  rw [storeCallTrace_methods]
  exact hnamed

/-- A Java sample fits when neither its trace nor its method takes the slot of
another one. -/
theorem sampleFits_java_iff {p : Profiler} (h : p.CountsBounded)
    (hnamed : p.MethodsNamed) {trace : AsgctCallTrace}
    (hframes : 0 < trace.numFrames) :
    p.SampleFits (some trace) <->
      p.traceOverwritten (hashCallTrace trace) = 0 ∧
        (p.countCall.storeCallTrace trace).methodOverwritten
          (trace.frames 0).methodId = 0 := by
  have hmethod : p.MethodFits (trace.frames 0).methodId <->
      (p.countCall.storeCallTrace trace).methodOverwritten
        (trace.frames 0).methodId = 0 := by
    rw [← methodFits_iff (storeCallTrace_methodsWithin h.methods trace)
      (storeCallTrace_methodsNamed hnamed trace)]
    unfold Profiler.MethodFits
    rw [storeCallTrace_methods]
    rfl
  rw [← traceFits_iff h.traces, ← hmethod]
  exact ⟨fun hfit => hfit hframes, fun hfit _ => hfit⟩

theorem recordSample_java_accounted_iff {p : Profiler} (h : p.CountsBounded)
    (hnamed : p.MethodsNamed) (hacc : p.Accounted)
    (hbound : p.callsTotal.toInt + 1 < 2 ^ 31) {trace : AsgctCallTrace}
    (hframes : 0 < trace.numFrames) :
    (p.recordSample (some trace)).Accounted <->
      p.SampleFits (some trace) := by
  let stored := p.countCall.storeCallTrace trace
  let top := (trace.frames 0).methodId
  have hcounted : p.countCall.TracesWithin p.callsTotal.toInt :=
    ⟨h.traces.counts, h.traces.hashed⟩
  have hcalls : p.countCall.callsTotal.toInt = p.callsTotal.toInt + 1 :=
    toInt_succ h.calls hbound
  have htraces : stored.tracesTotal =
      p.tracesTotal + 1 - p.traceOverwritten (hashCallTrace trace) :=
    storeCallTrace_tracesTotal hcounted hbound trace
  have hmethods : (stored.storeMethod top).methodsTotal =
      p.methodsTotal + 1 - stored.methodOverwritten top := by
    rw [storeMethod_methodsTotal
      (storeCallTrace_methodsWithin h.methods trace) hbound,
      storeCallTrace_methodsTotal]
    rfl
  have hlost := traceOverwritten_nonneg h.traces (hashCallTrace trace)
  have htotal := hacc.traces
  have hpairs := hacc.methods
  rw [recordSample_java hframes, sampleFits_java_iff h hnamed hframes]
  constructor
  · intro hboth
    rcases hboth with ⟨htotal', hpairs'⟩
    rw [storeMethod_callsTotal, storeCallTrace_callsTotal, hcalls,
      storeMethod_countersTotal, storeCallTrace_countersTotal,
      storeMethod_tracesTotal, htraces] at htotal'
    rw [hmethods, storeMethod_tracesTotal, htraces] at hpairs'
    change p.callsTotal.toInt + 1 = p.countersTotal + _ at htotal'
    constructor <;> lia
  · intro hboth
    rcases hboth with ⟨hlost', hlostMethod'⟩
    constructor
    · rw [storeMethod_callsTotal, storeCallTrace_callsTotal, hcalls,
        storeMethod_countersTotal, storeCallTrace_countersTotal,
        storeMethod_tracesTotal, htraces]
      change p.callsTotal.toInt + 1 = p.countersTotal + _
      lia
    · rw [hmethods, storeMethod_tracesTotal, htraces]
      lia

theorem recordSample_other_countersTotal {p : Profiler}
    (h : p.CountsBounded) (hbound : p.callsTotal.toInt + 1 < 2 ^ 31)
    {outcome : Option AsgctCallTrace}
    (hother : isJavaSample outcome = false) :
    (p.recordSample outcome).countersTotal = p.countersTotal + 1 := by
  rcases recordSample_other hother with heq | heq | heq | heq <;>
    rw [heq] <;> simp only [Profiler.countersTotal, Profiler.countCall]
  · rw [h.counters.nonJava.toInt_succ hbound]
    ring
  · rw [h.counters.gc.toInt_succ hbound]
    ring
  · rw [h.counters.deopt.toInt_succ hbound]
    ring
  · rw [h.counters.unknown.toInt_succ hbound]
    ring

theorem recordSample_other_accounted {p : Profiler} (h : p.CountsBounded)
    (hacc : p.Accounted) (hbound : p.callsTotal.toInt + 1 < 2 ^ 31)
    {outcome : Option AsgctCallTrace}
    (hother : isJavaSample outcome = false) :
    (p.recordSample outcome).Accounted := by
  rcases recordSample_other_tables (p := p) hother with ⟨_, htraces, hmethods⟩
  have htotal := hacc.traces
  have hpairs := hacc.methods
  unfold Profiler.tracesTotal at htotal hpairs
  unfold Profiler.methodsTotal at hpairs
  constructor
  · unfold Profiler.tracesTotal
    rw [recordSample_callsTotal_toInt h hbound,
      recordSample_other_countersTotal h hbound hother, htraces]
    lia
  · unfold Profiler.tracesTotal Profiler.methodsTotal
    rw [htraces, hmethods]
    exact hpairs

theorem recordSample_accounted_iff {p : Profiler} (h : p.CountsBounded)
    (hnamed : p.MethodsNamed) (hacc : p.Accounted)
    (hbound : p.callsTotal.toInt + 1 < 2 ^ 31)
    (outcome : Option AsgctCallTrace) :
    (p.recordSample outcome).Accounted <-> p.SampleFits outcome := by
  cases hjava : isJavaSample outcome with
  | false =>
      refine iff_of_true (recordSample_other_accounted h hacc hbound hjava) ?_
      cases outcome with
      | none => trivial
      | some trace =>
          intro hframes
          exact absurd hframes (of_decide_eq_false hjava)
  | true =>
      cases outcome with
      | none => cases hjava
      | some trace =>
          exact recordSample_java_accounted_iff h hnamed hacc hbound
            (of_decide_eq_true hjava)

theorem Profiler.MethodsNamed.recordSample {p : Profiler}
    (hnamed : p.MethodsNamed) (h : p.CountsBounded)
    (hbound : p.callsTotal.toInt + 1 < 2 ^ 31)
    {outcome : Option AsgctCallTrace} (hmethods : NonNullMethods outcome) :
    (p.recordSample outcome).MethodsNamed := by
  cases hjava : isJavaSample outcome with
  | false =>
      unfold Profiler.MethodsNamed
      rw [(recordSample_other_tables hjava).right.right]
      exact hnamed
  | true =>
      cases outcome with
      | none => cases hjava
      | some trace =>
          have hframes : 0 < trace.numFrames := of_decide_eq_true hjava
          have hsame := storeCallTrace_methods p.countCall trace
          have hstored : (p.countCall.storeCallTrace trace).MethodsNamed := by
            unfold Profiler.MethodsNamed
            rw [hsame]
            exact hnamed
          have hwithin : (p.countCall.storeCallTrace trace).MethodsWithin
              p.callsTotal.toInt := by
            unfold Profiler.MethodsWithin
            rw [hsame]
            exact h.methods
          rw [recordSample_java hframes]
          exact hstored.storeMethod hwithin hbound (hmethods.top hframes)

/-!
## A whole run
-/

theorem clear_accounted (p : Profiler) : p.clear.Accounted := by
  constructor <;>
    simp [Profiler.clear, Profiler.countersTotal, Profiler.tracesTotal,
      Profiler.methodsTotal, CallTraceSample.zero, MethodSample.zero]

theorem clear_methodsNamed (p : Profiler) : p.clear.MethodsNamed := by
  intro i
  simp [Profiler.clear, MethodSample.zero]

theorem Profiler.Awaits.accounted_iff {p : Profiler}
    {outcomes : List (Option AsgctCallTrace)} (h : p.Awaits outcomes)
    (hnamed : p.MethodsNamed) (hacc : p.Accounted)
    (hmethods : forall outcome, outcome ∈ outcomes ->
      NonNullMethods outcome) :
    Machine.AllStates Profiler.recordSample Profiler.Accounted p outcomes <->
      Machine.AllSteps Profiler.recordSample Profiler.SampleFits p
        outcomes := by
  apply Machine.allStates_iff_allSteps
    (fun (p : Profiler) outcomes => p.Awaits outcomes ∧ p.MethodsNamed ∧
      forall outcome, outcome ∈ outcomes -> NonNullMethods outcome)
  · rintro p outcome rest ⟨hawaits, hnamed, _⟩ hacc
    exact recordSample_accounted_iff hawaits.counts hnamed hacc
      hawaits.calls_bound outcome
  · rintro p outcome rest ⟨hawaits, hnamed, hmethods⟩ _ _
    refine ⟨hawaits.recordSample, ?_, ?_⟩
    · exact hnamed.recordSample hawaits.counts hawaits.calls_bound
        (hmethods outcome List.mem_cons_self)
    · intro other hother
      exact hmethods other (List.mem_cons_of_mem outcome hother)
  · exact ⟨h, hnamed, hmethods⟩
  · exact hacc

theorem start_accounted {a : Process} (hstopped : a.profiler.running = false)
    (interval : Int64) :
    (a.start interval).profiler.Accounted ∧
      (a.start interval).profiler.MethodsNamed := by
  rw [start_of_stopped hstopped]
  exact ⟨clear_accounted _, clear_methodsNamed _⟩

/-- After a start of a stopped profiler, the samples are accounted for in every
state of a run exactly when each sample of the run fits when it is taken. -/
theorem accounted_iff_fits (a : Process) (interval : Int64)
    (hstopped : a.profiler.running = false)
    (outcomes : List (Option AsgctCallTrace))
    (hlength : outcomes.length < 2 ^ 31)
    (hmethods : forall outcome, outcome ∈ outcomes ->
      NonNullMethods outcome) :
    Machine.AllStates Profiler.recordSample Profiler.Accounted
        (a.start interval).profiler outcomes <->
      Machine.AllSteps Profiler.recordSample Profiler.SampleFits
        (a.start interval).profiler outcomes :=
  (start_awaits hstopped interval hlength).accounted_iff
    (start_accounted hstopped interval).right
    (start_accounted hstopped interval).left hmethods

/-- A trace of two frames whose hash value is zero, the mark of an empty
slot. -/
def zeroHashTrace : AsgctCallTrace :=
  AsgctCallTrace.ofFrames
    [{ bci := 17, methodId := 0x7f3a508e9f58 },
      { bci := 15589, methodId := 0x7f3a079c28e0 }] (by decide)

def firstBucketTrace : AsgctCallTrace :=
  AsgctCallTrace.ofFrames [{ bci := 3, methodId := 0x7f3a5004ddf0 }] (by decide)

/-- Another trace with this bucket. -/
def sameBucketTrace : AsgctCallTrace :=
  AsgctCallTrace.ofFrames [{ bci := 5, methodId := 0x7f3a5001f0b8 }] (by decide)

/-- Two traces that collide, and the first one again. -/
def collidingRun : List (Option AsgctCallTrace) :=
  [some firstBucketTrace, some sameBucketTrace, none, some firstBucketTrace]

theorem collidingRun_methods (outcome : Option AsgctCallTrace)
    (hmem : outcome ∈ collidingRun) : NonNullMethods outcome := by
  intro trace htrace
  rw [htrace] at hmem
  have hcases : trace = firstBucketTrace ∨ trace = sameBucketTrace ∨
      trace = firstBucketTrace := by
    simpa [collidingRun] using hmem
  rcases hcases with rfl | rfl | rfl <;> decide

theorem accounted_collidingRun :
    Machine.AllStates Profiler.recordSample Profiler.Accounted
      (Process.initial.start defaultInterval).profiler collidingRun := by
  apply (accounted_iff_fits Process.initial defaultInterval rfl collidingRun
    (by decide) collidingRun_methods).mpr
  refine ⟨?_, ?_, trivial, ?_, trivial⟩
  · intro _
    exact ⟨⟨0, by decide, by decide, Or.inr (by decide)⟩, ⟨0, by decide⟩⟩
  · intro _
    exact ⟨⟨1, by decide, by decide, Or.inr (by decide)⟩, ⟨0, by decide⟩⟩
  · intro _
    exact ⟨⟨0, by decide, by decide, Or.inl (by decide)⟩, ⟨0, by decide⟩⟩

/-- The second sample takes the slot of the first one and drops its count. -/
theorem not_accounted_zeroHashTrace :
    (forall outcome, outcome ∈ [some zeroHashTrace, some firstBucketTrace] ->
      NonNullMethods outcome) ∧
    ¬ Machine.AllStates Profiler.recordSample Profiler.Accounted
      (Process.initial.start defaultInterval).profiler
      [some zeroHashTrace, some firstBucketTrace] := by
  have hmethods : forall outcome,
      outcome ∈ [some zeroHashTrace, some firstBucketTrace] ->
      NonNullMethods outcome := by
    intro outcome hmem trace htrace
    rcases List.mem_pair.mp hmem with heq | heq <;>
      rw [heq] at htrace <;> cases htrace <;> decide
  refine ⟨hmethods, ?_⟩
  have hawaits : (Process.initial.start defaultInterval).profiler.Awaits
      [some zeroHashTrace, some firstBucketTrace] :=
    start_awaits rfl defaultInterval (by decide)
  rcases start_accounted (a := Process.initial) rfl defaultInterval with
    ⟨hacc, hnamed⟩
  rw [hawaits.accounted_iff hnamed hacc hmethods]
  intro hboth
  rcases hboth with ⟨_, hfits, _⟩
  have hlost := (traceFits_iff hawaits.recordSample.counts.traces _).mp
    (hfits (by decide)).left
  revert hlost
  decide

end Agent
end Franky
