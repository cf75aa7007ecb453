import Franky.Foundation.Machine
import Franky.Agent.Report
import Franky.Plugin.FlameTree

/-!
# Results the plugin can show

The plugin refuses a sample without frames, and its flame graph keeps the method
id zero for the root.  The agent drops a frame without a method from a sample,
but it counts the `NULL` method of such a top frame like any other.
-/

namespace Franky
namespace EndToEnd

open Foundation
open Foundation.Sorting (Qsort Contract mergeQsort mergeQsort_contract)
open Foundation.LinearProbing (Probe)
open Protocol
open Agent
open Plugin

/-- The flame tree is built from the result, and only its root has the id
zero. -/
structure InfoShowable (info : ProfilingInfo) : Prop where
  framed : forall sample, sample ∈ info.samples -> sample.frameList ≠ []
  built : exists t, FlameTree.ofSamples info.samples = Except.ok t
  samples : forall sample, sample ∈ info.samples ->
    forall frame, frame ∈ sample.frameList -> frame.jMethodId ≠ 0
  methods : forall sample, sample ∈ info.methods -> sample.jMethodId ≠ 0
  methodInfos : forall method, method ∈ info.methodInfos ->
    method.jMethodId ≠ 0

/-- The result message that the profiler would send in this state, for any
process and any registry of compiled methods. -/
def ReportShowable (qsort : Qsort maxCalltraces) (p : Profiler) : Prop :=
  forall names pid vm info,
    (p.writeResult qsort names pid vm).1.profInfo = some info ->
      InfoShowable info

/-- The top frame of a Java sample has a method. -/
def TopNamed (outcome : Option AsgctCallTrace) : Prop :=
  forall trace, outcome = some trace -> 0 < trace.numFrames ->
    (trace.frames 0).methodId ≠ 0

/-!
## Tables with named entries
-/

def TracesNamed (p : Profiler) : Prop :=
  forall i, (p.traces i).callCount ≠ 0 -> (p.traces i).namedFrames ≠ []

def MethodsNonNull (p : Profiler) : Prop :=
  forall i, (p.methods i).callCount ≠ 0 -> (p.methods i).method ≠ 0

/-- Every counted entry has a method. -/
structure TablesNamed (p : Profiler) : Prop where
  traces : TracesNamed p
  methods : MethodsNonNull p

variable {qsort : Qsort maxCalltraces} {p : Profiler}

theorem TablesNamed.infoShowable (hqsort : Contract qsort)
    (h : TablesNamed p) (names : JMethodId -> MethodName) (vm : VM) :
    InfoShowable (p.profilingInfo qsort names vm).1 := by
  have hframed : forall sample,
      sample ∈ (p.profilingInfo qsort names vm).1.samples ->
        sample.frameList ≠ [] := by
    intro sample hsample
    rw [profilingInfo_samples] at hsample
    rcases List.mem_map.mp hsample with ⟨entry, hentry, rfl⟩
    rcases exists_of_mem_countedTraces hqsort hentry with ⟨i, rfl, hcount⟩
    intro hnil
    exact h.traces i hcount (List.map_eq_nil_iff.mp hnil)
  have hmethod : forall entry, entry ∈ p.countedMethods qsort ->
      jMethodIdToId entry.method ≠ 0 := by
    intro entry hentry
    rcases exists_of_mem_countedMethods hqsort hentry with ⟨i, rfl, hcount⟩
    rw [ne_eq, jMethodIdToId_eq_zero_iff]
    exact h.methods i hcount
  have hframe : forall (entry : CallTraceSample) (frame : AsgctCallFrame),
      frame ∈ entry.namedFrames -> jMethodIdToId frame.methodId ≠ 0 := by
    intro entry frame hmem
    rw [ne_eq, jMethodIdToId_eq_zero_iff]
    exact (frame_mem_namedFrames.mp hmem).right
  constructor
  · exact hframed
  · rcases ofSamples_spec hframed with ⟨t, hok, _⟩
    exact ⟨t, hok⟩
  · intro sample hsample frame hmem
    rw [profilingInfo_samples] at hsample
    rcases List.mem_map.mp hsample with ⟨entry, _, rfl⟩
    rcases List.mem_map.mp hmem with ⟨named, hnamed, rfl⟩
    exact hframe entry named hnamed
  · intro sample hsample
    rw [profilingInfo_methods] at hsample
    rcases List.mem_map.mp hsample with ⟨entry, hentry, rfl⟩
    exact hmethod entry hentry
  · intro method hmem hzero
    have hid := List.mem_map_of_mem (f := MethodInfo.jMethodId) hmem
    rw [hzero] at hid
    rcases (mem_methodInfos_iff p vm).mp hid with
      ⟨entry, hentry, heq⟩ | ⟨entry, frame, _, hnamed, heq⟩
    · exact hmethod entry hentry heq
    · exact hframe entry frame hnamed heq

theorem TablesNamed.reportShowable (hqsort : Contract qsort)
    (h : TablesNamed p) : ReportShowable qsort p := by
  intro names pid vm info hinfo
  cases hinfo
  exact h.infoShowable hqsort names vm

theorem reportShowable_iff (hqsort : Contract qsort) (hcounts : p.CountsBounded) :
    ReportShowable qsort p <-> TablesNamed p := by
  constructor
  · intro h
    have hinfo := h (fun _ => ⟨"", "", ""⟩) 0 VM.initial _ rfl
    have htraces := fun i => (hcounts.traces.counts i).left
    have hmethods := fun i => (hcounts.methods i).left
    constructor
    · intro i hcount hnil
      have hpos : 0 < (p.traces i).callCount.toInt := by
        have hnonneg := htraces i
        rw [ne_eq, MachineInt.eq_zero_iff] at hcount
        lia
      have hmem : p.traces i ∈ p.countedTraces qsort :=
        (mem_countedTraces_iff hqsort htraces).mpr ⟨i, rfl, hpos⟩
      apply hinfo.framed (p.traces i).toInfo
      · rw [profilingInfo_samples]
        exact List.mem_map_of_mem hmem
      · exact List.map_eq_nil_iff.mpr hnil
    · intro i hcount hnull
      have hpos : 0 < (p.methods i).callCount.toInt := by
        have hnonneg := hmethods i
        rw [ne_eq, MachineInt.eq_zero_iff] at hcount
        lia
      have hmem : p.methods i ∈ p.countedMethods qsort :=
        (mem_countedMethods_iff hqsort hmethods).mpr ⟨i, rfl, hpos⟩
      apply hinfo.methods (p.methods i).toInfo
      · rw [profilingInfo_methods]
        exact List.mem_map_of_mem hmem
      · exact jMethodIdToId_eq_zero_iff.mpr hnull
  · exact fun h => h.reportShowable hqsort

/-!
## One sample

A sample keeps the counted entries named exactly when its top frame has a
method: a `NULL` method is always counted in an entry that `NULL` marks as
empty.
-/

theorem TracesNamed.storeCallTrace (h : TracesNamed p) {trace : AsgctCallTrace}
    (hframes : 0 < trace.numFrames) (htop : (trace.frames 0).methodId ≠ 0) :
    TracesNamed (p.storeCallTrace trace) := by
  cases hprobe : p.probeTrace (hashCallTrace trace) with
  | hit i =>
      have hcount : 0 < (p.traces i).callCount :=
        (of_decide_eq_true (LinearProbing.hit_of_probe_eq_hit hprobe)).right
      rw [storeCallTrace_hit hprobe]
      refine (Function.forall_update_iff p.traces
        (fun _ s => s.callCount ≠ 0 -> s.namedFrames ≠ [])).mpr
        ⟨fun _ => ?_, fun j _ => h j⟩
      apply h i
      intro hzero
      rw [hzero] at hcount
      exact absurd hcount (by decide)
  | stop i =>
      rw [storeCallTrace_stop hprobe]
      refine (Function.forall_update_iff p.traces
        (fun _ s => s.callCount ≠ 0 -> s.namedFrames ≠ [])).mpr
        ⟨fun _ => ?_, fun j _ => h j⟩
      apply List.ne_nil_of_mem (a := trace.frames 0)
      rw [frame_mem_namedFrames, assign_frameList]
      exact ⟨frame_zero_mem hframes, htop⟩

theorem MethodsNonNull.storeMethod_iff (h : MethodsNonNull p)
    (method : JMethodId) :
    MethodsNonNull (p.storeMethod method) <-> method ≠ 0 := by
  cases hprobe : p.probeMethod method with
  | hit i =>
      have hfound : (p.methods i).method = method :=
        of_decide_eq_true (LinearProbing.hit_of_probe_eq_hit hprobe)
      rw [storeMethod_hit hprobe]
      unfold MethodsNonNull
      rw [Function.forall_update_iff p.methods
        (fun _ s => s.callCount ≠ 0 -> s.method ≠ 0)]
      dsimp only
      rw [hfound]
      constructor
      · intro hnew hnull
        have hzero : (p.methods i).callCount = 0 := by
          by_contra hcount
          exact h i hcount (hfound.trans hnull)
        rw [hzero] at hnew
        exact hnew.left (by decide) hnull
      · intro hmethod
        exact ⟨fun _ => hmethod, fun j _ => h j⟩
  | stop i =>
      rw [storeMethod_stop hprobe]
      unfold MethodsNonNull
      rw [Function.forall_update_iff p.methods
        (fun _ s => s.callCount ≠ 0 -> s.method ≠ 0)]
      constructor
      · intro hnew
        have hone : (1 : Int32) ≠ 0 := by decide
        exact hnew.left hone
      · intro hmethod
        exact ⟨fun _ => hmethod, fun j _ => h j⟩

theorem TablesNamed.recordSample_iff (h : TablesNamed p)
    (outcome : Option AsgctCallTrace) :
    TablesNamed (p.recordSample outcome) <-> TopNamed outcome := by
  cases hjava : isJavaSample outcome with
  | false =>
      rcases recordSample_other_tables (p := p) hjava with
        ⟨_, htraces, hmethods⟩
      apply iff_of_true
      · constructor
        · unfold TracesNamed
          rw [htraces]
          exact h.traces
        · unfold MethodsNonNull
          rw [hmethods]
          exact h.methods
      · intro trace htrace hframes
        rw [htrace] at hjava
        exact absurd hframes (of_decide_eq_false hjava)
  | true =>
      cases outcome with
      | none => cases hjava
      | some trace =>
          have hframes : 0 < trace.numFrames := of_decide_eq_true hjava
          have hstored : MethodsNonNull (p.countCall.storeCallTrace trace) := by
            unfold MethodsNonNull
            rw [storeCallTrace_methods]
            exact h.methods
          have htop := hstored.storeMethod_iff (trace.frames 0).methodId
          rw [recordSample_java hframes]
          constructor
          · intro hnamed trace' htrace _
            cases htrace
            exact htop.mp hnamed.methods
          · intro hnamed
            have hmethod := hnamed trace rfl hframes
            have hcounted : TracesNamed p.countCall := h.traces
            constructor
            · unfold TracesNamed
              rw [storeMethod_traces]
              exact hcounted.storeCallTrace hframes hmethod
            · exact htop.mpr hmethod

/-!
## A whole run
-/

theorem start_tablesNamed {a : Process} (hstopped : a.profiler.running = false)
    (interval : Int64) : TablesNamed (a.start interval).profiler := by
  rw [start_of_stopped hstopped]
  constructor
  · intro i hcount
    exact absurd rfl hcount
  · intro i hcount
    exact absurd rfl hcount

theorem TablesNamed.allStates_iff (h : TablesNamed p)
    (outcomes : List (Option AsgctCallTrace)) :
    Machine.AllStates Profiler.recordSample TablesNamed p outcomes <->
      forall outcome, outcome ∈ outcomes -> TopNamed outcome := by
  have hsteps : Machine.AllSteps Profiler.recordSample
      (fun _ outcome => TopNamed outcome) p outcomes <->
        forall outcome, outcome ∈ outcomes -> TopNamed outcome :=
    Machine.allSteps_action_iff
  rw [← hsteps]
  apply Machine.allStates_iff_allSteps (fun _ _ => True)
  · intro p outcome _ _ hnamed
    exact hnamed.recordSample_iff outcome
  · intro _ _ _ _ _ _
    trivial
  · trivial
  · exact h

/-- While no count can wrap around, the result is showable in every state of the
run exactly when every counted entry is named there. -/
theorem Awaits.allStates_reportShowable_iff (hqsort : Contract qsort)
    {outcomes : List (Option AsgctCallTrace)} (h : p.Awaits outcomes) :
    Machine.AllStates Profiler.recordSample (ReportShowable qsort) p
        outcomes <->
      Machine.AllStates Profiler.recordSample TablesNamed p outcomes := by
  induction outcomes generalizing p with
  | nil => exact reportShowable_iff hqsort h.counts
  | cons outcome outcomes ih =>
      rw [Machine.allStates_cons, Machine.allStates_cons,
        reportShowable_iff hqsort h.counts, ih h.recordSample]

/-- After a start of a stopped profiler, the result can be shown in every state
of a run if every Java sample has a method in its top frame; and, for as long as
no count wraps around, only then. -/
theorem showable_iff_topsNamed (qsort : Qsort maxCalltraces)
    (hqsort : Contract qsort) (a : Process) (interval : Int64)
    (hstopped : a.profiler.running = false)
    (outcomes : List (Option AsgctCallTrace)) :
    ((forall outcome, outcome ∈ outcomes -> TopNamed outcome) ->
      Machine.AllStates Profiler.recordSample (ReportShowable qsort)
        (a.start interval).profiler outcomes) ∧
    (outcomes.length < 2 ^ 31 ->
      Machine.AllStates Profiler.recordSample (ReportShowable qsort)
        (a.start interval).profiler outcomes ->
          forall outcome, outcome ∈ outcomes -> TopNamed outcome) := by
  have hnamed := start_tablesNamed hstopped interval
  constructor
  · intro htops
    have hall := (hnamed.allStates_iff outcomes).mpr htops
    exact hall.mono (fun _ h => h.reportShowable hqsort)
  · intro hlength hall
    have hawaits := start_awaits hstopped interval hlength
    rw [Awaits.allStates_reportShowable_iff hqsort hawaits,
      hnamed.allStates_iff outcomes] at hall
    exact hall

/-- A Java sample of one frame whose method is `NULL`. -/
def nullTrace : AsgctCallTrace :=
  AsgctCallTrace.ofFrames [{ bci := 0, methodId := 0 }] (by decide)

/-- A Java sample whose top frame has a method and whose other one has none. -/
def namedTopTrace : AsgctCallTrace :=
  AsgctCallTrace.ofFrames
    [{ bci := 3, methodId := 0x7f3a5004ddf0 }, { bci := 0, methodId := 0 }]
    (by decide)

theorem showable_namedTopTrace :
    Machine.AllStates Profiler.recordSample (ReportShowable mergeQsort)
      (Process.initial.start defaultInterval).profiler
      [some namedTopTrace] := by
  apply (showable_iff_topsNamed mergeQsort mergeQsort_contract Process.initial
    defaultInterval rfl [some namedTopTrace]).left
  intro outcome hmem trace htrace _
  rw [List.mem_singleton.mp hmem] at htrace
  cases htrace
  decide

theorem not_showable_nullTrace :
    ¬ Machine.AllStates Profiler.recordSample (ReportShowable mergeQsort)
      (Process.initial.start defaultInterval).profiler
      [some nullTrace] := by
  have hawaits : (Process.initial.start defaultInterval).profiler.Awaits
      [some nullTrace] := start_awaits rfl defaultInterval (by decide)
  have hnamed := start_tablesNamed (a := Process.initial) rfl defaultInterval
  rw [Awaits.allStates_reportShowable_iff mergeQsort_contract hawaits,
    hnamed.allStates_iff]
  intro htops
  exact htops (some nullTrace) List.mem_cons_self nullTrace rfl (by decide)
    (by decide)

end EndToEnd
end Franky
