import Franky.Agent.TraceTable
import Franky.Agent.MethodTable
import Franky.Agent.Recorder

/-!
# What a stop reports

No count of a fresh agent is negative before a trace hash or a method has
occurred `2 ^ 31` times.  Until then the tables can be sorted again and again,
and every stop lists what was recorded.
-/

namespace Franky
namespace Agent

open Foundation
open Foundation.LinearProbing (Probe)
open Foundation.Sorting (Qsort Contract SameUpToTies mergeQsort)
open Protocol

variable {qsort : Qsort maxCalltraces} {env : Session}

/-!
## Counts that cannot wrap around
-/

/-- No trace hash and no top method occurs in `2 ^ 31` Java samples. -/
structure Countable (samples : List (Option AsgctCallTrace)) : Prop where
  hashes : forall hash,
    ((javaTraces samples).map hashCallTrace).count hash < 2 ^ 31
  tops : forall method,
    ((javaTraces samples).map AsgctCallTrace.topMethod).count method < 2 ^ 31

/-- An entry counts some of the occurrences of its key. -/
structure Profiler.CountsSome (p : Profiler) (stored : List AsgctCallTrace) :
    Prop where
  traces : forall i, Within ((stored.map hashCallTrace).count (p.hashes i))
    (p.traces i).callCount
  methods : forall i, Within
    ((stored.map AsgctCallTrace.topMethod).count (p.methods i).method)
    (p.methods i).callCount

theorem Within.count_concat {key : Type} [DecidableEq key] {keys : List key}
    {k : key} {x : Int32} (h : Within (keys.count k) x) (new : key) :
    Within ((keys ++ [new]).count k) x := by
  apply h.mono
  rw [List.count_append]
  lia

theorem Within.count_concat_self {key : Type} [DecidableEq key]
    {keys : List key} {k : key} {x : Int32} (h : Within (keys.count k) x)
    (hroom : (keys ++ [k]).count k < 2 ^ 31) :
    Within ((keys ++ [k]).count k) (x + 1) := by
  rw [List.count_append, List.count_singleton_self] at hroom ⊢
  have hsucc := h.succ (by lia)
  exact hsucc.mono (by lia)

theorem within_count_one {key : Type} [DecidableEq key] (keys : List key)
    (k : key) : Within ((keys ++ [k]).count k) 1 := by
  rw [List.count_append, List.count_singleton_self]
  have hone : Within ((keys.count k : Int) + 1) 1 := within_one (by lia)
  exact hone.mono (by lia)

theorem storeCallTrace_within {p : Profiler} {hashes : List UInt64}
    (h : forall i, Within (hashes.count (p.hashes i)) (p.traces i).callCount)
    (trace : AsgctCallTrace)
    (hroom : (hashes ++ [hashCallTrace trace]).count (hashCallTrace trace) <
      2 ^ 31) (i : Fin maxCalltraces) :
    Within ((hashes ++ [hashCallTrace trace]).count
        ((p.storeCallTrace trace).hashes i))
      ((p.storeCallTrace trace).traces i).callCount := by
  cases hprobe : p.probeTrace (hashCallTrace trace) with
  | hit j =>
      have hj : p.hashes j = hashCallTrace trace :=
        (of_decide_eq_true (LinearProbing.hit_of_probe_eq_hit hprobe)).left
      rw [storeCallTrace_hit hprobe]
      dsimp only
      rcases eq_or_ne i j with rfl | hne
      · have hi := h i
        rw [Function.update_self]
        rw [hj] at hi ⊢
        exact hi.count_concat_self hroom
      · rw [Function.update_of_ne hne]
        exact (h i).count_concat _
  | stop j =>
      rw [storeCallTrace_stop hprobe]
      dsimp only
      rcases eq_or_ne i j with rfl | hne
      · rw [Function.update_self, Function.update_self]
        exact within_count_one _ _
      · rw [Function.update_of_ne hne, Function.update_of_ne hne]
        exact (h i).count_concat _

theorem storeMethod_within {p : Profiler} {methods : List JMethodId}
    (h : forall i,
      Within (methods.count (p.methods i).method) (p.methods i).callCount)
    (method : JMethodId)
    (hroom : (methods ++ [method]).count method < 2 ^ 31)
    (i : Fin maxCalltraces) :
    Within ((methods ++ [method]).count ((p.storeMethod method).methods i).method)
      ((p.storeMethod method).methods i).callCount := by
  cases hprobe : p.probeMethod method with
  | hit j =>
      have hj : (p.methods j).method = method :=
        of_decide_eq_true (LinearProbing.hit_of_probe_eq_hit hprobe)
      rw [storeMethod_hit hprobe]
      dsimp only
      rcases eq_or_ne i j with rfl | hne
      · have hi := h i
        rw [Function.update_self]
        dsimp only
        rw [hj] at hi ⊢
        exact hi.count_concat_self hroom
      · rw [Function.update_of_ne hne]
        exact (h i).count_concat _
  | stop j =>
      rw [storeMethod_stop hprobe]
      dsimp only
      rcases eq_or_ne i j with rfl | hne
      · rw [Function.update_self]
        exact within_count_one _ _
      · rw [Function.update_of_ne hne]
        exact (h i).count_concat _

theorem Profiler.CountsSome.recordSample {p : Profiler}
    {samples : List (Option AsgctCallTrace)}
    (h : p.CountsSome (javaTraces samples)) {outcome : Option AsgctCallTrace}
    (hroom : Countable (samples ++ [outcome])) :
    (p.recordSample outcome).CountsSome (javaTraces (samples ++ [outcome])) := by
  have hsplit : javaTraces (samples ++ [outcome]) =
      javaTraces samples ++ javaTraces [outcome] := by
    simp [javaTraces, List.reduceOption_append]
  cases hjava : isJavaSample outcome with
  | false =>
      rcases recordSample_other_tables (p := p) hjava with
        ⟨hhashes, htraces, hmethods⟩
      rw [hsplit, javaTraces_other hjava, List.append_nil]
      constructor
      · rw [hhashes, htraces]
        exact h.traces
      · rw [hmethods]
        exact h.methods
  | true =>
      cases outcome with
      | none => cases hjava
      | some trace =>
          have hframes : 0 < trace.numFrames := of_decide_eq_true hjava
          have hhashes := hroom.hashes (hashCallTrace trace)
          have htops := hroom.tops trace.topMethod
          rw [hsplit, javaTraces_java hframes, List.map_append,
            List.map_singleton] at hhashes htops
          rw [hsplit, javaTraces_java hframes, recordSample_java hframes]
          constructor
          · intro i
            rw [storeMethod_traces, storeMethod_hashes, List.map_append]
            exact storeCallTrace_within (p := p.countCall) h.traces trace
              hhashes i
          · have hsame : forall i, Within
                (((javaTraces samples).map AsgctCallTrace.topMethod).count
                  ((p.countCall.storeCallTrace trace).methods i).method)
                ((p.countCall.storeCallTrace trace).methods i).callCount := by
              rw [storeCallTrace_methods]
              exact h.methods
            intro i
            rw [List.map_append]
            exact storeMethod_within hsame trace.topMethod htops i

theorem Countable.of_prefix {samples samples' : List (Option AsgctCallTrace)}
    (h : Countable samples') (hbegin : samples <+: samples') :
    Countable samples := by
  have hjava : (javaTraces samples).Sublist (javaTraces samples') :=
    (hbegin.sublist.filter _).filterMap id
  constructor
  · intro hash
    exact ((hjava.map hashCallTrace).count_le hash).trans_lt (h.hashes hash)
  · intro method
    exact ((hjava.map AsgctCallTrace.topMethod).count_le method).trans_lt
      (h.tops method)

theorem countable_of_length {samples : List (Option AsgctCallTrace)}
    (h : samples.length < 2 ^ 31) : Countable samples := by
  have hjava := length_javaTraces_le samples
  constructor
  · intro hash
    have hcount : ((javaTraces samples).map hashCallTrace).count hash ≤ _ :=
      List.count_le_length
    rw [List.length_map] at hcount
    lia
  · intro method
    have hcount : ((javaTraces samples).map AsgctCallTrace.topMethod).count method ≤
        _ := List.count_le_length
    rw [List.length_map] at hcount
    lia

theorem freshProfiler_countsSome {samples : List (Option AsgctCallTrace)}
    (h : Countable samples) :
    (freshProfiler samples).CountsSome (javaTraces samples) := by
  apply Machine.run_history
    (fun taken (q : Profiler) => q.CountsSome (javaTraces taken))
  · constructor <;> exact fun _ => within_zero (le_refl 0)
  · intro taken outcome hbegin hcounts
    exact hcounts.recordSample (h.of_prefix hbegin)

/-!
## A stop reports what was recorded
-/

/-- Each stop reports the counters of a fresh agent with the samples since the
last start that found the profiler stopped.  It also lists its samples and
methods, if it found the profiler running or no count has wrapped around. -/
theorem stop_reports_recorded (qsort : Qsort maxCalltraces)
    (hqsort : Contract qsort) (env : Session) (events : List AgentEvent)
    (hsamples : Machine.AllSteps (env.handle qsort) LoopState.Samples
      (env.begin Process.initial) events)
    (before : List AgentEvent)
    (hstop : before ++ [AgentEvent.stop] <+: events) :
    exists info fresh,
      env.report qsort before = some info ∧
      env.report qsort (freshEvents (recorded before).samples) = some fresh ∧
      SameCounters info fresh ∧
      ((recorded before).running = true ∨
          Countable (recorded before).samples -> SameLists info fresh) := by
  have hbegin := (List.prefix_append before [AgentEvent.stop]).trans hstop
  have hrecords := history_records hqsort (hsamples.of_prefix hbegin)
  rcases report_eq qsort env before with ⟨p, vm, hp, hinfo⟩
  rcases report_eq qsort env (freshEvents (recorded before).samples) with
    ⟨q, vm', hq, hfresh⟩
  rw [history_freshEvents] at hq
  have hshows : p.Shows q := by
    rw [hp, hq]
    rcases hrecords.shows with ⟨h₁, h₂, h₃, h₄, h₅, htraces, hmethods⟩
    exact ⟨h₁, h₂, h₃, h₄, h₅, htraces, hmethods⟩
  refine ⟨_, _, hinfo, hfresh, hshows.sameCounters qsort env.names vm vm', ?_⟩
  intro hcase
  rcases hcase with hrunning | hcountable
  · have heq : p = q := by
      rw [hp, hq, hrecords.recording hrunning]
    rw [heq]
    constructor
    · rw [profilingInfo_samples, profilingInfo_samples]
      exact SameUpToTies.refl _
    · rw [profilingInfo_methods, profilingInfo_methods]
      exact SameUpToTies.refl _
  · have hcounts := freshProfiler_countsSome hcountable
    apply hshows.sameLists hqsort
    · rw [hq]
      exact fun i => (hcounts.traces i).left
    · rw [hq]
      exact fun i => (hcounts.methods i).left

def ownTrace (method : JMethodId) : AsgctCallTrace :=
  AsgctCallTrace.ofFrames [⟨0, method⟩] (show 1 ≤ maxFrames by decide)

/-- Two runs of Java samples, the second one with a stack of the first. -/
def stoppedTwice : List AgentEvent :=
  [AgentEvent.start, AgentEvent.sample (some (ownTrace 39)), AgentEvent.stop,
    AgentEvent.start, AgentEvent.sample (some (ownTrace 228)),
    AgentEvent.sample (some (ownTrace 39)),
    AgentEvent.sample (some (ownTrace 228)), AgentEvent.stop]

/-- A stop that is repeated after them: the tables are sorted once more. -/
theorem stop_reports_recorded_repeated :
    exists info fresh,
      (plainSession []).report mergeQsort stoppedTwice = some info ∧
      (plainSession []).report mergeQsort (freshEvents
        [some (ownTrace 228), some (ownTrace 39), some (ownTrace 228)]) =
          some fresh ∧
      SameCounters info fresh ∧ SameLists info fresh := by
  have hsamples : Machine.AllSteps ((plainSession []).handle mergeQsort)
      LoopState.Samples ((plainSession []).begin Process.initial)
      (stoppedTwice ++ [AgentEvent.stop]) :=
    ⟨trivial, rfl, trivial, trivial, rfl, rfl, rfl, trivial, trivial, trivial⟩
  rcases stop_reports_recorded mergeQsort Sorting.mergeQsort_contract
    (plainSession []) _ hsamples stoppedTwice (List.prefix_refl _) with
    ⟨info, fresh, hinfo, hfresh, hcounters, hlists⟩
  exact ⟨info, fresh, hinfo, hfresh, hcounters,
    hlists (Or.inr (countable_of_length (by decide)))⟩

/-!
## A count that wraps around

A method that occurs `2 ^ 31` times gets the smallest count.  The comparator
puts it behind the zero counts and in front of the positive ones, so it may lie
behind a zero count after the first sorting and in front after the second.
-/

theorem recordSample_ownTrace (p : Profiler) (method : JMethodId) :
    p.recordSample (some (ownTrace method)) =
      (p.countCall.storeCallTrace (ownTrace method)).storeMethod method := by
  have hjava : (0 : Int32) < (ownTrace method).numFrames := by
    change (0 : Int32) < Int32.ofInt 1
    decide
  exact recordSample_java hjava

/-- A method that stays in its home bucket is counted with every sample. -/
theorem run_ownTrace_methods {p : Profiler} {method : JMethodId}
    {count : Int32}
    (h : p.methods (methodBucket method) =
      { callCount := count, method := method }) (n : Nat) :
    (Machine.run Profiler.recordSample p
        (List.replicate n (some (ownTrace method)))).methods =
      Function.update p.methods (methodBucket method)
        { callCount := count + Int32.ofNat n, method := method } := by
  induction n generalizing p count with
  | zero =>
      have hzero : count + Int32.ofNat 0 = count := Int32.add_zero count
      rw [hzero, ← h, Function.update_eq_self]
      rfl
  | succ n ih =>
      let q := p.countCall.storeCallTrace (ownTrace method)
      have hq : q.methods = p.methods := storeCallTrace_methods _ _
      have hhome : (q.methods (methodBucket method)).method = method := by
        rw [hq, h]
      have hstep : (p.recordSample (some (ownTrace method))).methods =
          Function.update p.methods (methodBucket method)
            { callCount := count + 1, method := method } := by
        rw [recordSample_ownTrace, storeMethod_home hhome, hq, h]
      have hnext : (p.recordSample (some (ownTrace method))).methods
          (methodBucket method) =
            { callCount := count + 1, method := method } := by
        rw [hstep, Function.update_self]
      rw [List.replicate_succ, Machine.run_cons, ih hnext, hstep]
      rw [Function.update_idem, Int32.add_assoc]
      rw [Int32.add_comm 1, Int32.ofNat_add n 1]
      rfl

/-- One method occurs once, and another one `n + 1` times. -/
def oneAndMany (n : Nat) : List (Option AsgctCallTrace) :=
  some (ownTrace 24784) :: List.replicate (n + 1) (some (ownTrace 12392))

def wrappedMethod : MethodSample :=
  { callCount := -2147483648, method := 12392 }

def otherMethod : MethodSample := { callCount := 1, method := 24784 }

def wrappedTable : Fin maxCalltraces -> MethodSample :=
  Function.update
    (Function.update (fun _ => MethodSample.zero) 2 otherMethod) 1
    wrappedMethod

theorem recordSample_empty_home {p : Profiler} {method : JMethodId}
    (hne : method ≠ 0) (h : (p.methods (methodBucket method)).method = 0) :
    (p.recordSample (some (ownTrace method))).methods =
      Function.update p.methods (methodBucket method)
        { callCount := 1, method := method } := by
  let q := p.countCall.storeCallTrace (ownTrace method)
  have hq : q.methods = p.methods := storeCallTrace_methods _ _
  have hhome : (q.methods (methodBucket method)).method = 0 := by
    rw [hq, h]
  rw [recordSample_ownTrace, storeMethod_home_empty hne hhome, hq]

theorem freshProfiler_oneAndMany {n : Nat}
    (hn : 1 + Int32.ofNat n = -2147483648) :
    (freshProfiler (oneAndMany n)).methods = wrappedTable := by
  have hone : methodBucket 24784 = 2 := by decide
  have hmany : methodBucket 12392 = 1 := by decide
  let p := (Process.initial.start defaultInterval).profiler
  have hfirst : (p.recordSample (some (ownTrace 24784))).methods =
      Function.update (fun _ => MethodSample.zero) 2
        { callCount := 1, method := 24784 } := by
    rw [recordSample_empty_home (by decide) rfl, hone]
    rfl
  let q := p.recordSample (some (ownTrace 24784))
  have hempty : (q.methods (methodBucket 12392)).method = 0 := by
    rw [hfirst, hmany]
    rfl
  have hsecond : (q.recordSample (some (ownTrace 12392))).methods =
      Function.update q.methods 1 { callCount := 1, method := 12392 } := by
    rw [recordSample_empty_home (by decide) hempty, hmany]
  have hhome : (q.recordSample (some (ownTrace 12392))).methods
      (methodBucket 12392) = { callCount := 1, method := 12392 } := by
    rw [hsecond, hmany, Function.update_self]
  unfold freshProfiler oneAndMany
  rw [Machine.run_cons, List.replicate_succ, Machine.run_cons]
  rw [run_ownTrace_methods hhome, hsecond, hmany, hfirst]
  rw [Function.update_idem, hn]
  rfl

theorem ofFn_sorted {xs : Fin maxCalltraces -> MethodSample}
    {front : List MethodSample} (hlength : front.length = 4)
    (hfront : forall sample, sample ∈ front ->
      decide (MethodSample.comparator sample MethodSample.zero ≤ 0) = true)
    (h : List.ofFn xs =
      front ++ List.replicate (4 * (2 ^ 13 - 1)) MethodSample.zero) :
    List.ofFn (mergeQsort MethodSample MethodSample.comparator xs) =
      front.mergeSort
          (fun x y => decide (MethodSample.comparator x y ≤ 0)) ++
        List.replicate (4 * (2 ^ 13 - 1)) MethodSample.zero := by
  rw [Sorting.ofFn_mergeQsort, h, ← hlength]
  exact Sorting.mergeSort_append_replicate hfront (by decide) 13

theorem ofFn_wrappedTable : List.ofFn wrappedTable =
      [MethodSample.zero, wrappedMethod, otherMethod, MethodSample.zero] ++
        List.replicate (4 * (2 ^ 13 - 1)) MethodSample.zero := by
  have hsize : maxCalltraces = 4 + 4 * (2 ^ 13 - 1) := by decide
  apply List.ext_getElem
  · rw [List.length_ofFn, List.length_append, List.length_replicate]
    exact hsize
  · intro i hi hi'
    rw [List.getElem_ofFn, List.getElem_append]
    split
    · next hfront =>
        rw [List.length_cons, List.length_cons, List.length_cons,
          List.length_singleton] at hfront
        rcases i with _ | _ | _ | _ | i
        · rfl
        · rfl
        · rfl
        · rfl
        · omega
    · next hback =>
        rw [List.getElem_replicate]
        rw [List.length_cons, List.length_cons, List.length_cons,
          List.length_singleton] at hback
        unfold wrappedTable
        rw [Function.update_of_ne, Function.update_of_ne]
        · intro heq
          have hval := congrArg Fin.val heq
          change i = 2 at hval
          omega
        · intro heq
          have hval := congrArg Fin.val heq
          change i = 1 at hval
          omega

/-- Zero counts go in front of the smallest count, and it in front of them. -/
theorem comparator_wrapped_zero :
    MethodSample.zero.comparator MethodSample.zero ≤ 0 ∧
      MethodSample.zero.comparator wrappedMethod ≤ 0 ∧
      wrappedMethod.comparator MethodSample.zero ≤ 0 := by decide

theorem comparator_other :
    otherMethod.comparator MethodSample.zero ≤ 0 ∧
      ¬ MethodSample.zero.comparator otherMethod ≤ 0 ∧
      ¬ otherMethod.comparator wrappedMethod ≤ 0 := by decide

theorem mergeSort_wrapped :
    [MethodSample.zero, wrappedMethod, otherMethod,
        MethodSample.zero].mergeSort
      (fun x y => decide (MethodSample.comparator x y ≤ 0)) =
        [otherMethod, MethodSample.zero, wrappedMethod, MethodSample.zero] := by
  rw [Sorting.mergeSort_four]
  simp [comparator_wrapped_zero, comparator_other]

theorem mergeSort_wrapped_again :
    [otherMethod, MethodSample.zero, wrappedMethod,
        MethodSample.zero].mergeSort
      (fun x y => decide (MethodSample.comparator x y ≤ 0)) =
        [wrappedMethod, otherMethod, MethodSample.zero, MethodSample.zero] := by
  rw [Sorting.mergeSort_four]
  simp [comparator_wrapped_zero, comparator_other]

theorem countedMethods_of_ofFn {p : Profiler} {front : List MethodSample}
    (h : List.ofFn (mergeQsort MethodSample MethodSample.comparator p.methods) =
      front ++ List.replicate (4 * (2 ^ 13 - 1)) MethodSample.zero) :
    p.countedMethods mergeQsort =
      (front ++ List.replicate (4 * (2 ^ 13 - 1))
        MethodSample.zero).takeWhile (fun sample => sample.callCount != 0) := by
  rw [← h]
  rfl

theorem countedMethods_wrapped {p q : Profiler} (hp : p.methods = wrappedTable)
    (hq : q.methods =
      mergeQsort MethodSample MethodSample.comparator p.methods) :
    p.countedMethods mergeQsort = [otherMethod] ∧
      q.countedMethods mergeQsort = [wrappedMethod, otherMethod] := by
  have hfirst := ofFn_sorted rfl
    (by simp [comparator_wrapped_zero, comparator_other]) ofFn_wrappedTable
  rw [mergeSort_wrapped, ← hp] at hfirst
  have hsecond := ofFn_sorted rfl
    (by simp [comparator_wrapped_zero, comparator_other]) hfirst
  rw [mergeSort_wrapped_again, ← hq] at hsecond
  have hother : (otherMethod.callCount != 0) = true := by decide
  have hwrapped : (wrappedMethod.callCount != 0) = true := by decide
  have hzero : (MethodSample.zero.callCount != 0) = false := by decide
  rw [countedMethods_of_ofFn hfirst, countedMethods_of_ofFn hsecond]
  constructor
  · simp only [List.cons_append, List.takeWhile_cons, hother, hzero, if_true,
      Bool.false_eq_true, if_false]
  · simp only [List.cons_append, List.takeWhile_cons, hother, hwrapped, hzero,
      if_true, Bool.false_eq_true, if_false]

theorem allSteps_freshEvents (qsort : Qsort maxCalltraces) (env : Session)
    (samples : List (Option AsgctCallTrace)) :
    Machine.AllSteps (env.handle qsort) LoopState.Samples
      (env.begin Process.initial) (freshEvents samples) := by
  have hall : forall st : LoopState, st.process.profiler.running = true ->
      Machine.AllSteps (env.handle qsort) LoopState.Samples st
        (samples.map AgentEvent.sample) := by
    induction samples with
    | nil => exact fun _ _ => trivial
    | cons outcome samples ih =>
        intro st hrunning
        refine ⟨hrunning, ih _ ?_⟩
        exact (sample_running st.process outcome).trans hrunning
  exact ⟨trivial, hall _ (start_running _ _)⟩

theorem recorded_freshEvents (samples : List (Option AsgctCallTrace)) :
    recorded (freshEvents samples) =
      { running := true, samples := samples } := by
  have hrun : forall r : Recorder, Machine.run Recorder.step r
      (samples.map AgentEvent.sample) =
        { r with samples := r.samples ++ samples } := by
    induction samples with
    | nil =>
        intro r
        rw [List.append_nil]
        rfl
    | cons outcome samples ih =>
        intro r
        rw [List.map_cons, Machine.run_cons, ih]
        simp [Recorder.step]
  exact hrun _

/-- When a count has wrapped around, a stop that is repeated does not list what
the first stop lists. -/
theorem not_sameLists_wrapped {n : Nat}
    (hn : 1 + Int32.ofNat n = -2147483648) (env : Session)
    {info fresh : ProfilingInfo}
    (hinfo : env.report mergeQsort (freshEvents (oneAndMany n) ++
      [AgentEvent.stop]) = some info)
    (hfresh : env.report mergeQsort (freshEvents (oneAndMany n)) =
      some fresh) : ¬ SameLists info fresh := by
  rcases report_eq mergeQsort env (freshEvents (oneAndMany n)) with
    ⟨p, vm, hp, hreport⟩
  rcases report_eq mergeQsort env (freshEvents (oneAndMany n) ++
    [AgentEvent.stop]) with ⟨q, vm', hq, hreport'⟩
  rw [hreport] at hfresh
  rw [hreport'] at hinfo
  cases hfresh
  cases hinfo
  rw [history_freshEvents] at hp
  have hmethods : p.methods = wrappedTable := by
    rw [hp, ← freshProfiler_oneAndMany hn]
  have hmethods' : q.methods =
      mergeQsort MethodSample MethodSample.comparator p.methods := by
    rw [hq, hp, ← history_freshEvents mergeQsort env]
    unfold Session.history
    rw [Machine.run_concat]
    change mergeQsort MethodSample MethodSample.comparator
      (Process.stop _).profiler.methods = _
    rw [profiler_stop]
  rcases countedMethods_wrapped hmethods hmethods' with ⟨hcounted, hcounted'⟩
  intro hsame
  have hlength := hsame.methods.perm.length_eq
  rw [profilingInfo_methods, profilingInfo_methods, hcounted, hcounted']
    at hlength
  cases hlength

theorem repeated_stop_wrapped {n : Nat}
    (hn : 1 + Int32.ofNat n = -2147483648) (env : Session) :
    Machine.AllSteps (env.handle mergeQsort) LoopState.Samples
        (env.begin Process.initial)
        (freshEvents (oneAndMany n) ++ [AgentEvent.stop, AgentEvent.stop]) ∧
      forall info fresh,
        env.report mergeQsort (freshEvents (oneAndMany n) ++
          [AgentEvent.stop]) = some info ->
        env.report mergeQsort (freshEvents (recorded
          (freshEvents (oneAndMany n) ++ [AgentEvent.stop])).samples) =
            some fresh ->
        ¬ SameLists info fresh := by
  constructor
  · exact Machine.allSteps_append.mpr
      ⟨allSteps_freshEvents _ _ _, trivial, trivial, trivial⟩
  · intro info fresh hinfo hfresh
    have hrecorded : (recorded (freshEvents (oneAndMany n) ++
        [AgentEvent.stop])).samples = oneAndMany n := by
      rw [recorded, Machine.run_concat, ← recorded, recorded_freshEvents]
      rfl
    rw [hrecorded] at hfresh
    exact not_sameLists_wrapped hn env hinfo hfresh

/-- One sample of one method and `2 ^ 31` of another one, and two stops. -/
theorem not_sameLists_repeatedStop :
    Machine.AllSteps ((plainSession []).handle mergeQsort) LoopState.Samples
        ((plainSession []).begin Process.initial)
        (freshEvents (oneAndMany 2147483647) ++
          [AgentEvent.stop, AgentEvent.stop]) ∧
      forall info fresh,
        (plainSession []).report mergeQsort
          (freshEvents (oneAndMany 2147483647) ++ [AgentEvent.stop]) =
            some info ->
        (plainSession []).report mergeQsort (freshEvents (recorded
          (freshEvents (oneAndMany 2147483647) ++
            [AgentEvent.stop])).samples) = some fresh ->
        ¬ SameLists info fresh :=
  repeated_stop_wrapped (by decide) (plainSession [])

end Agent
end Franky
