import Franky.Agent.SessionEnd

/-!
# The agent as a recorder

What a stop has to report is said by a recorder that keeps a flag and the
samples since the last start that changed it.  The agent keeps tables instead,
which every report sorts in place, and clears them with the next start.
-/

namespace Franky
namespace Agent

open Foundation
open Foundation.Sorting (Qsort Contract SameUpToTies)
open Protocol

/-!
## The specification
-/

/-- What one request loop handles. -/
inductive AgentEvent where
  | start
  | stop
  | sample (outcome : Option AsgctCallTrace)

/-- A flag, and the samples since the last start that changed it. -/
structure Recorder where
  running : Bool
  samples : List (Option AsgctCallTrace)

namespace Recorder

def initial : Recorder := { running := false, samples := [] }

def step (r : Recorder) : AgentEvent -> Recorder
  | AgentEvent.start => if r.running then r else { running := true, samples := [] }
  | AgentEvent.stop => { r with running := false }
  | AgentEvent.sample outcome => { r with samples := r.samples ++ [outcome] }

end Recorder

def recorded (events : List AgentEvent) : Recorder :=
  Machine.run Recorder.step Recorder.initial events

def freshEvents (samples : List (Option AsgctCallTrace)) : List AgentEvent :=
  AgentEvent.start :: samples.map AgentEvent.sample

structure SameCounters (info info' : ProfilingInfo) : Prop where
  callsTotal : info.callsTotal = info'.callsTotal
  callsNonJava : info.callsNonJava = info'.callsNonJava
  callsGc : info.callsGc = info'.callsGc
  callsDeopt : info.callsDeopt = info'.callsDeopt
  callsUnknown : info.callsUnknown = info'.callsUnknown

/-- Two results list the same samples and methods, up to the order of entries
with equal counts. -/
structure SameLists (info info' : ProfilingInfo) : Prop where
  samples : SameUpToTies CallTraceSampleInfo.callCount info.samples
    info'.samples
  methods : SameUpToTies MethodSampleInfo.callCount info.methods info'.methods

/-!
## The agent
-/

section Agent

variable (qsort : Qsort maxCalltraces) (env : Session)

/-- The request loop, one event at a time. -/
def Session.handle (st : LoopState) : AgentEvent -> LoopState
  | AgentEvent.start => (env.serve qsort st RequestType.startProfiling).1
  | AgentEvent.stop => (env.serve qsort st RequestType.stopProfiling).1
  | AgentEvent.sample outcome =>
      { st with process := st.process.sample outcome }

/-- Samples occur only while the profiler is running. -/
def LoopState.Samples (st : LoopState) : AgentEvent -> Prop
  | AgentEvent.sample _ => st.process.profiler.running = true
  | _ => True

/-- The loop of a freshly loaded agent, after the events. -/
def Session.history (events : List AgentEvent) : LoopState :=
  Machine.run (env.handle qsort) (env.begin Process.initial) events

/-- What a stop reports that comes after the events. -/
def Session.report (events : List AgentEvent) : Option ProfilingInfo :=
  (env.history qsort (events ++ [AgentEvent.stop])).sent.getLast?.bind
    Response.profInfo

end Agent

variable {qsort : Qsort maxCalltraces} {env : Session}

/-!
### The loop as a run of events
-/

/-- The states differ at most in what is left to read and what was noted. -/
structure LoopState.SameAgent (st st' : LoopState) : Prop where
  process : st.process = st'.process
  vm : st.vm = st'.vm
  sent : st.sent = st'.sent

theorem LoopState.SameAgent.refl (st : LoopState) : st.SameAgent st :=
  ⟨rfl, rfl, rfl⟩

theorem LoopState.SameAgent.trans {st₁ st₂ st₃ : LoopState}
    (h : st₁.SameAgent st₂) (h' : st₂.SameAgent st₃) : st₁.SameAgent st₃ :=
  ⟨h.process.trans h'.process, h.vm.trans h'.vm, h.sent.trans h'.sent⟩

theorem LoopState.SameAgent.handle {st st' : LoopState}
    (h : st.SameAgent st') (event : AgentEvent) :
    (env.handle qsort st event).SameAgent (env.handle qsort st' event) := by
  rcases st with ⟨process, vm, reads, handled, sent⟩
  rcases st' with ⟨process', vm', reads', handled', sent'⟩
  rcases h with ⟨rfl, rfl, rfl⟩
  cases event <;> exact ⟨rfl, rfl, rfl⟩

theorem LoopState.SameAgent.run {st st' : LoopState} (h : st.SameAgent st')
    (events : List AgentEvent) :
    (Machine.run (env.handle qsort) st events).SameAgent
      (Machine.run (env.handle qsort) st' events) := by
  induction events generalizing st st' with
  | nil => exact h
  | cons event events ih => exact ih (h.handle event)

theorem waiting_sameAgent (qsort : Qsort maxCalltraces) (env : Session)
    (st : LoopState) :
    (Machine.run (env.handle qsort) st
      ((env.samples st.handled.length).map AgentEvent.sample)).SameAgent
        (env.waiting st) := by
  unfold Session.waiting
  generalize env.samples st.handled.length = samples
  induction samples generalizing st with
  | nil => exact LoopState.SameAgent.refl st
  | cons outcome samples ih => exact ih _

/-- Serving a request is a run of samples and one more event. -/
theorem served_events (qsort : Qsort maxCalltraces) (env : Session)
    (st : LoopState) (reads : List (List UInt8)) (type : RequestType) :
    exists events, (Machine.run (env.handle qsort) st events).SameAgent
      (env.served qsort st reads type).1 := by
  have hwaiting := waiting_sameAgent qsort env st
  have hnoted : (Machine.run (env.handle qsort) st
      ((env.samples st.handled.length).map AgentEvent.sample)).SameAgent
        (env.note (env.waiting st) reads type) :=
    hwaiting.trans ⟨rfl, rfl, rfl⟩
  cases type with
  | startProfiling =>
      refine ⟨(env.samples st.handled.length).map AgentEvent.sample ++
        [AgentEvent.start], ?_⟩
      rw [Machine.run_concat]
      exact hnoted.handle AgentEvent.start
  | stopProfiling =>
      refine ⟨(env.samples st.handled.length).map AgentEvent.sample ++
        [AgentEvent.stop], ?_⟩
      rw [Machine.run_concat]
      exact hnoted.handle AgentEvent.stop
  | detach => exact ⟨_, hnoted⟩

/-- However the loop ends, its agent has run through a list of events. -/
theorem loop_events {parse : List UInt8 -> Option RequestType} {rounds : Nat}
    {st st' : LoopState} {code : Int32}
    (h : env.loop qsort parse rounds st = some (code, st')) :
    exists events,
      (Machine.run (env.handle qsort) st events).SameAgent st' := by
  induction rounds generalizing st with
  | zero => cases h
  | succ rounds ih =>
      have hwaiting := waiting_sameAgent qsort env st
      cases hread : readRequest parse st.reads with
      | mk result reads =>
          cases result with
          | endOfStream =>
              rw [loop_endOfStream hread] at h
              cases h
              exact ⟨_, hwaiting.trans ⟨rfl, rfl, rfl⟩⟩
          | unreadable =>
              rw [loop_unreadable hread] at h
              cases h
              exact ⟨_, hwaiting.trans ⟨rfl, rfl, rfl⟩⟩
          | request type =>
              rcases served_events qsort env st reads type with
                ⟨events, hserved⟩
              rw [loop_request hread] at h
              cases hcode : (env.served qsort st reads type).2 with
              | some code =>
                  rw [hcode] at h
                  cases h
                  exact ⟨events, hserved⟩
              | none =>
                  rw [hcode] at h
                  rcases ih h with ⟨rest, hrest⟩
                  refine ⟨events ++ rest, ?_⟩
                  rw [Machine.run_append]
                  exact (hserved.run rest).trans hrest

/-!
## The agent records
-/

/-- The profiler of a fresh agent that was started and took the samples. -/
def freshProfiler (samples : List (Option AsgctCallTrace)) : Profiler :=
  Machine.run Profiler.recordSample
    (Process.initial.start defaultInterval).profiler samples

/-- The profilers have the same counters, and the same entries in some order. -/
structure Profiler.Shows (p q : Profiler) : Prop where
  callsTotal : p.callsTotal = q.callsTotal
  callsNonJava : p.callsNonJava = q.callsNonJava
  callsGc : p.callsGc = q.callsGc
  callsDeopt : p.callsDeopt = q.callsDeopt
  callsUnknown : p.callsUnknown = q.callsUnknown
  traces : exists order : Equiv.Perm (Fin maxCalltraces),
    p.traces = q.traces ∘ order
  methods : exists order : Equiv.Perm (Fin maxCalltraces),
    p.methods = q.methods ∘ order

theorem Profiler.Shows.refl (p : Profiler) : p.Shows p :=
  ⟨rfl, rfl, rfl, rfl, rfl, ⟨Equiv.refl _, rfl⟩, ⟨Equiv.refl _, rfl⟩⟩

/-- The profiler has recorded what the recorder has. -/
structure Profiler.Records (p : Profiler) (r : Recorder) : Prop where
  running : p.running = r.running
  shows : p.Shows (freshProfiler r.samples)
  recording : r.running = true -> p = freshProfiler r.samples

theorem profiler_stop (a : Process) :
    a.stop.profiler = { a.profiler with running := false } := by
  cases hrunning : a.profiler.running with
  | true => rw [stop_of_running hrunning]
  | false =>
      rw [stop_of_stopped hrunning, ← hrunning]

theorem Profiler.Shows.writeResult (hqsort : Contract qsort) {p q : Profiler}
    (h : p.Shows q) (names : JMethodId -> MethodName) (pid : Int32) (vm : VM) :
    (p.writeResult qsort names pid vm).2.1.Shows q := by
  rcases h.traces with ⟨order, htraces⟩
  rcases h.methods with ⟨order', hmethods⟩
  rcases hqsort.rearranges _ CallTraceSample.comparator p.traces with
    ⟨sorting, hsorted⟩
  rcases hqsort.rearranges _ MethodSample.comparator p.methods with
    ⟨sorting', hsorted'⟩
  refine ⟨h.callsTotal, h.callsNonJava, h.callsGc, h.callsDeopt,
    h.callsUnknown, ⟨sorting.trans order, ?_⟩, ⟨sorting'.trans order', ?_⟩⟩
  · change qsort CallTraceSample CallTraceSample.comparator p.traces = _
    rw [hsorted, htraces]
    rfl
  · change qsort MethodSample MethodSample.comparator p.methods = _
    rw [hsorted', hmethods]
    rfl

theorem records_start (a : Process) (hstopped : a.profiler.running = false) :
    (a.start defaultInterval).profiler.Records
      { running := true, samples := [] } := by
  have heq : (a.start defaultInterval).profiler = freshProfiler [] := by
    rw [start_of_stopped hstopped]
    rfl
  rw [heq]
  exact ⟨rfl, Profiler.Shows.refl _, fun _ => rfl⟩

theorem Profiler.Records.sample {p : Profiler} {r : Recorder}
    (h : p.Records r) (hrunning : p.running = true)
    (outcome : Option AsgctCallTrace) :
    (p.recordSample outcome).Records
      { r with samples := r.samples ++ [outcome] } := by
  have hsame : r.running = true := h.running.symm.trans hrunning
  have heq : p.recordSample outcome =
      freshProfiler (r.samples ++ [outcome]) := by
    rw [freshProfiler, Machine.run_concat, h.recording hsame, freshProfiler]
  refine ⟨?_, ?_, fun _ => heq⟩
  · exact (recordSample_running p outcome).trans h.running
  · rw [heq]
    exact Profiler.Shows.refl _

theorem records_stop {q : Profiler} {r : Recorder}
    (hstopped : q.running = false) (hshows : q.Shows (freshProfiler r.samples)) :
    q.Records { r with running := false } where
  running := hstopped
  shows := hshows
  recording := by
    intro hrunning
    cases hrunning

/-- One event of the loop is one event of the recorder. -/
theorem Profiler.Records.handle (hqsort : Contract qsort) {st : LoopState}
    {r : Recorder} (h : st.process.profiler.Records r) (event : AgentEvent)
    (hsamples : st.Samples event) :
    (env.handle qsort st event).process.profiler.Records (r.step event) := by
  cases event with
  | start =>
      change (st.process.start defaultInterval).profiler.Records
        (r.step AgentEvent.start)
      rw [Recorder.step]
      cases hrunning : r.running with
      | true =>
          rw [if_pos rfl, start_of_running (h.running.trans hrunning)]
          exact h
      | false =>
          rw [if_neg Bool.false_ne_true]
          exact records_start _ (h.running.trans hrunning)
  | stop =>
      have hstopped : st.process.stop.profiler.Shows
          (freshProfiler r.samples) := by
        rw [profiler_stop]
        exact ⟨h.shows.callsTotal, h.shows.callsNonJava, h.shows.callsGc,
          h.shows.callsDeopt, h.shows.callsUnknown, h.shows.traces,
          h.shows.methods⟩
      apply records_stop
      · exact stop_running st.process
      · exact hstopped.writeResult hqsort env.names env.pid st.vm
  | sample outcome => exact h.sample hsamples outcome

theorem records_initial : Process.initial.profiler.Records Recorder.initial where
  running := rfl
  shows := ⟨rfl, rfl, rfl, rfl, rfl, ⟨Equiv.refl _, rfl⟩, ⟨Equiv.refl _, rfl⟩⟩
  recording := by
    intro hrunning
    cases hrunning

theorem history_records (hqsort : Contract qsort) {events : List AgentEvent}
    (hsamples : Machine.AllSteps (env.handle qsort) LoopState.Samples
      (env.begin Process.initial) events) :
    (env.history qsort events).process.profiler.Records (recorded events) :=
  Machine.run_related (fun (st : LoopState) r => st.process.profiler.Records r)
    (fun _ _ event hevent h => h.handle hqsort event hevent)
    records_initial hsamples

/-!
## Reports
-/

theorem report_eq (qsort : Qsort maxCalltraces) (env : Session)
    (events : List AgentEvent) :
    exists p vm, p = { (env.history qsort events).process.profiler with
        running := false } ∧
      env.report qsort events =
        some (p.profilingInfo qsort env.names vm).1 := by
  refine ⟨_, (env.history qsort events).vm, rfl, ?_⟩
  rw [← profiler_stop]
  unfold Session.report Session.history
  rw [Machine.run_concat]
  change ((_ ++ [_]).getLast?).bind Response.profInfo = _
  rw [List.getLast?_concat]
  rfl

theorem history_freshEvents (qsort : Qsort maxCalltraces) (env : Session)
    (samples : List (Option AsgctCallTrace)) :
    (env.history qsort (freshEvents samples)).process.profiler =
      freshProfiler samples := by
  have hrun : forall st : LoopState, (Machine.run (env.handle qsort) st
      (samples.map AgentEvent.sample)).process.profiler =
        Machine.run Profiler.recordSample st.process.profiler samples := by
    induction samples with
    | nil => exact fun _ => rfl
    | cons outcome samples ih => exact fun st => ih _
  exact hrun _

theorem Profiler.Shows.sameCounters {p q : Profiler} (h : p.Shows q)
    (qsort : Qsort maxCalltraces) (names : JMethodId -> MethodName)
    (vm vm' : VM) :
    SameCounters (p.profilingInfo qsort names vm).1
      (q.profilingInfo qsort names vm').1 :=
  ⟨h.callsTotal, h.callsNonJava, h.callsGc, h.callsDeopt, h.callsUnknown⟩

theorem Profiler.Shows.sameLists (hqsort : Contract qsort) {p q : Profiler}
    (h : p.Shows q) (htraces : forall i, 0 ≤ (q.traces i).callCount.toInt)
    (hmethods : forall i, 0 ≤ (q.methods i).callCount.toInt)
    (names : JMethodId -> MethodName) (vm vm' : VM) :
    SameLists (p.profilingInfo qsort names vm).1
      (q.profilingInfo qsort names vm').1 where
  samples := by
    rw [profilingInfo_samples, profilingInfo_samples]
    apply SameUpToTies.map (fun _ => rfl)
    rcases h.traces with ⟨order, heq⟩
    have hp : forall i, 0 ≤ (p.traces i).callCount.toInt := by
      rw [heq]
      exact fun i => htraces (order i)
    exact Sorting.reported_sameUpToTies htraces h.traces
      (hqsort.sortedPermutation (Sorting.descending_orders htraces))
      (hqsort.sortedPermutation (Sorting.descending_orders hp))
  methods := by
    rw [profilingInfo_methods, profilingInfo_methods]
    apply SameUpToTies.map (fun _ => rfl)
    rcases h.methods with ⟨order, heq⟩
    have hp : forall i, 0 ≤ (p.methods i).callCount.toInt := by
      rw [heq]
      exact fun i => hmethods (order i)
    exact Sorting.reported_sameUpToTies hmethods h.methods
      (hqsort.sortedPermutation (Sorting.descending_orders hmethods))
      (hqsort.sortedPermutation (Sorting.descending_orders hp))

end Agent
end Franky
