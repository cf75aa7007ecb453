import Mathlib.Data.List.Forall2
import Franky.Agent.SendResponse
import Franky.Agent.StopReports

/-!
# The life of an agent

A library that has been loaded stays in its process, with its profiler.  When
it is attached again, the request loop runs on what the sessions before have
left, and a session that has ended without a stop leaves the profiler running.
Over all of its sessions the agent is one recorder.

The sessions here are those of one loaded library.  The plugin's `connect`
copies the library to a new file each time, and so begins with a fresh agent.
-/

namespace Franky
namespace Agent

open Foundation
open Foundation.Sorting (Qsort Contract SameUpToTies mergeQsort)
open Protocol

/-!
## Sessions of one agent
-/

/-- A session, and the samples taken since the one before it. -/
structure Visit where
  idle : List (Option AsgctCallTrace)
  session : Session

def requestEvents : RequestType -> List AgentEvent
  | RequestType.startProfiling => [AgentEvent.start]
  | RequestType.stopProfiling => [AgentEvent.stop]
  | RequestType.detach => []

/-- What a session does that has handled so many requests and sent so many
messages, and in which these requests are still read. -/
def Session.events (env : Session) : Nat -> Nat -> List RequestType ->
    List AgentEvent
  | handled, _, [] => (env.samples handled).map AgentEvent.sample
  | handled, messages, type :: types =>
      (env.samples handled).map AgentEvent.sample ++ requestEvents type ++
        match type with
        | RequestType.startProfiling =>
            env.events (handled + 1) messages types
        | RequestType.stopProfiling =>
            if env.sendSucceeds messages then
              env.events (handled + 1) (messages + 1) types
            else []
        | RequestType.detach => []

section Life

variable (qsort : Qsort maxCalltraces) (parse : List UInt8 -> Option RequestType)

def Visit.events (visit : Visit) : List AgentEvent :=
  visit.idle.map AgentEvent.sample ++
    if visit.session.sendSucceeds 0 then
      visit.session.events 0 1
        (requestsRead parse (visit.session.reads.length + 1)
          visit.session.reads)
    else []

/-- The agent after the visits, and the messages that it has sent in them. -/
def Process.life : Process -> List Visit -> Option (Process × List Response)
  | a, [] => some (a, [])
  | a, visit :: visits =>
      (visit.session.handleRequestLoop qsort parse
        (visit.idle.foldl Process.sample a)).bind (fun returned =>
          (life returned.2.process visits).map (fun rest =>
            (rest.1, returned.2.sent ++ rest.2)))

def results (sent : List Response) : List ProfilingInfo :=
  sent.filterMap Response.profInfo

end Life

/-!
## What the sessions have to report
-/

/-- The profiler is sampled only while it runs. -/
def Recorder.Samples (r : Recorder) : AgentEvent -> Prop
  | AgentEvent.sample _ => r.running = true
  | _ => True

/-- A stop reports what has been recorded. -/
def Recorder.reported (r : Recorder) : AgentEvent -> Option Recorder
  | AgentEvent.stop => some r
  | _ => none

/-- What each stop has to report. -/
def Recorder.reports (r : Recorder) (events : List AgentEvent) :
    List Recorder :=
  Machine.outputs Recorder.step Recorder.reported r events

/-- The result has the counters of a fresh agent that was started and took the
samples recorded.  It also lists its samples and methods, if the recorder was
running or no count has wrapped around. -/
structure Reports (qsort : Qsort maxCalltraces) (r : Recorder)
    (info : ProfilingInfo) : Prop where
  counters : forall names vm, SameCounters info
    ((freshProfiler r.samples).profilingInfo qsort names vm).1
  lists : r.running = true ∨ Countable r.samples -> forall names vm,
    SameLists info ((freshProfiler r.samples).profilingInfo qsort names vm).1

variable {qsort : Qsort maxCalltraces}
  {parse : List UInt8 -> Option RequestType} {env : Session}

/-!
## One session as a run of events
-/

theorem served_sameAgent (qsort : Qsort maxCalltraces) (env : Session)
    (st : LoopState) (reads : List (List UInt8)) (type : RequestType) :
    (Machine.run (env.handle qsort) st
      ((env.samples st.handled.length).map AgentEvent.sample ++
        requestEvents type)).SameAgent (env.served qsort st reads type).1 := by
  have hwaiting := waiting_sameAgent qsort env st
  have hnoted : (Machine.run (env.handle qsort) st
      ((env.samples st.handled.length).map AgentEvent.sample)).SameAgent
        (env.note (env.waiting st) reads type) :=
    hwaiting.trans ⟨rfl, rfl, rfl⟩
  rw [Machine.run_append]
  cases type with
  | startProfiling => exact hnoted.handle AgentEvent.start
  | stopProfiling => exact hnoted.handle AgentEvent.stop
  | detach => exact hnoted

theorem served_handled_length (qsort : Qsort maxCalltraces) (env : Session)
    (st : LoopState) (reads : List (List UInt8)) (type : RequestType) :
    (env.served qsort st reads type).1.handled.length =
      st.handled.length + 1 := by
  rw [served_handled, List.length_append, List.length_singleton]

/-- The loop goes through the events of its session. -/
theorem loop_sameAgent {rounds : Nat} {st st' : LoopState} {code : Int32}
    (h : env.loop qsort parse rounds st = some (code, st')) :
    (Machine.run (env.handle qsort) st
      (env.events st.handled.length st.sent.length
        (requestsRead parse rounds st.reads))).SameAgent st' := by
  induction rounds generalizing st with
  | zero => cases h
  | succ rounds ih =>
      have hwaiting := waiting_sameAgent qsort env st
      cases hread : readRequest parse st.reads with
      | mk result reads =>
          cases result with
          | endOfStream =>
              rw [loop_endOfStream hread] at h
              cases h
              simp only [requestsRead, hread, Session.events]
              exact hwaiting.trans ⟨rfl, rfl, rfl⟩
          | unreadable =>
              rw [loop_unreadable hread] at h
              cases h
              simp only [requestsRead, hread, Session.events]
              exact hwaiting.trans ⟨rfl, rfl, rfl⟩
          | request type =>
              have hserved := served_sameAgent qsort env st reads type
              have hcode := served_code qsort env st reads type
              have hrest : forall messages,
                  messages = (env.served qsort st reads type).1.sent.length ->
                  env.loop qsort parse rounds
                    (env.served qsort st reads type).1 = some (code, st') ->
                  (Machine.run (env.handle qsort)
                    (env.served qsort st reads type).1
                    (env.events (st.handled.length + 1) messages
                      (requestsRead parse rounds reads))).SameAgent st' := by
                intro messages hmessages hloop
                have hrun := ih hloop
                rw [served_handled_length, ← hmessages, served_reads] at hrun
                exact hrun
              have hsent := served_sent_length qsort env st reads type
              rw [loop_request hread] at h
              simp only [requestsRead, hread, Session.events]
              rw [Machine.run_append]
              cases type with
              | startProfiling =>
                  rw [hcode] at h
                  exact (hserved.run _).trans (hrest _ hsent.symm h)
              | stopProfiling =>
                  cases hsend : env.sendSucceeds st.sent.length with
                  | true =>
                      simp only [hcode, hsend, if_true] at h
                      rw [if_pos rfl]
                      exact (hserved.run _).trans (hrest _ hsent.symm h)
                  | false =>
                      simp only [hcode, hsend, Bool.false_eq_true,
                        if_false] at h
                      cases h
                      rw [if_neg Bool.false_ne_true]
                      exact hserved
              | detach =>
                  rw [hcode] at h
                  cases h
                  exact hserved

/-!
## The agent and the recorder
-/

def Session.reported (qsort : Qsort maxCalltraces) (env : Session)
    (st : LoopState) : AgentEvent -> Option ProfilingInfo
  | AgentEvent.stop => (env.result qsort st).profInfo
  | _ => none

theorem results_append (sent sent' : List Response) :
    results (sent ++ sent') = results sent ++ results sent' :=
  List.filterMap_append

theorem results_run (st : LoopState) (events : List AgentEvent) :
    results (Machine.run (env.handle qsort) st events).sent =
      results st.sent ++
        Machine.outputs (env.handle qsort) (env.reported qsort) st events := by
  induction events generalizing st with
  | nil => exact (List.append_nil _).symm
  | cons event events ih =>
      rw [Machine.run_cons, ih, Machine.outputs_cons, ← List.append_assoc]
      congr 1
      cases event with
      | start => exact (List.append_nil _).symm
      | stop => exact results_append _ _
      | sample outcome => exact (List.append_nil _).symm

theorem reports_of_shows (hqsort : Contract qsort) {p : Profiler}
    {r : Recorder} (hshows : p.Shows (freshProfiler r.samples))
    (hrecording : r.running = true ->
      p.traces = (freshProfiler r.samples).traces ∧
        p.methods = (freshProfiler r.samples).methods)
    (names : JMethodId -> MethodName) (vm : VM) :
    Reports qsort r (p.profilingInfo qsort names vm).1 := by
  constructor
  · intro names' vm'
    exact ⟨hshows.callsTotal, hshows.callsNonJava, hshows.callsGc,
      hshows.callsDeopt, hshows.callsUnknown⟩
  · intro hcase names' vm'
    rcases hcase with hrunning | hcountable
    · rcases hrecording hrunning with ⟨htraces, hmethods⟩
      constructor
      · rw [profilingInfo_samples, profilingInfo_samples,
          Profiler.countedTraces, Profiler.countedTraces, htraces]
        exact SameUpToTies.refl _
      · rw [profilingInfo_methods, profilingInfo_methods,
          Profiler.countedMethods, Profiler.countedMethods, hmethods]
        exact SameUpToTies.refl _
    · have hcounts := freshProfiler_countsSome hcountable
      rcases hshows.sameLists hqsort (fun i => (hcounts.traces i).left)
        (fun i => (hcounts.methods i).left) names vm vm' with
        ⟨hsamples, hmethods⟩
      constructor
      · rw [profilingInfo_samples] at hsamples ⊢
        rw [profilingInfo_samples] at hsamples ⊢
        exact hsamples
      · rw [profilingInfo_methods] at hmethods ⊢
        rw [profilingInfo_methods] at hmethods ⊢
        exact hmethods

theorem Profiler.Records.stop_reports (hqsort : Contract qsort)
    {st : LoopState} {r : Recorder} (h : st.process.profiler.Records r)
    (env : Session) :
    exists info, (env.result qsort st).profInfo = some info ∧
      Reports qsort r info := by
  refine ⟨_, rfl, ?_⟩
  have hstop := profiler_stop st.process
  have hshows : st.process.stop.profiler.Shows (freshProfiler r.samples) := by
    rw [hstop]
    exact ⟨h.shows.callsTotal, h.shows.callsNonJava, h.shows.callsGc,
      h.shows.callsDeopt, h.shows.callsUnknown, h.shows.traces,
      h.shows.methods⟩
  apply reports_of_shows hqsort hshows
  intro hrunning
  rw [hstop, ← h.recording hrunning]
  exact ⟨rfl, rfl⟩

/-- A run of events that the recorder allows keeps the agent a recorder, and the
stops report what has been recorded. -/
theorem Profiler.Records.run (hqsort : Contract qsort) {st : LoopState}
    {r : Recorder} (h : st.process.profiler.Records r) (env : Session)
    {events : List AgentEvent}
    (hsamples : Machine.AllSteps Recorder.step Recorder.Samples r events) :
    (Machine.run (env.handle qsort) st events).process.profiler.Records
        (Machine.run Recorder.step r events) ∧
      List.Forall₂ (Reports qsort) (r.reports events)
        (Machine.outputs (env.handle qsort) (env.reported qsort) st
          events) := by
  have hallowed : forall (r : Recorder) (st : LoopState) event,
      r.Samples event -> st.process.profiler.Records r ->
        st.Samples event := by
    intro r st event hevent hrecords
    cases event with
    | start => exact trivial
    | stop => exact trivial
    | sample outcome => exact hrecords.running.trans hevent
  have hstep : forall (r : Recorder) (st : LoopState) event,
      r.Samples event -> st.process.profiler.Records r ->
        (env.handle qsort st event).process.profiler.Records
          (r.step event) := by
    intro r st event hevent hrecords
    exact hrecords.handle hqsort event (hallowed r st event hevent hrecords)
  constructor
  · exact Machine.run_related
      (fun r (st : LoopState) => st.process.profiler.Records r) hstep h hsamples
  · apply Machine.outputs_related
      (fun r (st : LoopState) => st.process.profiler.Records r) (Reports qsort)
      hstep _ h hsamples
    intro r st event _ hrecords
    cases event with
    | start => exact Option.Rel.none
    | stop =>
        rcases hrecords.stop_reports hqsort env with
          ⟨info, hinfo, hreports⟩
        change Option.Rel _ (some r) (env.result qsort st).profInfo
        rw [hinfo]
        exact Option.Rel.some hreports
    | sample outcome => exact Option.Rel.none

/-!
## One session
-/

theorem Profiler.Records.foldl_sample {a : Process} {r : Recorder}
    (h : a.profiler.Records r) {outcomes : List (Option AsgctCallTrace)}
    (hsamples : Machine.AllSteps Recorder.step Recorder.Samples r
      (outcomes.map AgentEvent.sample)) :
    (outcomes.foldl Process.sample a).profiler.Records
      (Machine.run Recorder.step r (outcomes.map AgentEvent.sample)) := by
  induction outcomes generalizing a r with
  | nil => exact h
  | cons outcome outcomes ih =>
      exact ih (h.sample (h.running.trans hsamples.left) outcome)
        hsamples.right

theorem reports_samples (r : Recorder)
    (outcomes : List (Option AsgctCallTrace)) :
    r.reports (outcomes.map AgentEvent.sample) = [] := by
  induction outcomes generalizing r with
  | nil => rfl
  | cons outcome outcomes ih => exact ih _

theorem Profiler.Records.visit (hqsort : Contract qsort) {a : Process}
    {r : Recorder} (h : a.profiler.Records r) (visit : Visit)
    (hsamples : Machine.AllSteps Recorder.step Recorder.Samples r
      (visit.events parse)) :
    exists code st,
      visit.session.handleRequestLoop qsort parse
        (visit.idle.foldl Process.sample a) = some (code, st) ∧
      st.process.profiler.Records
        (Machine.run Recorder.step r (visit.events parse)) ∧
      List.Forall₂ (Reports qsort) (r.reports (visit.events parse))
        (results st.sent) := by
  rcases handleRequestLoop_returns qsort parse visit.session
    (visit.idle.foldl Process.sample a) with ⟨⟨code, st⟩, hreturn⟩
  refine ⟨code, st, hreturn, ?_⟩
  unfold Visit.events at hsamples ⊢
  rcases Machine.allSteps_append.mp hsamples with ⟨hidle, hloop⟩
  have hbegin := h.foldl_sample hidle
  unfold Recorder.reports
  rw [Machine.run_append, Machine.outputs_append]
  have hquiet := reports_samples r visit.idle
  unfold Recorder.reports at hquiet
  rw [hquiet, List.nil_append]
  unfold Session.handleRequestLoop at hreturn
  cases hinit : visit.session.sendSucceeds 0 with
  | true =>
      rw [hinit, if_pos rfl] at hreturn hloop
      rw [if_pos rfl]
      have hsame := loop_sameAgent hreturn
      have hbegin' : (visit.session.begin
          (visit.idle.foldl Process.sample a)).process.profiler.Records
            (Machine.run Recorder.step r
              (visit.idle.map AgentEvent.sample)) := hbegin
      rcases hbegin'.run hqsort visit.session hloop with
        ⟨hrecords, hreports⟩
      rw [← hsame.process, ← hsame.sent, results_run]
      exact ⟨hrecords, hreports⟩
  | false =>
      rw [hinit, if_neg Bool.false_ne_true] at hreturn
      rw [if_neg Bool.false_ne_true]
      cases hreturn
      exact ⟨hbegin, List.Forall₂.nil⟩

/-!
## All sessions
-/

theorem Profiler.Records.life (hqsort : Contract qsort) {a : Process}
    {r : Recorder} (h : a.profiler.Records r) {visits : List Visit}
    (hsamples : Machine.AllSteps Recorder.step Recorder.Samples r
      (visits.flatMap (Visit.events parse))) :
    exists a' sent, a.life qsort parse visits = some (a', sent) ∧
      a'.profiler.Records (Machine.run Recorder.step r
        (visits.flatMap (Visit.events parse))) ∧
      List.Forall₂ (Reports qsort)
        (r.reports (visits.flatMap (Visit.events parse))) (results sent) := by
  induction visits generalizing a r with
  | nil => exact ⟨a, [], rfl, h, List.Forall₂.nil⟩
  | cons visit visits ih =>
      rw [List.flatMap_cons] at hsamples ⊢
      rcases Machine.allSteps_append.mp hsamples with ⟨hvisit, hrest⟩
      rcases h.visit hqsort visit hvisit with
        ⟨code, st, hreturn, hrecords, hreports⟩
      rcases ih hrecords hrest with ⟨a', sent, hlife, hrecords', hreports'⟩
      refine ⟨a', st.sent ++ sent, ?_, ?_, ?_⟩
      · rw [Process.life, hreturn, Option.bind_some, hlife]
        rfl
      · rw [Machine.run_append]
        exact hrecords'
      · rw [Recorder.reports, Machine.outputs_append, results_append]
        exact List.rel_append hreports hreports'

/-- Over all of its sessions an agent is one recorder: the results that it sends
in them are, in order, what the recorder has to report at each stop. -/
theorem life_reports (qsort : Qsort maxCalltraces) (hqsort : Contract qsort)
    (parse : List UInt8 -> Option RequestType) (visits : List Visit)
    (hsamples : Machine.AllSteps Recorder.step Recorder.Samples
      Recorder.initial (visits.flatMap (Visit.events parse))) :
    exists a sent,
      Process.initial.life qsort parse visits = some (a, sent) ∧
      a.profiler.running =
        (recorded (visits.flatMap (Visit.events parse))).running ∧
      List.Forall₂ (Reports qsort)
        (Recorder.initial.reports (visits.flatMap (Visit.events parse)))
        (results sent) := by
  rcases records_initial.life hqsort hsamples with
    ⟨a, sent, hlife, hrecords, hreports⟩
  exact ⟨a, sent, hlife, hrecords.running, hreports⟩

/-- A session that ends without a stop, and one that begins with a stop. -/
def leftRunning : List Visit :=
  [{ idle := [],
     session := plainSession [requestFrame RequestType.startProfiling] },
   { idle := [none],
     session := plainSession [requestFrame RequestType.stopProfiling] }]

/-- The second session reports what was sampled after the first one. -/
theorem life_reports_leftRunning :
    exists a sent,
      Process.initial.life mergeQsort parseRequest leftRunning =
        some (a, sent) ∧
      a.profiler.running = false ∧
      List.Forall₂ (Reports mergeQsort)
        [{ running := true, samples := [none] }] (results sent) := by
  have hevents : leftRunning.flatMap (Visit.events parseRequest) =
      [AgentEvent.start, AgentEvent.sample none, AgentEvent.stop] := rfl
  have hlife := life_reports mergeQsort Sorting.mergeQsort_contract
    parseRequest leftRunning (by
      rw [hevents]
      exact ⟨trivial, rfl, trivial, trivial⟩)
  rw [hevents] at hlife
  exact hlife

end Agent
end Franky
