import Franky.Agent.Life
import Franky.Plugin.TabRequests

/-!
# A tab and its agent

The plugin's buttons decide which requests the agent reads.  As long as each of
them comes in reads of its own and every answer can be sent, the agent runs
exactly while the stop button is enabled, and each result has what was sampled
between a click on start and the next click on stop.
-/

namespace Franky
namespace EndToEnd

open Foundation
open Foundation.ByteStream (Boundary)
open Foundation.Sorting
open Protocol
open Agent
open Plugin

variable {qsort : Qsort maxCalltraces}
  {parse : List UInt8 -> Option RequestType} {env : Session}

/-!
## Requests that come one at a time
-/

/-- Each of the requests is the end of a read. -/
structure OneAtATime (reads : List (List UInt8))
    (requests : List RequestType) : Prop where
  chunks : forall chunk, chunk ∈ reads -> chunk ≠ []
  flat : reads.flatten = requests.flatMap requestFrame
  ends : forall n, n ≤ requests.length -> Boundary reads (3 * n)

theorem oneAtATime_frames (requests : List RequestType) :
    OneAtATime (requests.map requestFrame) requests where
  chunks := by
    intro chunk hmem
    rcases List.mem_map.mp hmem with ⟨type, _, rfl⟩
    exact List.cons_ne_nil _ _
  flat := List.flatMap_def.symm
  ends := by
    intro n hn
    refine ⟨(requests.take n).map requestFrame,
      (requests.drop n).map requestFrame, ?_, ?_⟩
    · rw [← List.map_append, List.take_append_drop]
    · have hframe : List.length ∘ requestFrame = fun _ => 3 := rfl
      rw [List.length_flatten, List.map_map, hframe, List.map_const',
        List.sum_replicate, List.length_take_of_le hn, smul_eq_mul, mul_comm]

theorem OneAtATime.read {type : RequestType} {types : List RequestType}
    {reads : List (List UInt8)} (h : OneAtATime reads (type :: types))
    (hparse : ParsesRequests parse) :
    exists reads', readRequest parse reads =
        (ReadResult.request type, reads') ∧ OneAtATime reads' types := by
  have hflat := h.flat
  rw [List.flatMap_cons] at hflat
  rcases readRequest_frame hparse h.chunks hflat with ⟨s, hread, hconsumed⟩
  refine ⟨s.pending, hread, ?_⟩
  have hend := hconsumed.buffer_eq_nil_iff.mpr
    (h.ends 1 (Nat.le_add_left 1 types.length))
  rcases hconsumed.split_of_buffer_nil hend with ⟨taken, htaken, hbytes⟩
  have hlength : taken.flatten.length = 3 := by
    rw [hbytes]
    rfl
  constructor
  · intro chunk hmem
    apply h.chunks
    rw [htaken]
    exact List.mem_append_right _ hmem
  · have hrest := hconsumed.rest_of_flatten hflat
    rw [ByteStream.Input.rest, hend] at hrest
    exact hrest
  · intro n hn
    have hboundary := h.ends (n + 1) (Nat.succ_le_succ hn)
    have hshift : 3 * (n + 1) = taken.flatten.length + 3 * n := by
      rw [hlength]
      lia
    rw [htaken, hshift] at hboundary
    exact ByteStream.boundary_append_iff.mp hboundary

theorem OneAtATime.requestsRead {types : List RequestType}
    {reads : List (List UInt8)} (h : OneAtATime reads types)
    (hparse : ParsesRequests parse) {rounds : Nat}
    (hrounds : reads.length < rounds) :
    Agent.requestsRead parse rounds reads = types := by
  induction types generalizing reads rounds with
  | nil =>
      have hnil := reads_eq_nil h.chunks h.flat
      cases rounds with
      | zero => cases hrounds
      | succ rounds =>
          rw [Agent.requestsRead, hnil, readRequest_nil]
  | cons type types ih =>
      rcases h.read hparse with ⟨reads', hread, hrest⟩
      have hshorter := readRequest_length hread
      cases rounds with
      | zero => cases hrounds
      | succ rounds =>
          simp only [Agent.requestsRead, hread]
          rw [ih hrest (hshorter.trans_le (Nat.le_of_lt_succ hrounds))]

/-!
## Requests in turn
-/

/-- What each stop among the requests has to report: the samples taken since the
request before it. -/
def stopReports (samples : Nat -> List (Option AsgctCallTrace)) :
    Nat -> List RequestType -> List Recorder
  | _, [] => []
  | n, RequestType.stopProfiling :: types =>
      { running := true, samples := samples n } ::
        stopReports samples (n + 1) types
  | n, _ :: types => stopReports samples (n + 1) types

theorem run_samples (r : Recorder) (outcomes : List (Option AsgctCallTrace)) :
    Machine.run Recorder.step r (outcomes.map AgentEvent.sample) =
      { r with samples := r.samples ++ outcomes } := by
  induction outcomes generalizing r with
  | nil =>
      rw [List.append_nil]
      rfl
  | cons outcome outcomes ih =>
      rw [List.map_cons, Machine.run_cons, ih]
      simp [Recorder.step]

theorem allSteps_samples {r : Recorder} (h : r.running = true)
    (outcomes : List (Option AsgctCallTrace)) :
    Machine.AllSteps Recorder.step Recorder.Samples r
      (outcomes.map AgentEvent.sample) := by
  induction outcomes generalizing r with
  | nil => trivial
  | cons outcome outcomes ih => exact ⟨h, ih h⟩

/-- The agent is sampled only while it waits for a stop. -/
def SampledInTurn (samples : Nat -> List (Option AsgctCallTrace)) : Prop :=
  forall n, n % 2 = 0 -> samples n = []

/-- What a recorder makes of requests in turn. -/
theorem recorder_inTurn (hsends : forall n, env.sendSucceeds n = true)
    (hsampled : SampledInTurn env.samples) {b b' : Bool}
    {types : List RequestType} (hturn : InTurn b types b') {r : Recorder}
    {n m : Nat} (hrunning : r.running = b)
    (hempty : b = true -> r.samples = []) (hplace : n % 2 = b.toNat) :
    Machine.AllSteps Recorder.step Recorder.Samples r
        (env.events n m types) ∧
      (Machine.run Recorder.step r (env.events n m types)).running = b' ∧
      r.reports (env.events n m types) =
        stopReports env.samples n types := by
  induction hturn generalizing r n m with
  | nil b =>
      cases b with
      | true =>
          rw [Session.events, run_samples, reports_samples]
          exact ⟨allSteps_samples hrunning _, hrunning, rfl⟩
      | false =>
          rw [Session.events, hsampled n hplace]
          exact ⟨trivial, hrunning, rfl⟩
  | @start types b' _ ih =>
      have hnext := ih (r := { running := true, samples := [] }) (n := n + 1)
        (m := m) rfl (fun _ => rfl) (by
          rw [Bool.toNat_false] at hplace
          rw [Bool.toNat_true]
          lia)
      have hstep : r.step AgentEvent.start =
          { running := true, samples := [] } := by
        rw [Recorder.step, hrunning]
        rfl
      rw [Session.events, hsampled n hplace]
      rw [← hstep] at hnext
      exact ⟨⟨trivial, hnext.left⟩, hnext.right.left, hnext.right.right⟩
  | @stop types b' _ ih =>
      have hwait : Machine.run Recorder.step r
          ((env.samples n).map AgentEvent.sample) =
            { running := true, samples := env.samples n } := by
        rw [run_samples, hempty rfl, hrunning]
        rfl
      have hnext := ih (r := { running := false, samples := env.samples n })
        (n := n + 1) (m := m + 1) rfl (fun h => by cases h) (by
          rw [Bool.toNat_true] at hplace
          rw [Bool.toNat_false]
          lia)
      rw [Session.events, if_pos (hsends m)]
      refine ⟨?_, ?_, ?_⟩
      · rw [List.append_assoc, Machine.allSteps_append, hwait]
        exact ⟨allSteps_samples hrunning _, trivial, hnext.left⟩
      · rw [List.append_assoc, Machine.run_append, hwait]
        exact hnext.right.left
      · rw [List.append_assoc, Recorder.reports, Machine.outputs_append, hwait]
        have hquiet := reports_samples r (env.samples n)
        unfold Recorder.reports at hquiet
        rw [hquiet, List.nil_append]
        exact congrArg (List.cons _) hnext.right.right

/-!
## The tab drives the agent
-/

theorem session_inTurn (hqsort : Contract qsort) (hparse : ParsesRequests parse)
    {requests : List RequestType} {running : Bool}
    (hturn : InTurn false requests running)
    (hreads : OneAtATime env.reads requests)
    (hsends : forall n, env.sendSucceeds n = true)
    (hsampled : SampledInTurn env.samples) {process : Process}
    (hstopped : process.profiler.running = false) :
    exists code st,
      env.handleRequestLoop qsort parse process = some (code, st) ∧
      st.process.profiler.running = running ∧
      List.Forall₂ (Reports qsort) (stopReports env.samples 0 requests)
        (results st.sent) := by
  rcases handleRequestLoop_returns qsort parse env process with
    ⟨⟨code, st⟩, hreturn⟩
  refine ⟨code, st, hreturn, ?_⟩
  rw [Session.handleRequestLoop, if_pos (hsends 0)] at hreturn
  have hsame : (Machine.run (env.handle qsort) (env.begin process)
      (env.events 0 1 (requestsRead parse (env.reads.length + 1)
        env.reads))).SameAgent st := loop_sameAgent hreturn
  rw [hreads.requestsRead hparse (Nat.lt_succ_self _)] at hsame
  rw [← hsame.process, ← hsame.sent]
  cases hturn with
  | nil =>
      rw [Session.events, hsampled 0 rfl]
      exact ⟨hstopped, List.Forall₂.nil⟩
  | @start types _ hrest =>
      -- the first start clears what earlier sessions have left
      have hrecords : (env.handle qsort (env.begin process)
          AgentEvent.start).process.profiler.Records
            { running := true, samples := [] } := records_start process hstopped
      rcases recorder_inTurn hsends hsampled hrest
        (r := { running := true, samples := [] }) (n := 1) (m := 1) rfl
        (fun _ => rfl) rfl with ⟨hsamples, hrunning, hstops⟩
      rcases hrecords.run hqsort env hsamples with
        ⟨hafter, hreports⟩
      rw [Session.events, hsampled 0 rfl]
      constructor
      · exact hafter.running.trans hrunning
      · rw [results_run]
        rw [hstops] at hreports
        exact hreports

/-- In every run of a tab, the requests of its session are starts and stops in
turn.  The agent that reads them runs exactly while the stop button is enabled,
and it answers each stop with what was sampled since the start before it. -/
theorem tab_drives_agent (qsort : Qsort maxCalltraces)
    (hqsort : Contract qsort) (parse : List UInt8 -> Option RequestType)
    (hparse : ParsesRequests parse) (heap : Heap) (parent : Nat)
    (events : List TabEvent) (session : JVMSession)
    (hsession : (Machine.run JvmTab.step (JvmTab.init heap parent)
      events).session = some session)
    (env : Session) (hreads : OneAtATime env.reads session.requests)
    (hsends : forall n, env.sendSucceeds n = true)
    (hsampled : SampledInTurn env.samples) (process : Process)
    (hstopped : process.profiler.running = false) :
    InTurn false session.requests
        (Machine.run JvmTab.step (JvmTab.init heap parent) events).stopButton ∧
      exists code st,
        env.handleRequestLoop qsort parse process = some (code, st) ∧
        st.process.profiler.running =
          (Machine.run JvmTab.step (JvmTab.init heap parent)
            events).stopButton ∧
        List.Forall₂ (Reports qsort)
          (stopReports env.samples 0 session.requests) (results st.sent) := by
  have htab := JvmTab.run_alternating heap parent events
  have hturn := (htab.session session hsession).left
  exact ⟨hturn,
    session_inTurn hqsort hparse hturn hreads hsends hsampled hstopped⟩

/-- Two clicks on start with a click on stop between them. -/
def clickedThrice : List TabEvent :=
  [TabEvent.sessionArrives true, TabEvent.startClick, TabEvent.startClick,
    TabEvent.stopClick, TabEvent.stopClick, TabEvent.startClick]

/-- A session that reads these requests one at a time, and is sampled once
before the first stop. -/
def sampledSession (requests : List RequestType) : Session :=
  { plainSession (requests.map requestFrame) with
    samples := fun n => if n = 1 then [none] else [] }

/-- The clicks that are lost to a disabled button change nothing. -/
theorem tab_drives_agent_clickedThrice :
    exists code st,
      (sampledSession [RequestType.startProfiling, RequestType.stopProfiling,
        RequestType.startProfiling]).handleRequestLoop mergeQsort parseRequest
          Process.initial = some (code, st) ∧
      st.process.profiler.running = true ∧
      List.Forall₂ (Reports mergeQsort)
        [{ running := true, samples := [none] }] (results st.sent) := by
  rcases tab_drives_agent mergeQsort mergeQsort_contract parseRequest
    (by intro type; cases type <;> rfl)
    (Machine.run Heap.step Heap.initial callsBeforeTabs) 5 clickedThrice
    { close := 7, isRunning := true,
      requests := [RequestType.startProfiling, RequestType.stopProfiling,
        RequestType.startProfiling] }
    (by decide +kernel)
    (sampledSession [RequestType.startProfiling, RequestType.stopProfiling,
      RequestType.startProfiling])
    (oneAtATime_frames _) (fun _ => rfl)
    (by
      intro n hn
      have hne : n ≠ 1 := by
        rintro rfl
        cases hn
      exact if_neg hne)
    Process.initial rfl with ⟨_, code, st, hreturn, hrunning, hreports⟩
  refine ⟨code, st, hreturn, ?_, hreports⟩
  rw [hrunning]
  decide +kernel

end EndToEnd
end Franky
