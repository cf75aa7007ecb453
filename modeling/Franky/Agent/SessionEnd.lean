import Franky.Agent.Requests

/-!
# The end of a session

The request loop stops the profiler only when it is asked to.  Whether sampling
goes on when the loop returns depends on the requests that it handled.
-/

namespace Franky
namespace Agent

open Foundation
open Foundation.Sorting (Qsort mergeQsort)
open Protocol

/-- Nothing is left running, and the next start clears the tables. -/
structure Process.Finished (a : Process) : Prop where
  stopped : a.profiler.running = false
  disarmed : a.os.timer = none
  clears : forall interval, (a.start interval).profiler =
    { a.profiler with running := true }.clear

/-- The timer is armed exactly while the profiler is running. -/
def Process.Agreed (a : Process) : Prop :=
  a.os.timer = none <-> a.profiler.running = false

/-- What the reads of a socket amount to, up to the first that is no request. -/
def requestsRead (parse : List UInt8 -> Option RequestType) :
    Nat -> List (List UInt8) -> List RequestType
  | 0, _ => []
  | rounds + 1, reads =>
      match readRequest parse reads with
      | (ReadResult.request type, reads) =>
          type :: requestsRead parse rounds reads
      | _ => []

/-- The requests up to the one with which the loop returns: a detach, or a stop
whose result cannot be sent. -/
def answered (sendSucceeds : Nat -> Bool) :
    Nat -> List RequestType -> List RequestType
  | _, [] => []
  | _, RequestType.detach :: _ => [RequestType.detach]
  | messages, RequestType.startProfiling :: types =>
      RequestType.startProfiling :: answered sendSucceeds messages types
  | messages, RequestType.stopProfiling :: types =>
      if sendSucceeds messages then
        RequestType.stopProfiling :: answered sendSucceeds (messages + 1) types
      else [RequestType.stopProfiling]

/-- The requests that a session answers. -/
def Session.requests (parse : List UInt8 -> Option RequestType)
    (env : Session) : List RequestType :=
  if env.sendSucceeds 0 then
    answered env.sendSucceeds 1
      (requestsRead parse (env.reads.length + 1) env.reads)
  else []

/-- The last start or stop among the requests is a stop, or there is none and
the profiler is not running before them. -/
def LeavesStopped : Bool -> List RequestType -> Prop
  | running, [] => running = false
  | _, RequestType.startProfiling :: types => LeavesStopped true types
  | _, RequestType.stopProfiling :: types => LeavesStopped false types
  | running, RequestType.detach :: types => LeavesStopped running types

/-- The states of the process that sessions and samples lead to. -/
inductive Reached (qsort : Qsort maxCalltraces)
    (parse : List UInt8 -> Option RequestType) : Process -> Prop where
  | initial : Reached qsort parse Process.initial
  | sample {a : Process} (h : Reached qsort parse a)
      (outcome : Option AsgctCallTrace) : Reached qsort parse (a.sample outcome)
  | session {a : Process} (h : Reached qsort parse a) {env : Session}
      {code : Int32} {st : LoopState}
      (hreturn : env.handleRequestLoop qsort parse a = some (code, st)) :
      Reached qsort parse st.process

/-!
## Flag and timer
-/

theorem Process.Agreed.finished_iff {a : Process} (h : a.Agreed) :
    a.Finished <-> a.profiler.running = false := by
  constructor
  · intro hfinished
    exact hfinished.stopped
  · intro hstopped
    refine ⟨hstopped, h.mpr hstopped, ?_⟩
    intro interval
    rw [start_of_stopped hstopped]

theorem recordSample_running (p : Profiler) (outcome : Option AsgctCallTrace) :
    (p.recordSample outcome).running = p.running := by
  cases hjava : isJavaSample outcome with
  | false =>
      rcases recordSample_other (p := p) hjava with heq | heq | heq | heq <;>
        rw [heq] <;> rfl
  | true =>
      cases outcome with
      | none => cases hjava
      | some trace =>
          rw [recordSample_java (of_decide_eq_true hjava), storeMethod_frame,
            storeCallTrace_frame]
          rfl

theorem sample_running (a : Process) (outcome : Option AsgctCallTrace) :
    (a.sample outcome).profiler.running = a.profiler.running :=
  recordSample_running a.profiler outcome

theorem Process.Agreed.sample {a : Process} (h : a.Agreed)
    (outcome : Option AsgctCallTrace) : (a.sample outcome).Agreed := by
  unfold Process.Agreed
  rw [sample_running]
  exact h

theorem foldl_sample_running (outcomes : List (Option AsgctCallTrace))
    (a : Process) :
    (outcomes.foldl Process.sample a).profiler.running =
      a.profiler.running := by
  induction outcomes generalizing a with
  | nil => rfl
  | cons outcome outcomes ih =>
      rw [List.foldl_cons, ih, sample_running]

theorem Process.Agreed.foldl_sample {a : Process} (h : a.Agreed)
    (outcomes : List (Option AsgctCallTrace)) :
    (outcomes.foldl Process.sample a).Agreed :=
  Machine.run_invariant (fun _ outcome h => h.sample outcome) h outcomes

theorem start_running (a : Process) (interval : Int64) :
    (a.start interval).profiler.running = true := by
  cases hrunning : a.profiler.running with
  | true =>
      rw [start_of_running hrunning]
      exact hrunning
  | false =>
      rw [start_of_stopped hrunning]
      rfl

theorem stop_running (a : Process) : a.stop.profiler.running = false := by
  cases hrunning : a.profiler.running with
  | true => rw [stop_of_running hrunning]
  | false =>
      rw [stop_of_stopped hrunning]
      exact hrunning

theorem Process.Agreed.start {a : Process} (h : a.Agreed) :
    (a.start defaultInterval).Agreed := by
  cases hrunning : a.profiler.running with
  | true =>
      rw [start_of_running hrunning]
      exact h
  | false =>
      rw [start_of_stopped hrunning]
      apply iff_of_false
      · exact Option.some_ne_none _
      · exact Bool.false_ne_true.symm

theorem Process.Agreed.stop {a : Process} (h : a.Agreed) : a.stop.Agreed := by
  cases hrunning : a.profiler.running with
  | true =>
      rw [stop_of_running hrunning]
      exact iff_of_true (armTimer_zero _) rfl
  | false =>
      rw [stop_of_stopped hrunning]
      exact h

/-!
## The loop
-/

variable {qsort : Qsort maxCalltraces}
  {parse : List UInt8 -> Option RequestType} {env : Session}

theorem served_agreed {st : LoopState} (h : st.process.Agreed)
    (reads : List (List UInt8)) (type : RequestType) :
    (env.served qsort st reads type).1.process.Agreed := by
  have hwaiting := h.foldl_sample (env.samples st.handled.length)
  cases type with
  | startProfiling => exact hwaiting.start
  | stopProfiling => exact hwaiting.stop
  | detach => exact hwaiting

theorem served_running (qsort : Qsort maxCalltraces) (env : Session)
    (st : LoopState) (reads : List (List UInt8))
    (type : RequestType) :
    (env.served qsort st reads type).1.process.profiler.running =
      match type with
      | RequestType.startProfiling => true
      | RequestType.stopProfiling => false
      | RequestType.detach => st.process.profiler.running := by
  cases type with
  | startProfiling => exact start_running _ _
  | stopProfiling => exact stop_running _
  | detach => exact foldl_sample_running _ _

theorem loop_finished_iff {rounds : Nat} {st st' : LoopState} {code : Int32}
    (hagreed : st.process.Agreed)
    (h : env.loop qsort parse rounds st = some (code, st')) :
    st'.process.Agreed ∧
      (st'.process.profiler.running = false <->
        LeavesStopped st.process.profiler.running
          (answered env.sendSucceeds st.sent.length
            (requestsRead parse rounds st.reads))) := by
  induction rounds generalizing st with
  | zero => cases h
  | succ rounds ih =>
      have hwaiting : (env.waiting st).process.Agreed :=
        hagreed.foldl_sample _
      have hidle : (env.waiting st).process.profiler.running =
          st.process.profiler.running := foldl_sample_running _ _
      cases hread : readRequest parse st.reads with
      | mk result reads =>
          cases result with
          | endOfStream =>
              rw [loop_endOfStream hread] at h
              cases h
              simp only [requestsRead, hread, answered, LeavesStopped]
              exact ⟨hwaiting, by rw [← hidle]⟩
          | unreadable =>
              rw [loop_unreadable hread] at h
              cases h
              simp only [requestsRead, hread, answered, LeavesStopped]
              exact ⟨hwaiting, by rw [← hidle]⟩
          | request type =>
              have hagreed' : (env.served qsort st reads type).1.process.Agreed :=
                served_agreed hagreed reads type
              have hrunning := served_running qsort env st
                reads type
              have hcode := served_code qsort env st reads
                type
              have hsent := served_sent_length qsort env st
                reads type
              have hreads := served_reads qsort env st reads
                type
              rw [loop_request hread] at h
              simp only [requestsRead, hread]
              cases type with
              | detach =>
                  rw [hcode] at h
                  cases h
                  simp only [answered, LeavesStopped]
                  exact ⟨hagreed', by rw [hrunning]⟩
              | startProfiling =>
                  rw [hcode] at h
                  have hrest := ih hagreed' h
                  rw [hrunning, hsent, hreads] at hrest
                  exact hrest
              | stopProfiling =>
                  cases hsend : env.sendSucceeds st.sent.length with
                  | true =>
                      simp only [hcode, hsend, if_true] at h
                      have hrest := ih hagreed' h
                      rw [hrunning, hsent, hreads] at hrest
                      simp only [answered, hsend, if_true, LeavesStopped]
                      exact hrest
                  | false =>
                      simp only [hcode, hsend, Bool.false_eq_true,
                        if_false] at h
                      cases h
                      simp only [answered, hsend, Bool.false_eq_true, if_false,
                        LeavesStopped]
                      exact ⟨hagreed', iff_of_true hrunning trivial⟩

theorem handleRequestLoop_finished_iff {process : Process} {st : LoopState}
    {code : Int32} (hagreed : process.Agreed)
    (h : env.handleRequestLoop qsort parse process = some (code, st)) :
    st.process.Agreed ∧
      (st.process.profiler.running = false <->
        LeavesStopped process.profiler.running (env.requests parse)) := by
  unfold Session.handleRequestLoop at h
  unfold Session.requests
  cases hinit : env.sendSucceeds 0 with
  | true =>
      rw [hinit, if_pos rfl] at h
      rw [if_pos rfl]
      exact loop_finished_iff hagreed h
  | false =>
      rw [hinit, if_neg Bool.false_ne_true] at h
      rw [if_neg Bool.false_ne_true]
      cases h
      exact ⟨hagreed, Iff.rfl⟩

theorem Reached.agreed {a : Process} (h : Reached qsort parse a) :
    a.Agreed := by
  induction h with
  | initial => exact iff_of_true rfl rfl
  | sample _ outcome ih => exact ih.sample outcome
  | session _ hreturn ih => exact (handleRequestLoop_finished_iff ih hreturn).left

/-- In whatever way a session ends, it leaves nothing running exactly when the
last start or stop that it answered is a stop, or it answered none and the
profiler was not running before. -/
theorem finished_iff_leavesStopped (qsort : Qsort maxCalltraces)
    (parse : List UInt8 -> Option RequestType) (process : Process)
    (hreached : Reached qsort parse process) (env : Session) :
    exists code st,
      env.handleRequestLoop qsort parse process = some (code, st) ∧
      (st.process.Finished <->
        LeavesStopped process.profiler.running (env.requests parse)) := by
  rcases handleRequestLoop_returns qsort parse env process with ⟨⟨code, st⟩, hreturn⟩
  rcases handleRequestLoop_finished_iff hreached.agreed hreturn with
    ⟨hagreed, hiff⟩
  exact ⟨code, st, hreturn, by rw [hagreed.finished_iff, hiff]⟩

/-- A session with a start and a stop leaves nothing running. -/
theorem startStop_finished :
    exists code st,
      (plainSession (startStop.map requestFrame)).handleRequestLoop mergeQsort
        parseRequest Process.initial = some (code, st) ∧
      st.process.Finished := by
  rcases finished_iff_leavesStopped mergeQsort parseRequest Process.initial
    Reached.initial (plainSession (startStop.map requestFrame)) with
    ⟨code, st, hreturn, hiff⟩
  exact ⟨code, st, hreturn, hiff.mpr rfl⟩

/-- After a start, a detach ends the session and the profiler runs on. -/
theorem startDetach_not_finished :
    exists code st,
      (plainSession [requestFrame RequestType.startProfiling,
        requestFrame RequestType.detach]).handleRequestLoop mergeQsort
          parseRequest Process.initial = some (code, st) ∧
      ¬ st.process.Finished := by
  refine ⟨_, _, rfl, ?_⟩
  intro hfinished
  exact Bool.false_ne_true.symm hfinished.stopped

end Agent
end Franky
