import Franky.Foundation.Machine
import Franky.Agent.Timer

/-!
# Signals around start and stop

Starting and stopping take two system calls, and the timer may expire and a
pending `SIGPROF` may be delivered before, between and after them.  The machine
below takes the calls one step at a time.
-/

namespace Franky
namespace Agent

open Foundation

/-!
## The machine

A call of `start` or `stop` decides by the running flag whether it does
anything, and then makes the two system calls of `setTimer`.
-/

/-- The system call that the thread makes next. -/
inductive SetTimerPc where
  | idle
  | install (sec : Int64) (usec : Int32)
  | arm (sec : Int64) (usec : Int32)
deriving DecidableEq, Repr

structure SignalState where
  process : Process
  pc : SetTimerPc
  pending : Bool
  killed : Bool

/-- The library is loaded and no call has been made. -/
def SignalState.initial : SignalState :=
  { process := Process.initial, pc := SetTimerPc.idle, pending := false,
    killed := false }

inductive SignalAction where
  | start (interval : Int64)
  | stop
  | systemCall
  | expire
  | deliver (outcome : Option AsgctCallTrace)

/-- The part of `Profiler::start` before its call of `setTimer`. -/
def SignalState.beginStart (s : SignalState) (interval : Int64) :
    SignalState :=
  if s.process.profiler.running then s
  else
    { s with
      process := { s.process with
        profiler := { s.process.profiler with running := true }.clear }
      pc := SetTimerPc.install (startSec interval) (startUsec interval) }

/-- The part of `Profiler::stop` before its call of `setTimer`. -/
def SignalState.beginStop (s : SignalState) : SignalState :=
  if s.process.profiler.running then
    { s with
      process := { s.process with
        profiler := { s.process.profiler with running := false } }
      pc := SetTimerPc.install 0 0 }
  else s

/-- The next system call of `setTimer`. -/
def SignalState.systemCall (s : SignalState) : SignalState :=
  match s.pc with
  | SetTimerPc.idle => s
  | SetTimerPc.install sec usec =>
      { s with
        process := { s.process with os := s.process.os.installHandler sec usec }
        pc := SetTimerPc.arm sec usec }
  | SetTimerPc.arm sec usec =>
      { s with
        process := { s.process with os := s.process.os.armTimer sec usec }
        pc := SetTimerPc.idle }

/-- A pending signal is delivered under the disposition that is installed. -/
def SignalState.deliver (s : SignalState) (outcome : Option AsgctCallTrace) :
    SignalState :=
  if s.pending then
    match s.process.os.sigprof with
    | SigHandler.sigDfl => { s with pending := false, killed := true }
    | SigHandler.sigIgn => { s with pending := false }
    | SigHandler.sigprofHandler =>
        { s with process := s.process.sample outcome, pending := false }
  else s

/-- One step; a process that has been killed takes no more. -/
def SignalState.step (s : SignalState) : SignalAction -> SignalState
  | SignalAction.start interval =>
      if s.killed = false ∧ s.pc = SetTimerPc.idle then s.beginStart interval
      else s
  | SignalAction.stop =>
      if s.killed = false ∧ s.pc = SetTimerPc.idle then s.beginStop else s
  | SignalAction.systemCall => if s.killed then s else s.systemCall
  | SignalAction.expire =>
      if s.process.os.timer.isSome then { s with pending := true } else s
  | SignalAction.deliver outcome => if s.killed then s else s.deliver outcome

/-!
## Uninterrupted calls

Without signals in between, the steps of the machine are the two functions.
-/

theorem run_start (s : SignalState) (interval : Int64)
    (hpc : s.pc = SetTimerPc.idle) (halive : s.killed = false) :
    (Machine.run SignalState.step s
        [SignalAction.start interval, SignalAction.systemCall,
          SignalAction.systemCall]).process =
      s.process.start interval := by
  cases hrunning : s.process.profiler.running with
  | true =>
      rw [start_of_running hrunning]
      simp [SignalState.step, SignalState.beginStart, SignalState.systemCall,
        hpc, halive, hrunning]
  | false =>
      rw [start_of_stopped hrunning]
      simp [SignalState.step, SignalState.beginStart, SignalState.systemCall,
        hpc, halive, hrunning, Os.setTimer]

theorem run_stop (s : SignalState) (hpc : s.pc = SetTimerPc.idle)
    (halive : s.killed = false) :
    (Machine.run SignalState.step s
        [SignalAction.stop, SignalAction.systemCall,
          SignalAction.systemCall]).process =
      s.process.stop := by
  cases hrunning : s.process.profiler.running with
  | true =>
      rw [stop_of_running hrunning]
      simp [SignalState.step, SignalState.beginStop, SignalState.systemCall,
        hpc, halive, hrunning, Os.setTimer]
  | false =>
      rw [stop_of_stopped hrunning]
      simp [SignalState.step, SignalState.beginStop, SignalState.systemCall,
        hpc, halive, hrunning]

/-!
## When no signal meets the default disposition

Disabling the timer installs the default disposition first and disarms the
timer afterwards.  A step is quiet when it neither installs that disposition
over a pending signal nor lets the timer expire before it is disarmed.
-/

/-- The process is alive, and stays so if the pending signal is delivered
now. -/
def SignalState.Safe (s : SignalState) : Prop :=
  s.killed = false ∧ forall outcome, (s.deliver outcome).killed = false

def SignalState.Quiet (s : SignalState) : SignalAction -> Prop
  | SignalAction.systemCall =>
      forall sec usec, s.pc = SetTimerPc.install sec usec ->
        timerEnabled sec usec = false -> s.pending = false
  | SignalAction.expire =>
      forall sec usec, s.pc = SetTimerPc.arm sec usec ->
        timerEnabled sec usec = false -> s.process.os.timer = none
  | _ => True

structure SignalState.Guarded (s : SignalState) : Prop where
  alive : s.killed = false
  pending : s.process.os.sigprof = SigHandler.sigDfl -> s.pending = false
  armed : s.process.os.timer ≠ none ->
    s.process.os.sigprof = SigHandler.sigprofHandler ∨
      exists sec usec, s.pc = SetTimerPc.arm sec usec ∧
        timerEnabled sec usec = false
  arming : forall sec usec, s.pc = SetTimerPc.arm sec usec ->
    timerEnabled sec usec = true ->
      s.process.os.sigprof = SigHandler.sigprofHandler
  disarming : forall sec usec, s.pc = SetTimerPc.arm sec usec ->
    timerEnabled sec usec = false ->
      s.process.os.sigprof = SigHandler.sigDfl

theorem initial_guarded : SignalState.initial.Guarded where
  alive := rfl
  pending := by intro _; rfl
  armed := by intro h; exact absurd rfl h
  arming := by intro sec usec h; cases h
  disarming := by intro sec usec h; cases h

theorem timerEnabled_eq_false {sec : Int64} {usec : Int32}
    (h : timerEnabled sec usec = false) : sec = 0 ∧ usec = 0 := by
  simpa [timerEnabled] using h

theorem SignalState.Guarded.beginStart {s : SignalState} (h : s.Guarded)
    (hpc : s.pc = SetTimerPc.idle) (interval : Int64) :
    (s.beginStart interval).Guarded := by
  unfold SignalState.beginStart
  cases hrunning : s.process.profiler.running with
  | true => simpa using h
  | false =>
      refine ⟨h.alive, h.pending, ?_, ?_, ?_⟩
      · intro harmed
        rcases h.armed harmed with hhandler | ⟨sec, usec, hsec, _⟩
        · exact Or.inl hhandler
        · rw [hpc] at hsec
          cases hsec
      · intro sec usec hsec
        cases hsec
      · intro sec usec hsec
        cases hsec

theorem SignalState.Guarded.beginStop {s : SignalState} (h : s.Guarded)
    (hpc : s.pc = SetTimerPc.idle) : s.beginStop.Guarded := by
  unfold SignalState.beginStop
  cases hrunning : s.process.profiler.running with
  | false => simpa using h
  | true =>
      refine ⟨h.alive, h.pending, ?_, ?_, ?_⟩
      · intro harmed
        rcases h.armed harmed with hhandler | ⟨sec, usec, hsec, _⟩
        · exact Or.inl hhandler
        · rw [hpc] at hsec
          cases hsec
      · intro sec usec hsec
        cases hsec
      · intro sec usec hsec
        cases hsec

theorem installHandler_enabled (os : Os) {sec : Int64} {usec : Int32}
    (h : timerEnabled sec usec = true) :
    (os.installHandler sec usec).sigprof = SigHandler.sigprofHandler := by
  rw [Os.installHandler, h]
  rfl

theorem installHandler_disabled (os : Os) {sec : Int64} {usec : Int32}
    (h : timerEnabled sec usec = false) :
    (os.installHandler sec usec).sigprof = SigHandler.sigDfl := by
  rw [Os.installHandler, h]
  rfl

theorem SignalState.Guarded.systemCall {s : SignalState} (h : s.Guarded)
    (hquiet : s.Quiet SignalAction.systemCall) : s.systemCall.Guarded := by
  unfold SignalState.systemCall
  cases hpc : s.pc with
  | idle => exact h
  | install sec usec =>
      cases henabled : timerEnabled sec usec with
      | true =>
          have hhandler := installHandler_enabled s.process.os henabled
          refine ⟨h.alive, ?_, fun _ => Or.inl hhandler,
            fun _ _ _ _ => hhandler, ?_⟩
          · intro hdfl
            dsimp only at hdfl
            rw [hhandler] at hdfl
            cases hdfl
          · intro sec' usec' hsame hdisabled
            cases hsame
            rw [henabled] at hdisabled
            cases hdisabled
      | false =>
          have hdfl := installHandler_disabled s.process.os henabled
          refine ⟨h.alive, fun _ => hquiet sec usec hpc henabled,
            fun _ => Or.inr ⟨sec, usec, rfl, henabled⟩, ?_,
            fun _ _ _ _ => hdfl⟩
          intro sec' usec' hsame henabled'
          cases hsame
          rw [henabled] at henabled'
          cases henabled'
  | arm sec usec =>
      refine ⟨h.alive, ?_, ?_, ?_, ?_⟩
      · intro hdfl
        dsimp only at hdfl
        rw [armTimer_sigprof] at hdfl
        exact h.pending hdfl
      · intro harmed
        cases henabled : timerEnabled sec usec with
        | true =>
            left
            dsimp only
            rw [armTimer_sigprof]
            exact h.arming sec usec hpc henabled
        | false =>
            rcases timerEnabled_eq_false henabled with ⟨rfl, rfl⟩
            exact absurd (armTimer_zero s.process.os) harmed
      · intro sec' usec' hsame
        cases hsame
      · intro sec' usec' hsame
        cases hsame

theorem SignalState.Guarded.expire {s : SignalState} (h : s.Guarded)
    (hquiet : s.Quiet SignalAction.expire)
    (harmed : s.process.os.timer.isSome = true) :
    { s with pending := true }.Guarded := by
  have hne : s.process.os.timer ≠ none := Option.isSome_iff_ne_none.mp harmed
  have hhandler : s.process.os.sigprof = SigHandler.sigprofHandler := by
    rcases h.armed hne with hhandler | ⟨sec, usec, hpc, hdisabled⟩
    · exact hhandler
    · exact absurd (hquiet sec usec hpc hdisabled) hne
  refine ⟨h.alive, ?_, h.armed, h.arming, h.disarming⟩
  intro hdfl
  dsimp only at hdfl
  rw [hhandler] at hdfl
  cases hdfl

theorem SignalState.Guarded.deliver {s : SignalState} (h : s.Guarded)
    (outcome : Option AsgctCallTrace) : (s.deliver outcome).Guarded := by
  unfold SignalState.deliver
  cases hpending : s.pending with
  | false => simpa using h
  | true =>
      cases hsigprof : s.process.os.sigprof with
      | sigDfl =>
          rw [h.pending hsigprof] at hpending
          cases hpending
      | sigIgn =>
          exact ⟨h.alive, fun _ => rfl, h.armed, h.arming, h.disarming⟩
      | sigprofHandler =>
          exact ⟨h.alive, fun _ => rfl, h.armed, h.arming, h.disarming⟩

theorem SignalState.Guarded.step {s : SignalState} (h : s.Guarded)
    {a : SignalAction} (hquiet : s.Quiet a) : (s.step a).Guarded := by
  cases a with
  | start interval =>
      unfold SignalState.step
      dsimp only
      split
      · rename_i hidle
        exact h.beginStart hidle.right interval
      · exact h
  | stop =>
      unfold SignalState.step
      dsimp only
      split
      · rename_i hidle
        exact h.beginStop hidle.right
      · exact h
  | systemCall =>
      simpa [SignalState.step, h.alive] using h.systemCall hquiet
  | expire =>
      unfold SignalState.step
      dsimp only
      split
      · rename_i harmed
        exact h.expire hquiet harmed
      · exact h
  | deliver outcome =>
      simpa [SignalState.step, h.alive] using h.deliver outcome

theorem SignalState.Guarded.safe {s : SignalState} (h : s.Guarded) : s.Safe :=
  ⟨h.alive, fun outcome => (h.deliver outcome).alive⟩

theorem not_safe_of_pending {s : SignalState} (hpending : s.pending = true)
    (hdfl : s.process.os.sigprof = SigHandler.sigDfl) : ¬ s.Safe := by
  intro hboth
  rcases hboth with ⟨_, hdeliver⟩
  have hkilled := hdeliver none
  simp [SignalState.deliver, hpending, hdfl] at hkilled

/-- A step that is not quiet leaves a signal pending under the default
disposition. -/
theorem SignalState.Guarded.not_safe_of_not_quiet {s : SignalState}
    (h : s.Guarded) {a : SignalAction} (hloud : ¬ s.Quiet a) :
    ¬ (s.step a).Safe := by
  cases a with
  | start interval => exact absurd trivial hloud
  | stop => exact absurd trivial hloud
  | deliver outcome => exact absurd trivial hloud
  | systemCall =>
      simp only [SignalState.Quiet, not_forall, Bool.not_eq_false] at hloud
      rcases hloud with ⟨sec, usec, hpc, hdisabled, hpending⟩
      apply not_safe_of_pending
      · simpa [SignalState.step, SignalState.systemCall, h.alive, hpc] using
          hpending
      · simpa [SignalState.step, SignalState.systemCall, h.alive, hpc] using
          installHandler_disabled s.process.os hdisabled
  | expire =>
      simp only [SignalState.Quiet, not_forall] at hloud
      rcases hloud with ⟨sec, usec, hpc, hdisabled, harmed⟩
      have hsome := Option.isSome_iff_ne_none.mpr harmed
      apply not_safe_of_pending
      · simp [SignalState.step, hsome]
      · simpa [SignalState.step, hsome] using h.disarming sec usec hpc hdisabled

/-- No delivery in a run can kill the process exactly when every step of the
run is quiet. -/
theorem safe_iff_quiet (as : List SignalAction) :
    Machine.AllStates SignalState.step SignalState.Safe
        SignalState.initial as <->
      Machine.AllSteps SignalState.step SignalState.Quiet
        SignalState.initial as := by
  apply Machine.allStates_iff_allSteps (fun s _ => s.Guarded)
  · intro s a _ h _
    constructor
    · intro hsafe
      by_contra hloud
      exact h.not_safe_of_not_quiet hloud hsafe
    · intro hquiet
      exact (h.step hquiet).safe
  · intro s a _ h _ hquiet
    exact h.step hquiet
  · exact initial_guarded
  · exact initial_guarded.safe

/-- A timer that expires between the two system calls of a stop kills the
process. -/
theorem killed_in_stop :
    (Machine.run SignalState.step SignalState.initial
      [SignalAction.start defaultInterval, SignalAction.systemCall,
        SignalAction.systemCall, SignalAction.stop, SignalAction.systemCall,
        SignalAction.expire, SignalAction.deliver none]).killed = true := by
  decide

end Agent
end Franky
