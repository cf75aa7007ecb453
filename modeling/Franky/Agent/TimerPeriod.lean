import Franky.Foundation.Machine
import Franky.Agent.Timer

/-!
# The running flag and the period of the timer

A start splits its interval into seconds and microseconds, but it does not take
the seconds out of the microseconds before it narrows them to an `int`.  What
the timer is given is right only while nothing of the seconds is left there.
-/

namespace Franky
namespace Agent

open Foundation

/-!
## Calls and what is said about them
-/

inductive TimerCall where
  | start (interval : Int64)
  | stop

/-- The process, and the interval given to the last start that found the
profiler stopped. -/
structure TimedProcess where
  process : Process
  interval : Option Int64

def TimedProcess.initial : TimedProcess :=
  { process := Process.initial, interval := none }

def TimedProcess.step (s : TimedProcess) : TimerCall -> TimedProcess
  | TimerCall.start interval =>
      { process := s.process.start interval
        interval :=
          if s.process.profiler.running then s.interval else some interval }
  | TimerCall.stop => { s with process := s.process.stop }

def Timeval.micros (tv : Timeval) : Int :=
  tv.sec.toInt * 1000000 + tv.usec.toInt

/-- The timer is armed exactly while the profiler runs, and then with the
interval of the last start that found it stopped. -/
structure TimedProcess.Agrees (s : TimedProcess) : Prop where
  armed : s.process.profiler.running = true <-> s.process.os.timer ≠ none
  period : forall tv, s.process.os.timer = some tv ->
    exists interval, s.interval = some interval ∧
      tv.micros = interval.toInt * 1000

/-- The seconds of the interval leave no trace in the low half of its
microseconds. -/
def IntervalFits (interval : Int64) : Prop :=
  interval.toInt / 1000 % 2 ^ 26 = 0

instance intervalFitsDecidable (interval : Int64) :
    Decidable (IntervalFits interval) :=
  inferInstanceAs (Decidable (_ = _))

/-- A start that takes effect is given an interval that fits. -/
def TimedProcess.Fits (s : TimedProcess) : TimerCall -> Prop
  | TimerCall.start interval =>
      s.process.profiler.running = false -> IntervalFits interval
  | TimerCall.stop => True

/-!
## The arithmetic of an interval
-/

section Interval

variable {interval : Int64}

theorem startSec_toInt (h : 1 ≤ interval) :
    (startSec interval).toInt = interval.toInt / 1000 := by
  have hpos : 1 ≤ interval.toInt := Int64.le_iff_toInt_le.mp h
  unfold startSec
  rw [Int64.toInt_div_of_ne_right _ _ (by decide)]
  exact Int.tdiv_eq_ediv_of_nonneg (by lia)

theorem startUsec_toInt (interval : Int64) :
    (startUsec interval).toInt = (interval.toInt * 1000).bmod (2 ^ 32) := by
  unfold startUsec
  rw [Int64.toInt_toInt32, Int64.toInt_mul]
  exact Int.bmod_bmod_of_dvd (by decide)

/-- Narrowing drops the microseconds of so many seconds exactly when their number
is a multiple of `2 ^ 26`. -/
theorem seconds_dvd_iff (seconds : Int) :
    ((2 ^ 32 : Nat) : Int) ∣ seconds * 1000000 <-> seconds % 2 ^ 26 = 0 := by
  constructor <;> intro h <;> omega

theorem startUsec_eq_iff (h : 1 ≤ interval) :
    (startUsec interval).toInt = interval.toInt % 1000 * 1000 <->
      IntervalFits interval := by
  have hpos : 1 ≤ interval.toInt := Int64.le_iff_toInt_le.mp h
  have hrest : interval.toInt % 1000 * 1000 - interval.toInt * 1000 =
      -(interval.toInt / 1000 * 1000000) := by lia
  rw [startUsec_toInt, Int.bmod_eq_iff (by decide), hrest, Int.dvd_neg,
    seconds_dvd_iff]
  constructor
  · intro hbmod
    exact hbmod.right.right
  · intro hfits
    exact ⟨by lia, by lia, hfits⟩

/-- The time that a start passes to `setitimer`. -/
def startTime (interval : Int64) : Timeval :=
  { sec := startSec interval, usec := (startUsec interval).toInt64 }

theorem startTime_micros_eq_iff (h : 1 ≤ interval) :
    (startTime interval).micros = interval.toInt * 1000 <->
      IntervalFits interval := by
  rw [← startUsec_eq_iff h]
  unfold startTime Timeval.micros
  dsimp only
  rw [startSec_toInt h, Int32.toInt_toInt64]
  constructor <;> lia

theorem startTime_of_fits (h : 1 ≤ interval) (hfits : IntervalFits interval) :
    (startTime interval).valid = true ∧
      ¬ ((startTime interval).sec = 0 ∧ (startTime interval).usec = 0) := by
  have hpos : 1 ≤ interval.toInt := Int64.le_iff_toInt_le.mp h
  have hsec : (startTime interval).sec.toInt = interval.toInt / 1000 :=
    startSec_toInt h
  have husec : (startTime interval).usec.toInt =
      interval.toInt % 1000 * 1000 := by
    rw [← (startUsec_eq_iff h).mpr hfits]
    exact Int32.toInt_toInt64 (startUsec interval)
  constructor
  · unfold Timeval.valid
    simp only [Bool.and_eq_true, decide_eq_true_iff, Int64.le_iff_toInt_le,
      hsec, husec, Int64.toInt_zero]
    have hmax : (999999 : Int64).toInt = 999999 := by decide
    lia
  · intro hboth
    rcases hboth with ⟨hsec', husec'⟩
    rw [hsec', Int64.toInt_zero] at hsec
    rw [husec', Int64.toInt_zero] at husec
    lia

end Interval

/-!
## One call
-/

theorem setTimer_timer (os : Os) (sec : Int64) (usec : Int32) :
    (os.setTimer sec usec).timer =
      (os.setitimer { sec := sec, usec := usec.toInt64 }).timer := by
  unfold Os.setTimer Os.armTimer Os.installHandler Os.sigaction Os.setitimer
  split
  · split <;> rfl
  · rfl

theorem start_timer {a : Process} (hstopped : a.profiler.running = false)
    (hoff : a.os.timer = none) (interval : Int64) :
    (a.start interval).os.timer =
      if (startTime interval).valid = true ∧
          ¬ ((startTime interval).sec = 0 ∧ (startTime interval).usec = 0) then
        some (startTime interval)
      else none := by
  rw [start_of_stopped hstopped]
  dsimp only
  rw [setTimer_timer]
  change (a.os.setitimer (startTime interval)).timer = _
  unfold Os.setitimer
  split_ifs with hvalid hzero <;> simp_all

theorem stop_timer {a : Process} (hrunning : a.profiler.running = true) :
    a.stop.os.timer = none := by
  rw [stop_of_running hrunning]
  exact setTimer_timer a.os 0 0

/-- A start from a stopped profiler keeps the agreement exactly when its
interval fits. -/
theorem TimedProcess.Agrees.start_iff {s : TimedProcess} (h : s.Agrees)
    (hstopped : s.process.profiler.running = false) {interval : Int64}
    (hpos : 1 ≤ interval) :
    (s.step (TimerCall.start interval)).Agrees <-> IntervalFits interval := by
  have hoff : s.process.os.timer = none := by
    by_contra hon
    rw [h.armed.mpr hon] at hstopped
    cases hstopped
  have htimer := start_timer hstopped hoff interval
  have hrunning : (s.process.start interval).profiler.running = true := by
    rw [start_of_stopped hstopped]
    rfl
  have hinterval : (s.step (TimerCall.start interval)).interval =
      some interval := by
    simp [TimedProcess.step, hstopped]
  constructor
  · intro hagrees
    have hon := hagrees.armed.mp hrunning
    rcases Option.ne_none_iff_exists'.mp hon with ⟨tv, htv⟩
    rcases hagrees.period tv htv with ⟨given, hgiven, hmicros⟩
    rw [hinterval] at hgiven
    cases hgiven
    change (s.process.start interval).os.timer = some tv at htv
    rw [htimer] at htv
    split at htv
    · cases htv
      exact (startTime_micros_eq_iff hpos).mp hmicros
    · cases htv
  · intro hfits
    rw [if_pos (startTime_of_fits hpos hfits)] at htimer
    constructor
    · refine iff_of_true hrunning ?_
      change (s.process.start interval).os.timer ≠ none
      rw [htimer]
      exact Option.some_ne_none _
    · intro tv htv
      change (s.process.start interval).os.timer = some tv at htv
      rw [htimer] at htv
      cases htv
      exact ⟨interval, hinterval, (startTime_micros_eq_iff hpos).mpr hfits⟩

theorem TimedProcess.Agrees.stop {s : TimedProcess} (h : s.Agrees) :
    (s.step TimerCall.stop).Agrees := by
  cases hrunning : s.process.profiler.running with
  | false =>
      have hsame : s.step TimerCall.stop = s := by
        simp [TimedProcess.step, stop_of_stopped hrunning]
      rw [hsame]
      exact h
  | true =>
      have hoff : (s.step TimerCall.stop).process.os.timer = none :=
        stop_timer hrunning
      constructor
      · refine iff_of_false ?_ (not_not_intro hoff)
        simp [TimedProcess.step, stop_of_running hrunning]
      · intro tv htv
        rw [hoff] at htv
        cases htv

theorem TimedProcess.Agrees.step_iff {s : TimedProcess} (h : s.Agrees)
    {call : TimerCall}
    (hpos : forall interval, call = TimerCall.start interval -> 1 ≤ interval) :
    (s.step call).Agrees <-> s.Fits call := by
  cases call with
  | stop => exact iff_of_true h.stop trivial
  | start interval =>
      cases hrunning : s.process.profiler.running with
      | false =>
          rw [h.start_iff hrunning (hpos interval rfl)]
          exact ⟨fun hfits _ => hfits, fun hfits => hfits hrunning⟩
      | true =>
          have hsame : s.step (TimerCall.start interval) = s := by
            simp [TimedProcess.step, start_of_running hrunning, hrunning]
          rw [hsame]
          refine iff_of_true h ?_
          intro hstopped
          rw [hrunning] at hstopped
          cases hstopped

/-!
## Every sequence of calls
-/

theorem initial_agrees : TimedProcess.initial.Agrees where
  armed := iff_of_false (fun h => nomatch h) (fun h => h rfl)
  period := fun _ h => nomatch h

/-- Flag and timer agree after every call exactly when every start that takes
effect is given an interval that fits. -/
theorem timer_agrees_iff_fits (calls : List TimerCall)
    (hpos : forall interval, TimerCall.start interval ∈ calls -> 1 ≤ interval) :
    Machine.AllStates TimedProcess.step TimedProcess.Agrees
        TimedProcess.initial calls <->
      Machine.AllSteps TimedProcess.step TimedProcess.Fits
        TimedProcess.initial calls := by
  apply Machine.allStates_iff_allSteps (fun _ rest =>
    forall interval, TimerCall.start interval ∈ rest -> 1 ≤ interval)
  · intro s call rest hrest h
    apply h.step_iff
    intro interval hcall
    exact hrest interval (hcall ▸ List.mem_cons_self)
  · intro s call rest hrest _ _ interval hmem
    exact hrest interval (List.mem_cons_of_mem call hmem)
  · exact hpos
  · exact initial_agrees

theorem timer_agrees_restarted :
    Machine.AllStates TimedProcess.step TimedProcess.Agrees TimedProcess.initial
      [TimerCall.start 10, TimerCall.start 1000, TimerCall.stop,
        TimerCall.start 999] := by
  apply (timer_agrees_iff_fits _ _).mpr
  · simp only [Machine.allSteps_cons, Machine.allSteps_nil, and_true]
    refine ⟨fun _ => by decide, ?_, trivial, fun _ => by decide⟩
    intro hstopped
    cases hstopped
  · intro interval hmem
    simp only [List.mem_cons, TimerCall.start.injEq, List.not_mem_nil,
      reduceCtorEq, false_or, or_false] at hmem
    rcases hmem with rfl | rfl | rfl <;> decide

/-- An interval of one second is refused, and the profiler runs without a
timer. -/
theorem not_timer_agrees_second :
    ¬ Machine.AllStates TimedProcess.step TimedProcess.Agrees
      TimedProcess.initial [TimerCall.start 1000] := by
  intro hboth
  rcases hboth with ⟨_, hagrees⟩
  have harmed := hagrees.armed.mp rfl
  exact harmed (by decide)

end Agent
end Franky
