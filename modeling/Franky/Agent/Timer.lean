import Franky.Agent.Profiler

/-!
# Starting and stopping the profiler

`Profiler::start` and `Profiler::stop` switch the sampling timer through two
system calls: `sigaction` installs what a `SIGPROF` does, and `setitimer` arms
or disarms the timer that raises it.
-/

namespace Franky
namespace Agent

/-!
## The operating system side

The handler fields of `struct sigaction` are two names of one field, and a null
handler is the default disposition, which terminates the process.
-/

inductive SigHandler where
  | sigDfl
  | sigIgn
  | sigprofHandler
deriving DecidableEq, Repr

/-- `NULL`, where a handler is expected. -/
def SigHandler.null : SigHandler := SigHandler.sigDfl

structure Sigaction where
  handler : SigHandler
deriving DecidableEq, Repr

def Sigaction.setHandler (_sa : Sigaction) (handler : SigHandler) : Sigaction :=
  { handler := handler }

def Sigaction.setSigaction (_sa : Sigaction) (handler : SigHandler) :
    Sigaction :=
  { handler := handler }

structure Timeval where
  sec : Int64
  usec : Int64
deriving DecidableEq, Repr

/-- What the kernel accepts as a time. -/
def Timeval.valid (tv : Timeval) : Bool :=
  0 ≤ tv.sec && 0 ≤ tv.usec && tv.usec ≤ 999999

/-- The installed disposition of `SIGPROF`, and the period of `ITIMER_PROF`
while it is armed. -/
structure Os where
  sigprof : SigHandler
  timer : Option Timeval
deriving DecidableEq, Repr

/-- The process before the agent has touched signal or timer. -/
def Os.initial : Os := { sigprof := SigHandler.sigDfl, timer := none }

/-- `sigaction(SIGPROF, &sa, NULL)`. -/
def Os.sigaction (os : Os) (sa : Sigaction) : Os :=
  { os with sigprof := sa.handler }

/-- `setitimer(ITIMER_PROF, &itv, NULL)` with equal value and interval.  An
invalid time is refused and leaves the timer alone. -/
def Os.setitimer (os : Os) (tv : Timeval) : Os :=
  if tv.valid then
    if tv.sec = 0 ∧ tv.usec = 0 then { os with timer := none }
    else { os with timer := some tv }
  else os

/-!
## `Profiler::setTimer`
-/

def timerEnabled (sec : Int64) (usec : Int32) : Bool :=
  sec != 0 || usec != 0

/-- The `struct sigaction` that `Profiler::setTimer` fills in. -/
def setTimerAction (enabled : Bool) : Sigaction :=
  let sa : Sigaction := { handler := SigHandler.null }
  let sa := sa.setHandler
    (if enabled then SigHandler.null else SigHandler.sigIgn)
  sa.setSigaction
    (if enabled then SigHandler.sigprofHandler else SigHandler.null)

/-- The first system call of `Profiler::setTimer`. -/
def Os.installHandler (os : Os) (sec : Int64) (usec : Int32) : Os :=
  os.sigaction (setTimerAction (timerEnabled sec usec))

/-- The second system call of `Profiler::setTimer`. -/
def Os.armTimer (os : Os) (sec : Int64) (usec : Int32) : Os :=
  os.setitimer { sec := sec, usec := usec.toInt64 }

/-- `Profiler::setTimer`. -/
def Os.setTimer (os : Os) (sec : Int64) (usec : Int32) : Os :=
  (os.installHandler sec usec).armTimer sec usec

theorem armTimer_sigprof (os : Os) (sec : Int64) (usec : Int32) :
    (os.armTimer sec usec).sigprof = os.sigprof := by
  unfold Os.armTimer Os.setitimer
  split
  · split <;> rfl
  · rfl

theorem armTimer_zero (os : Os) : (os.armTimer 0 0).timer = none := by
  rfl

/-!
## `Profiler::start` and `Profiler::stop`
-/

/-- The agent in its process: the profiler and the system state it drives. -/
structure Process where
  profiler : Profiler
  os : Os

/-- The agent when its library is loaded. -/
def Process.initial : Process :=
  { profiler := Profiler.instance, os := Os.initial }

/-- `DEFAULT_INTERVAL`, in milliseconds. -/
def defaultInterval : Int64 := 10

/-- The seconds `Profiler::start` passes on. -/
def startSec (interval : Int64) : Int64 := interval / 1000

/-- The microseconds `Profiler::start` passes on, narrowed to an `int`. -/
def startUsec (interval : Int64) : Int32 := (interval * 1000).toInt32

/-- `Profiler::start`. -/
def Process.start (a : Process) (interval : Int64) : Process :=
  if a.profiler.running then a
  else
    { profiler := { a.profiler with running := true }.clear
      os := a.os.setTimer (startSec interval) (startUsec interval) }

/-- `Profiler::stop`. -/
def Process.stop (a : Process) : Process :=
  if a.profiler.running then
    { profiler := { a.profiler with running := false }
      os := a.os.setTimer 0 0 }
  else a

/-- The signal handler `sigprofHandler`. -/
def Process.sample (a : Process) (outcome : Option AsgctCallTrace) : Process :=
  { a with profiler := a.profiler.recordSample outcome }

theorem start_of_running {a : Process} (h : a.profiler.running = true)
    (interval : Int64) : a.start interval = a := by
  simp [Process.start, h]

theorem start_of_stopped {a : Process} (h : a.profiler.running = false)
    (interval : Int64) :
    a.start interval =
      { profiler := { a.profiler with running := true }.clear
        os := a.os.setTimer (startSec interval) (startUsec interval) } := by
  simp [Process.start, h]

theorem stop_of_running {a : Process} (h : a.profiler.running = true) :
    a.stop =
      { profiler := { a.profiler with running := false }
        os := a.os.setTimer 0 0 } := by
  simp [Process.stop, h]

theorem stop_of_stopped {a : Process} (h : a.profiler.running = false) :
    a.stop = a := by
  simp [Process.stop, h]

end Agent
end Franky
