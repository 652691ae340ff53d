import Mathlib.Tactic.Common

/-!
# Timers

`TimerChannel::SetTimer` splits a delay and an interval of microseconds into the seconds and
nanoseconds of an `itimerspec`.  A zero `it_value` disarms the timer.  `SubmitAfter` and
`SubmitEvery` of the event loop and of the thread pool end in a call of it.
-/

namespace Lizlib

/-- `Duration`: microseconds, invalid when negative. -/
structure Duration where
  usec_ : Int64
  deriving DecidableEq

namespace Duration

/-- `Duration::Invalid()` -/
def invalid : Duration := ⟨-1⟩

/-- `Valid` -/
def valid (d : Duration) : Bool := 0 ≤ d.usec_

/-- `Sec` -/
def sec (d : Duration) : Int64 := if d.valid then d.usec_ / 1000000 else -1

/-- `MicrosBelowSec` -/
def microsBelowSec (d : Duration) : Int64 := if d.valid then d.usec_ % 1000000 else -1

/-- `std::max`, by `Duration::Compare`. -/
def max (p q : Duration) : Duration := if p.usec_ < q.usec_ then q else p

end Duration

/-- `timespec` -/
structure Timespec where
  tv_sec : Int64
  tv_nsec : Int64
  deriving DecidableEq

/-- A cleared `timespec`. -/
def Timespec.zero : Timespec := ⟨0, 0⟩

/-- `itimerspec` -/
structure ITimerSpec where
  it_value : Timespec
  it_interval : Timespec
  deriving DecidableEq

namespace TimerChannel

/-- `TimerChannel::kMinWakeUpDuration` -/
def kMinWakeUpDuration : Duration := ⟨100⟩

/-- The fields `SetTimer` fills in for a valid duration. -/
def toTimespec (d : Duration) : Timespec :=
  let actual := d.max kMinWakeUpDuration
  ⟨actual.sec, actual.microsBelowSec * 1000⟩

/-- What `SetTimer(delay, interval)` passes to `timerfd_settime`, if it calls it at all. -/
def setTimer (delay interval : Duration) : Option ITimerSpec :=
  if !delay.valid && !interval.valid then none
  else some
    { it_value := if delay.valid then toTimespec delay else .zero
      it_interval := if interval.valid then toTimespec interval else .zero }

/-! ### The callers -/

/-- The timer of `EventLoop::SubmitAfter(runnable, delay)`. -/
def loopSubmitAfter (delay : Duration) : Option ITimerSpec := setTimer delay .invalid

/-- The timer of `EventLoop::SubmitEvery(runnable, delay, interval)`. -/
def loopSubmitEvery (delay interval : Duration) : Option ITimerSpec := setTimer delay interval

/-- What `ThreadPool::enqueueTask` does with a task. -/
inductive Enqueued where
  /-- It waits for a timer. -/
  | timer (spec : Option ITimerSpec)
  /-- It is put on the active queue. -/
  | active
  deriving DecidableEq

/-- `ThreadPool::enqueueTask(work, delay, interval)` -/
def enqueueTask (delay interval : Duration) : Enqueued :=
  if interval.valid || delay.valid then .timer (setTimer delay interval) else .active

/-- `ThreadPool::SubmitAfter(runnable, delay)` -/
def poolSubmitAfter (delay : Duration) : Enqueued := enqueueTask delay .invalid

/-- `ThreadPool::SubmitEvery(runnable, delay, interval)` -/
def poolSubmitEvery (delay interval : Duration) : Enqueued := enqueueTask delay interval

end TimerChannel

end Lizlib
