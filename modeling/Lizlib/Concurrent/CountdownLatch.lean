import Mathlib.Logic.Function.Basic
import Lizlib.Transition

/-!
# The countdown latch

`CountdownLatch` keeps its count in an atomic and lets `Await` sleep on a condition variable with a
mutex of its own.  `CondVar::Wait` locks and sleeps in one step and tests no predicate;
`CondVar::NotifyAll(false)` locks and wakes whoever sleeps then.

The fields `completed`, `hits` and `fatal` are observations; no step of the code reads them.
-/

namespace Lizlib

/-- Where a thread stands in `CountDown` or `Await`. -/
inductive LatchPc where
  | idle
  /-- `CountDown`: `read_count = count_.load()` -/
  | load
  /-- `CountDown`: `count_.compare_exchange_strong(read_count, read_count - 1)` -/
  | cas (read_count : Nat)
  /-- `CountDown`: `cv_.NotifyAll(false)` -/
  | notify
  /-- `Await`: `cv_.Wait()` comes next. -/
  | wait
  /-- `Await`: asleep in `cv_.Wait()`. -/
  | asleep
  /-- `Await`: `ASSERT_FATAL(count_.load() == 0, …)` -/
  | check
  deriving DecidableEq

/-- Inside `CountDown`. -/
def LatchPc.counting : LatchPc → Bool
  | .load | .cas _ | .notify => true
  | _ => false

/-- A latch and the threads that use it. -/
structure CountdownLatch (T : Type*) where
  count_ : Nat
  pc : T → LatchPc
  /-- The number of calls of `CountDown` that have returned. -/
  completed : Nat
  /-- How often the call of `CountDown` a thread is in, or was in last, has decremented. -/
  hits : T → Nat
  /-- The assertion of `Await` has failed. -/
  fatal : Bool

/-- Who moves. -/
inductive LatchLabel (T : Type*) where
  /-- A thread calls `CountDown()`. -/
  | countDown (t : T)
  /-- A thread calls `Await()`. -/
  | await (t : T)
  /-- Its next step. -/
  | next (t : T)
  /-- `condition_variable::wait` returns without a notification. -/
  | spurious (t : T)

namespace CountdownLatch

variable {T : Type*}

/-- `CountdownLatch(counts)` -/
def start (counts : Nat) : CountdownLatch T where
  count_ := counts
  pc _ := .idle
  completed := 0
  hits _ := 0
  fatal := false

/-- `notify_all` -/
def wakeAll (pc : T → LatchPc) : T → LatchPc := fun t =>
  match pc t with
  | .asleep => .check
  | p => p

variable [DecidableEq T]

open Function (update)

/-- A call of `CountDown` returns. -/
def return_ (s : CountdownLatch T) (t : T) : CountdownLatch T :=
  { s with pc := update s.pc t .idle, completed := s.completed + 1 }

/-- The next step of a thread. -/
def nextStep (s : CountdownLatch T) (t : T) : Option (CountdownLatch T) :=
  match s.pc t with
  | .idle | .asleep => none
  | .load =>
    some { s with pc := update s.pc t (if s.count_ = 0 then .notify else .cas s.count_) }
  | .cas read_count =>
    if s.count_ = read_count then
      let s' := { s with
        count_ := read_count - 1
        hits := update s.hits t (s.hits t + 1) }
      if read_count - 1 = 0 then some { s' with pc := update s.pc t .notify }
      else some (s'.return_ t)
    else some { s with pc := update s.pc t .load }
  | .notify => some ({ s with pc := wakeAll s.pc }.return_ t)
  | .wait => some { s with pc := update s.pc t .asleep }
  | .check =>
    if s.count_ = 0 then some { s with pc := update s.pc t .idle }
    else some { s with fatal := true }

/-- One step of the system; none once the process has ended. -/
def step (l : LatchLabel T) (s : CountdownLatch T) : Option (CountdownLatch T) :=
  if s.fatal then none
  else match l with
    | .countDown t =>
      if s.pc t = .idle then
        some { s with pc := update s.pc t .load, hits := update s.hits t 0 }
      else none
    | .await t => if s.pc t = .idle then some { s with pc := update s.pc t .wait } else none
    | .next t => s.nextStep t
    | .spurious t => if s.pc t = .asleep then some { s with pc := update s.pc t .check } else none

end CountdownLatch

/-- A latch with any number of threads, interleaved step by step. -/
def countdownLatch (T : Type*) [DecidableEq T] (counts : Nat) :
    System (CountdownLatch T) (LatchLabel T) where
  init s := s = CountdownLatch.start counts
  step := CountdownLatch.step

end Lizlib
