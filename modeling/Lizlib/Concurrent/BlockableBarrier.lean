import Mathlib.Logic.Function.Basic
import Lizlib.Transition

/-!
# The barrier

`BlockableBarrier` lets threads wait for each other in generations of `total_` calls of `await`, over
and over again.  A call holds `mu_` all along, except while it sleeps in `cv_->wait(lock)`, which gives
the mutex back as it goes to sleep and takes it again as it wakes up; nothing follows then but the
return, which gives it back.  `wait` is called without a predicate, and it may wake up by itself.

The barrier is modelled without a `blocker_`.  The fields `arrivals`, `ticket` and `returned` are
observations; no step of the code reads them.
-/

namespace Lizlib

/-- Where a thread stands in `await`. -/
inductive BarrierPc where
  | idle
  /-- `std::unique_lock<std::mutex> lock(*mu_)` -/
  | lock
  /-- `waiting_++`, and the test of `waiting_ < total_`. -/
  | arrive
  /-- `cv_->wait(lock)` -/
  | wait
  /-- Asleep in `cv_->wait(lock)`. -/
  | asleep
  /-- Awake in `cv_->wait(lock)`, by a notification or not: it takes the mutex again, and the call
  returns. -/
  | relock (notified : Bool)
  /-- `waiting_ = 0` -/
  | reset
  /-- `cv_->notify_all()` -/
  | notify
  /-- The call returns. -/
  | leave
  deriving DecidableEq

/-- A barrier and the threads that use it. -/
structure BlockableBarrier (T : Type*) where
  total_ : Nat
  waiting_ : Nat
  /-- Who holds the mutex. -/
  mu_ : Option T
  pc : T → BarrierPc
  /-- How many calls have arrived. -/
  arrivals : Nat
  /-- The number of the call a thread is in, or was in last: how many had arrived before it. -/
  ticket : T → Nat
  /-- The numbers of the calls that have returned. -/
  returned : List Nat

/-- Who moves. -/
inductive BarrierLabel (T : Type*) where
  /-- A thread calls `await()`. -/
  | await (t : T)
  /-- Its next step. -/
  | next (t : T)
  /-- `condition_variable::wait` wakes up without a notification. -/
  | spurious (t : T)
  deriving DecidableEq

namespace BlockableBarrier

variable {T : Type*}

/-- `BlockableBarrier(waits)` -/
def start (waits : Nat) : BlockableBarrier T where
  total_ := waits
  waiting_ := 0
  mu_ := none
  pc _ := .idle
  arrivals := 0
  ticket _ := 0
  returned := []

/-- `notify_all` -/
def wakeAll (pc : T → BarrierPc) : T → BarrierPc := fun t =>
  match pc t with
  | .asleep => .relock true
  | p => p

variable [DecidableEq T]

open Function (update)

/-- The call of a thread that holds the mutex returns. -/
def return_ (s : BlockableBarrier T) (t : T) : BlockableBarrier T :=
  { s with mu_ := none, pc := update s.pc t .idle, returned := s.ticket t :: s.returned }

/-- `waiting_++` and the test of `waiting_ < total_`. -/
def arrive (s : BlockableBarrier T) (t : T) : BlockableBarrier T :=
  { s with
    waiting_ := s.waiting_ + 1
    arrivals := s.arrivals + 1
    ticket := update s.ticket t s.arrivals
    pc := update s.pc t (if s.waiting_ + 1 < s.total_ then .wait else .reset) }

/-- The next step of a thread. -/
def nextStep (s : BlockableBarrier T) (t : T) : Option (BlockableBarrier T) :=
  match s.pc t with
  | .idle | .asleep => none
  | .lock =>
    if s.mu_ = none then some { s with mu_ := some t, pc := update s.pc t .arrive } else none
  | .arrive => some (s.arrive t)
  | .wait => some { s with mu_ := none, pc := update s.pc t .asleep }
  | .relock _ => if s.mu_ = none then some (s.return_ t) else none
  | .reset => some { s with waiting_ := 0, pc := update s.pc t .notify }
  | .notify => some { s with pc := update (wakeAll s.pc) t .leave }
  | .leave => some (s.return_ t)

/-- One step of the system. -/
def step (l : BarrierLabel T) (s : BlockableBarrier T) : Option (BlockableBarrier T) :=
  match l with
  | .await t => if s.pc t = .idle then some { s with pc := update s.pc t .lock } else none
  | .next t => s.nextStep t
  | .spurious t =>
    if s.pc t = .asleep then some { s with pc := update s.pc t (.relock false) } else none

end BlockableBarrier

/-- A barrier for `waits` calls at a time with any number of threads, interleaved step by step. -/
def blockableBarrier (T : Type*) [DecidableEq T] (waits : Nat) :
    System (BlockableBarrier T) (BarrierLabel T) where
  init s := s = BlockableBarrier.start waits
  step := BlockableBarrier.step

end Lizlib
