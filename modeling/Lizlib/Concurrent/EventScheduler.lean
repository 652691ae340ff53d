import Mathlib.Logic.Function.Basic
import Lizlib.Concurrent.ThreadPool

/-!
# Thread pools and their scheduler

Any number of pools `P`, each with its workers, share one `EventScheduler`, which one of them may
own.  A job with a delay or an interval never enters `active_queue_`: `enqueueTask` registers its
`TimerChannel` with the scheduler's selector, and the scheduler thread calls its function from
`HandleEvents`, since the channel has no executor.

The fields after `scheduler` are observations; no step of the code reads them.
-/

namespace Lizlib

/-- A job with a timer, which is the `timer`-th of its pool. -/
structure TimedJob (P E : Type*) where
  pool : P
  timer : Nat
  func : E
  once : Bool
  /-- `SetTimer` has armed the timer; without a valid delay it does not. -/
  armed : Bool

/-- Where the scheduler thread stands in `schedulerWorkerRoutine`. -/
inductive RoutinePc (P E : Type*) where
  /-- `while (!cancel_signal_.load())` -/
  | check
  /-- In `epoll_wait`. -/
  | wait
  /-- In `Process`, with the entries it has yet to handle. -/
  | process (rest : List (TimedJob P E))
  /-- Inside the function of a job. -/
  | running (rest : List (TimedJob P E))
  /-- The routine has returned. -/
  | exited

/-- The pools and their scheduler. -/
structure ThreadPools (P : Type*) (W : P → Type*) (E : Type*) where
  pool : ∀ p, ThreadPool (W p) E
  /-- The pool with `own_event_scheduler_`. -/
  owner : Option P
  /-- The jobs whose channel is registered with the selector. -/
  registered : List (TimedJob P E)
  /-- `cancel_signal_` of the scheduler. -/
  cancel_signal_ : Bool
  scheduler : RoutinePc P E
  /-- The number of timed jobs of each pool. -/
  timers : P → Nat
  /-- The pools of the timed jobs whose function has been called, in order. -/
  fired : List P

/-- Who moves. -/
inductive PoolsLabel (P : Type*) (W : P → Type*) (E : Type*) where
  /-- A step of one pool; its `submit` is `Submit` or `SubmitWithFuture`. -/
  | pool (p : P) (l : PoolLabel (W p) E)
  /-- Any thread calls `SubmitAfter` or `SubmitEvery`; the durations are in microseconds, those
  below zero are not valid. -/
  | submit (p : P) (runnable : E) (delay interval : Int)
  /-- `event_scheduler_->Join()` of the owner sets the scheduler's `cancel_signal_`. -/
  | stop (p : P)
  /-- The scheduler thread reads its `cancel_signal_`. -/
  | check
  /-- `epoll_wait` reports the timers of some jobs. -/
  | epollWait (ready : List (P × Nat))
  /-- The scheduler thread handles the next entry. -/
  | handle
  /-- The function it has called returns. -/
  | finish

namespace ThreadPools

variable {P : Type*} {W : P → Type*} {E : Type*}

/-- Pools whose scheduler has been created, by `owner` or by somebody else. -/
def start (owner : Option P) : ThreadPools P W E where
  pool _ := ThreadPool.start
  owner := owner
  registered := []
  cancel_signal_ := false
  scheduler := .check
  timers _ := 0
  fired := []

variable [DecidableEq P]

open Function (update)

/-- The job has timer `timer` of pool `p`. -/
def is (key : P × Nat) (job : TimedJob P E) : Bool := job.pool = key.1 && job.timer = key.2

/-- `enqueueTask(work, delay, interval)` of pool `p`. -/
def enqueueTask (s : ThreadPools P W E) (p : P) (work : E) (delay interval : Int) :
    ThreadPools P W E :=
  if 0 ≤ interval ∨ 0 ≤ delay then
    { s with
      registered := s.registered ++ [⟨p, s.timers p, work, !decide (0 ≤ interval), 0 ≤ delay⟩]
      timers := update s.timers p (s.timers p + 1) }
  else { s with pool := update s.pool p ((s.pool p).enqueueTask work) }

/-- The callback of a timer: a job that runs once removes its channel, and the function is called. -/
def fire (s : ThreadPools P W E) (job : TimedJob P E) (rest : List (TimedJob P E)) :
    ThreadPools P W E :=
  { s with
    registered :=
      if job.once then s.registered.filter fun j => !is (job.pool, job.timer) j else s.registered
    scheduler := .running rest
    fired := s.fired ++ [job.pool] }

/-- `Join` of pool `p` waits for the scheduler thread it owns. -/
def waiting (s : ThreadPools P W E) (p : P) : PoolLabel (W p) E → Bool
  | .join =>
    match (s.pool p).join, s.scheduler with
    | .scheduler, .exited => false
    | .scheduler, _ => s.owner = some p
    | _, _ => false
  | _ => false

variable [∀ p, DecidableEq (W p)] [∀ p, Fintype (W p)]

/-- One step of the system. -/
def step : PoolsLabel P W E → ThreadPools P W E → Option (ThreadPools P W E)
  | .pool p l, s =>
    if s.waiting p l then none
    else (ThreadPool.step l (s.pool p)).map fun q => { s with pool := update s.pool p q }
  | .submit p runnable delay interval, s => some (s.enqueueTask p runnable delay interval)
  | .stop p, s =>
    if s.owner = some p ∧ (s.pool p).join = .scheduler then some { s with cancel_signal_ := true }
    else none
  | .check, s =>
    match s.scheduler with
    | .check => some { s with scheduler := if s.cancel_signal_ then .exited else .wait }
    | _ => none
  | .epollWait ready, s =>
    match s.scheduler with
    | .wait =>
      if ready.Nodup then
        some { s with
          scheduler := .process
            (ready.filterMap fun key => s.registered.find? fun job => is key job && job.armed) }
      else none
    | _ => none
  | .handle, s =>
    match s.scheduler with
    | .process (job :: rest) => some (s.fire job rest)
    | .process [] => some { s with scheduler := .check }
    | _ => none
  | .finish, s =>
    match s.scheduler with
    | .running rest => some { s with scheduler := .process rest }
    | _ => none

end ThreadPools

/-- Any number of pools and one scheduler, interleaved step by step. -/
def threadPools (P : Type*) (W : P → Type*) (E : Type*) [DecidableEq P] [∀ p, DecidableEq (W p)]
    [∀ p, Fintype (W p)] : System (ThreadPools P W E) (PoolsLabel P W E) where
  init s := ∃ owner, s = ThreadPools.start owner
  step := ThreadPools.step

end Lizlib
