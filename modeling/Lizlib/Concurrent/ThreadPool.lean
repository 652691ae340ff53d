import Mathlib.Data.Fintype.Basic
import Lizlib.Transition

/-!
# The thread pool

`ThreadPool` is the deque `active_queue_` under `global_mu_`, the flag `cancel_signal_`, the
condition variable `cv_` on the same mutex and its workers `W`.  Every section under the mutex is one
step: the append of `enqueueTask` with its notification, a worker's pop, the drain of `Join`, the
locking and sleeping of `CondVar::Wait` and the locking and notifying of `CondVar::NotifyAll`.
`cancel_signal_` is read and written without it.

These are the jobs without a timer: the only ones that `enqueueTask` puts on `active_queue_`.  The
fields after `join` are observations; no step of the code reads them.
-/

namespace Lizlib

/-- A job on `active_queue_`, with its number in the order of `enqueueTask`. -/
structure Job (E : Type*) where
  id : Nat
  func : E

/-- Where a worker stands in `coreWorkerRoutine`. -/
inductive WorkerPc (E : Type*) where
  /-- `while (!cancel_signal_.load())` -/
  | check
  /-- The section that pops a job. -/
  | pop
  /-- `cur_job->func()` comes next. -/
  | call (cur_job : Job E)
  /-- Inside `cur_job->func()`. -/
  | running (cur_job : Job E)
  /-- `cv_.Wait()` comes next. -/
  | wait
  /-- Asleep in `cv_.Wait()`. -/
  | asleep
  /-- `coreWorkerRoutine` has returned. -/
  | exited

/-- Where the call of `Join` stands. -/
inductive PoolJoinPc where
  | idle
  /-- `cancel_signal_.store(true)` -/
  | store
  /-- `cv_.NotifyAll(false)` -/
  | notify
  /-- `worker.thread->join()` for every worker -/
  | workers
  /-- The section that discards what is left on `active_queue_`. -/
  | drain
  /-- `event_scheduler_->Join()`, if the pool owns its scheduler -/
  | scheduler
  | returned
  deriving DecidableEq

/-- A pool with its workers. -/
structure ThreadPool (W E : Type*) where
  active_queue_ : List (Job E)
  cancel_signal_ : Bool
  worker : W → WorkerPc E
  join : PoolJoinPc
  /-- The number of jobs that have been enqueued. -/
  enqueued : Nat
  /-- The jobs the workers have popped, in order. -/
  popped : List Nat
  /-- The jobs whose function has been called, in order. -/
  executed : List Nat
  /-- The jobs `Join` has deleted, in order. -/
  discarded : List Nat

/-- Who moves. -/
inductive PoolLabel (W E : Type*) where
  /-- Any thread calls `Submit` or `SubmitWithFuture`. -/
  | submit (runnable : E)
  /-- The next step of a worker. -/
  | worker (w : W)
  /-- `condition_variable::wait` returns without a notification. -/
  | spurious (w : W)
  /-- `Join()` is called and reads `cancel_signal_`. -/
  | callJoin
  /-- Its next step. -/
  | join

namespace ThreadPool

variable {W E : Type*}

/-- A pool whose workers have been created. -/
def start : ThreadPool W E where
  active_queue_ := []
  cancel_signal_ := false
  worker _ := .check
  join := .idle
  enqueued := 0
  popped := []
  executed := []
  discarded := []

/-- `notify_all` -/
def wakeAll (worker : W → WorkerPc E) : W → WorkerPc E := fun w =>
  match worker w with
  | .asleep => .check
  | pc => pc

/-- `enqueueTask` of a job without a timer. -/
def enqueueTask (s : ThreadPool W E) (runnable : E) : ThreadPool W E :=
  let active_queue_ := s.active_queue_ ++ [⟨s.enqueued, runnable⟩]
  { s with
    active_queue_ := active_queue_
    worker := if active_queue_.length = 1 then wakeAll s.worker else s.worker
    enqueued := s.enqueued + 1 }

variable [DecidableEq W]

open Function (update)

/-- The next step of a worker. -/
def workerStep (s : ThreadPool W E) (w : W) : Option (ThreadPool W E) :=
  match s.worker w with
  | .check =>
    some { s with worker := update s.worker w (if s.cancel_signal_ then .exited else .pop) }
  | .pop =>
    match s.active_queue_ with
    | [] => some { s with worker := update s.worker w .wait }
    | job :: rest => some { s with
        active_queue_ := rest
        worker := update s.worker w (.call job)
        popped := s.popped ++ [job.id] }
  | .call job => some { s with
      worker := update s.worker w (.running job)
      executed := s.executed ++ [job.id] }
  | .running _ => some { s with worker := update s.worker w .check }
  | .wait => some { s with worker := update s.worker w .asleep }
  | .asleep | .exited => none

/-- A worker's routine has returned. -/
def hasExited : WorkerPc E → Bool
  | .exited => true
  | _ => false

variable [Fintype W]

/-- The next step of `Join`. -/
def joinStep (s : ThreadPool W E) : Option (ThreadPool W E) :=
  match s.join with
  | .idle | .returned => none
  | .store => some { s with cancel_signal_ := true, join := .notify }
  | .notify => some { s with worker := wakeAll s.worker, join := .workers }
  | .workers => if ∀ w, hasExited (s.worker w) = true then some { s with join := .drain } else none
  | .drain => some { s with
      active_queue_ := []
      discarded := s.discarded ++ s.active_queue_.map Job.id
      join := .scheduler }
  | .scheduler => some { s with join := .returned }

/-- One step of the system. -/
def step : PoolLabel W E → ThreadPool W E → Option (ThreadPool W E)
  | .submit runnable, s => some (s.enqueueTask runnable)
  | .worker w, s => s.workerStep w
  | .spurious w, s =>
    match s.worker w with
    | .asleep => some { s with worker := update s.worker w .check }
    | _ => none
  | .callJoin, s =>
    match s.join with
    | .idle => some { s with join := .store }
    -- `cancel_signal_` is set
    | .returned => some s
    | _ => none
  | .join, s => s.joinStep

end ThreadPool

/-- A pool with any number of workers and callers, interleaved step by step. -/
def threadPool (W E : Type*) [DecidableEq W] [Fintype W] :
    System (ThreadPool W E) (PoolLabel W E) where
  init s := s = ThreadPool.start
  step := ThreadPool.step

end Lizlib
