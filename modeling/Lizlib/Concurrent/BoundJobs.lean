import Mathlib.Logic.Function.Basic
import Lizlib.Data.ReadyList
import Lizlib.Net.TimerChannel
import Lizlib.Transition

/-!
# Jobs with a timer

`ThreadPool::SubmitAfter` and `SubmitEvery` bind a job to a `TimerChannel` and register the channel,
edge-triggered, with the selector of the `EventScheduler`; `SetTimer` comes after that.  The channel
has no executor: the scheduler thread itself reads the timer, and calls the function, in
`HandleEvents`.

Below is the kernel's side too.  A timer counts its expirations until they are read, and a read of
none blocks.  An expiration puts the registered channel on the ready list of the epoll instance, once;
`epoll_wait` delivers from the front of that list the channels that have something to read, at most as
many as `epoll_events_` has room for, and delivers them again only after another expiration.

`expired` and `runs` are observations; no step reads `runs`, and `expired` only the kernel's.
-/

namespace Lizlib

/-- A `Job` with a `bind_channel`. -/
structure BoundJob (E : Type*) where
  func : E
  once : Bool
  /-- What `SetTimer`, which comes last in `enqueueTask`, will ask for. -/
  asked : Option ITimerSpec
  /-- The setting of the timer. -/
  timer : Option ITimerSpec
  /-- The expirations that have not been read. -/
  unread : Nat
  /-- The channel is in `register_map_` and in the interest list. -/
  registered : Bool
  /-- The number of expirations so far. -/
  expired : Nat
  /-- The number of calls of `func` so far. -/
  runs : Nat

namespace BoundJob

variable {E : Type*}

/-- The timer may expire: it has been armed, and has an interval or has not expired yet. -/
def mayExpire (job : BoundJob E) : Bool :=
  match job.timer with
  | none => false
  | some spec => spec.it_value ≠ .zero ∧ (spec.it_interval ≠ .zero ∨ job.expired = 0)

end BoundJob

/-- Where the scheduler thread stands. -/
inductive BoundPc where
  /-- `while (!cancel_signal_.load())` -/
  | check
  /-- In `epoll_wait`. -/
  | wait
  /-- In `Process`, with the channels it has yet to handle. -/
  | process (rest : List Nat)
  /-- `file_.Read(&val, sizeof(val))` of a job's channel comes next. -/
  | read (j : Nat) (rest : List Nat)
  /-- `epoll_selector_.Remove(job->bind_channel)` comes next. -/
  | remove (j : Nat) (rest : List Nat)
  /-- `job->func()` comes next. -/
  | call (j : Nat) (rest : List Nat)
  /-- Inside `job->func()`. -/
  | running (rest : List Nat)
  /-- The routine has returned. -/
  | exited
  /-- `LOG_FATAL("epoll wait failed")` -/
  | fatal
  deriving DecidableEq

/-- The scheduler and the jobs bound to its selector, numbered as they come. -/
structure BoundJobs (E : Type*) where
  job : Nat → Option (BoundJob E)
  /-- How many there are. -/
  created : Nat
  /-- The ready list of the epoll instance. -/
  ready : List Nat
  pc : BoundPc
  cancel_signal_ : Bool

/-- Who moves. -/
inductive BoundLabel (E : Type*) where
  /-- Any thread submits a job with a timer, up to the registration of its channel. -/
  | submit (work : E) (delay interval : Duration)
  /-- The `SetTimer` that comes after it. -/
  | setTimer (j : Nat)
  /-- A timer expires. -/
  | expire (j : Nat)
  /-- The next step of the scheduler thread. -/
  | scheduler
  /-- A signal interrupts it. -/
  | signal
  /-- `EventScheduler::Join` sets `cancel_signal_`. -/
  | cancel

namespace BoundJobs

variable {E : Type*}

/-- A scheduler without jobs. -/
def start : BoundJobs E where
  job _ := none
  created := 0
  ready := []
  pc := .check
  cancel_signal_ := false

open Function (update)

/-- A property of a job that exists. -/
def has (s : BoundJobs E) (j : Nat) (p : BoundJob E → Bool) : Bool := (s.job j).any p

/-- Change a job. -/
def modify (s : BoundJobs E) (j : Nat) (f : BoundJob E → BoundJob E) : BoundJobs E :=
  { s with job := update s.job j ((s.job j).map f) }

/-- The channel has something to read, as `epoll_wait` finds it. -/
def due (s : BoundJobs E) (j : Nat) : Bool := s.has j fun job => job.unread ≠ 0

/-- `enqueueTask(work, delay, interval)` of a job with a timer, up to `epoll_selector_.Add`. -/
def submit (s : BoundJobs E) (work : E) (delay interval : Duration) : Option (BoundJobs E) :=
  match TimerChannel.enqueueTask delay interval with
  -- the job goes to `active_queue_`
  | .active => none
  | .timer spec =>
    some { s with
      job := update s.job s.created (some
        { func := work, once := !interval.valid, asked := spec, timer := none, unread := 0,
          registered := true, expired := 0, runs := 0 })
      created := s.created + 1 }

/-- `job->bind_channel->SetTimer(delay, interval)` -/
def setTimer (s : BoundJobs E) (j : Nat) : Option (BoundJobs E) :=
  if s.has j fun job => job.timer.isNone then
    some (s.modify j fun job => { job with timer := job.asked })
  else none

/-- An expiration. -/
def expire (s : BoundJobs E) (j : Nat) : Option (BoundJobs E) :=
  if s.has j BoundJob.mayExpire then
    let t := s.modify j fun job => { job with
      unread := job.unread + 1
      expired := job.expired + 1 }
    some { t with
      ready := if s.has j BoundJob.registered ∧ j ∉ s.ready then s.ready ++ [j] else s.ready }
  else none

/-- What `HandleEvents` does once the timer has been read: the callback. -/
def callback (s : BoundJobs E) (j : Nat) (rest : List Nat) : BoundPc :=
  if s.has j BoundJob.once then .remove j rest else .call j rest

/-- `epoll_wait` with room for `buf` events, and the results it leaves. -/
def wait (s : BoundJobs E) (buf : Nat) : BoundJobs E :=
  -- `EINVAL` without room
  if buf = 0 then { s with pc := .fatal }
  else
    let (events, left) := ReadyList.harvest s.due buf s.ready
    { s with
      ready := left
      pc := if events = [] then .check else .process events }

/-- The next step of `schedulerWorkerRoutine`. -/
def scheduler (s : BoundJobs E) (buf : Nat) : Option (BoundJobs E) :=
  match s.pc with
  | .check => some { s with pc := if s.cancel_signal_ then .exited else .wait }
  | .wait => some (s.wait buf)
  | .process [] => some { s with pc := .check }
  | .process (j :: rest) => some { s with pc := .read j rest }
  | .read j rest =>
    -- a read blocks when the timer has not expired
    if s.due j then
      some { s.modify j (fun job => { job with unread := 0 }) with pc := s.callback j rest }
    else none
  | .remove j rest =>
    some { s.modify j (fun job => { job with registered := false }) with
      ready := s.ready.filter (· ≠ j)
      pc := .call j rest }
  | .call j rest =>
    some { s.modify j (fun job => { job with runs := job.runs + 1 }) with pc := .running rest }
  | .running rest => some { s with pc := .process rest }
  | .exited | .fatal => none

/-- A system call of the scheduler thread fails with `EINTR`. -/
def signal (s : BoundJobs E) : Option (BoundJobs E) :=
  match s.pc with
  | .wait => some { s with pc := .check }
  -- `Read` fails where it would have blocked; the callback is called all the same
  | .read j rest => if s.due j then none else some { s with pc := s.callback j rest }
  | _ => none

/-- One step of the system. -/
def step (buf : Nat) : BoundLabel E → BoundJobs E → Option (BoundJobs E)
  | .submit work delay interval, s => s.submit work delay interval
  | .setTimer j, s => s.setTimer j
  | .expire j, s => s.expire j
  | .scheduler, s => s.scheduler buf
  | .signal, s => s.signal
  | .cancel, s => some { s with cancel_signal_ := true }

end BoundJobs

/-- A scheduler whose selector has room for `buf` events, with any number of jobs. -/
def boundJobs (E : Type*) (buf : Nat) : System (BoundJobs E) (BoundLabel E) where
  init s := s = BoundJobs.start
  step := BoundJobs.step buf

end Lizlib
