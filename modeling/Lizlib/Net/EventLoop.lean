import Lizlib.Concurrent.LockFreeQueue

/-!
# The event loop

`EventLoop` is a lock-free queue of callbacks, the flag `cancel_signal_`, the condition variable
`loop_cv_` and one thread that runs `loop`.  `CondVar::Wait` locks and sleeps in one step and
`CondVar::NotifyOne`/`NotifyAll` lock and notify in one step, so a notification wakes the thread
only if it sleeps already.

Threads `T` call `Submit`; the loop's own thread calls it too, from inside a callback, and is the
submitter `none`.  Threads `J` call `join`.
-/

namespace Lizlib

/-- Where a thread stands in `EventLoop::Submit`. -/
inductive SubmitPc (E : Type*) where
  | idle
  /-- `cancel_signal_` was read as `false`; `lfq_.Push(runnable, …)` comes next. -/
  | push (runnable : E)
  /-- Inside `lfq_.Push`. -/
  | pushing

/-- Where the loop's thread stands in `EventLoop::loop`. -/
inductive LoopPc (E : Type*) where
  /-- `while (!cancel_signal_.load())` -/
  | check
  /-- `lfq_.Empty()` -/
  | empty
  /-- Inside `lfq_.Pop()`. -/
  | pop
  /-- `(*work)()` -/
  | run (work : E)
  /-- `loop_cv_.Wait()` comes next. -/
  | wait
  /-- Asleep in `loop_cv_.Wait()`. -/
  | asleep
  /-- `loop` has returned. -/
  | exited

/-- Where a thread stands in `EventLoop::join`. -/
inductive JoinPc where
  | idle
  /-- `cancel_signal_.store(true)` -/
  | store
  /-- `loop_cv_.NotifyAll(false)` -/
  | notify
  /-- `thread_.join()` -/
  | join
  deriving DecidableEq

/-- An event loop with its submitters and joiners. -/
structure EventLoop (T J A E : Type*) where
  lfq_ : LockFreeQueue (Option T) Unit A E
  cancel_signal_ : Bool
  submit : Option T → SubmitPc E
  loop : LoopPc E
  join : J → JoinPc

/-- Who moves. -/
inductive LoopLabel (T J A E : Type*) where
  /-- A thread calls `Submit(runnable)` and reads `cancel_signal_`. -/
  | submit (t : Option T) (runnable : E)
  /-- It enters `Push`; `new Node` returns `node`. -/
  | callPush (t : Option T) (node : A)
  /-- The next step of its `Push`; the last one of the push that found the queue empty is
  `on_empty`. -/
  | push (t : Option T)
  /-- The next step of the loop's thread. -/
  | loop
  /-- The callback the loop's thread is running returns. -/
  | finish
  /-- `condition_variable::wait` returns without a notification. -/
  | spurious
  /-- A thread calls `join()` and reads `cancel_signal_`. -/
  | callJoin (j : J)
  /-- The next step of its `join()`. -/
  | join (j : J)

namespace EventLoop

variable {T J A E : Type*}

/-- The event loop after construction. -/
def start : EventLoop T J A E where
  lfq_ := LockFreeQueue.start
  cancel_signal_ := false
  submit _ := .idle
  loop := .check
  join _ := .idle

/-- The loop's thread leaves `loop_cv_.Wait()` and continues with the next round. -/
def wake (s : EventLoop T J A E) : EventLoop T J A E :=
  match s.loop with
  | .asleep => { s with loop := .check }
  | _ => s

/-- The loop's thread is inside a callback. -/
def running (s : EventLoop T J A E) : Bool :=
  match s.loop with
  | .run _ => true
  | _ => false

variable [DecidableEq T] [DecidableEq J] [DecidableEq A]

/-- The next step of a submitter inside `Push`. -/
def pushStep (s : EventLoop T J A E) (t : Option T) : EventLoop T J A E :=
  match s.lfq_.push t with
  | .onEmpty => { s.wake with
      lfq_ := s.lfq_.pushStep t
      submit := Function.update s.submit t .idle }
  | .storeNext _ _ => { s with
      lfq_ := s.lfq_.pushStep t
      submit := Function.update s.submit t .idle }
  | _ => { s with lfq_ := s.lfq_.pushStep t }

/-- The next step of the loop's thread. -/
def loopStep (s : EventLoop T J A E) : Option (EventLoop T J A E) :=
  match s.loop with
  | .check => some { s with loop := if s.cancel_signal_ then .exited else .empty }
  | .empty =>
    if s.lfq_.mem.empty then some { s with loop := .wait }
    else some { s with
      loop := .pop
      lfq_ := { s.lfq_ with pop := Function.update s.lfq_.pop () .loadTail } }
  | .pop => some { s with
      lfq_ := s.lfq_.popStep ()
      loop :=
        match s.lfq_.mem.popStep (s.lfq_.pop ()) with
        | some (_, _, some (some work)) => .run work
        | some (_, _, some none) => .wait
        | _ => .pop }
  | .wait => some { s with loop := .asleep }
  | .run _ | .asleep | .exited => none

/-- The next step of a joiner. -/
def joinStep (s : EventLoop T J A E) (j : J) : Option (EventLoop T J A E) :=
  match s.join j with
  | .idle => none
  | .store => some { s with cancel_signal_ := true, join := Function.update s.join j .notify }
  | .notify => some { s.wake with join := Function.update s.join j .join }
  | .join =>
    match s.loop with
    | .exited => some { s with join := Function.update s.join j .idle }
    | _ => none

/-- One step of the system. -/
def step : LoopLabel T J A E → EventLoop T J A E → Option (EventLoop T J A E)
  | .submit t runnable, s =>
    match s.submit t with
    | .idle =>
      if t = none ∧ s.running = false then none
      else if s.cancel_signal_ then some s
      else some { s with submit := Function.update s.submit t (.push runnable) }
    | _ => none
  | .callPush t node, s =>
    match s.submit t with
    | .push runnable =>
      (LockFreeQueue.step (.callPush t runnable node) s.lfq_).map fun q =>
        { s with lfq_ := q, submit := Function.update s.submit t .pushing }
    | _ => none
  | .push t, s =>
    match s.submit t with
    | .pushing => some (s.pushStep t)
    | _ => none
  | .loop, s => s.loopStep
  | .finish, s =>
    match s.loop, s.submit none with
    | .run _, .idle => some { s with loop := .check }
    | _, _ => none
  | .spurious, s =>
    match s.loop with
    | .asleep => some s.wake
    | _ => none
  | .callJoin j, s =>
    if s.join j = .idle then
      if s.cancel_signal_ then some s
      else some { s with join := Function.update s.join j .store }
    else none
  | .join j, s => s.joinStep j

end EventLoop

/-- An event loop with any number of submitters and joiners, interleaved step by step. -/
def eventLoop (T J A E : Type*) [DecidableEq T] [DecidableEq J] [DecidableEq A] :
    System (EventLoop T J A E) (LoopLabel T J A E) where
  init s := s = EventLoop.start
  step := EventLoop.step

end Lizlib
