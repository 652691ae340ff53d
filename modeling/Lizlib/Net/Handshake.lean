import Mathlib.Logic.Function.Basic
import Lizlib.Transition

/-!
# The blocking handshake with a loop

`TcpConnection::Start` and `Acceptor::Close` hand a callback to a loop and wait on a latch until it
has run.  The loops `E` and any other threads `T` are stacks of `HandshakeAct`s, each of which touches
shared state once: the latch travels through `AddChannel`/`RemoveChannel`, `Submit` with its check of
`cancel_signal_`, the queue of the loop, its thread and the callback.  Threads other than the loops'
also call `join`.

`CountdownLatch::Await` returns as soon as the count is zero.  What a handler calls, and whether the
connection is still `kConnecting`, is decided by the environment.
-/

namespace Lizlib

/-- The threads. -/
inductive Caller (T E : Type*) where
  | loop (e : E)
  | other (t : T)
  deriving DecidableEq

/-- The calls that wait on a latch. -/
inductive Handshake where
  /-- `TcpConnection::Start`, by way of `AddChannel`. -/
  | start
  /-- `Acceptor::Close`, by way of `RemoveChannel`. -/
  | close
  deriving DecidableEq

/-- What user code calls. -/
inductive HandshakeApi (E : Type*) where
  | handshake (kind : Handshake) (loop_ : E)
  /-- `Submit` of a callback that runs user code. -/
  | submit (loop_ : E)
  deriving DecidableEq

/-- A callback queued on a loop. -/
inductive HandshakeTask where
  /-- `AddChannel` or `RemoveChannel` with the callback that counts the latch down. -/
  | serve (kind : Handshake) (latch : Nat)
  | other
  deriving DecidableEq

/-- What a thread does in one step. -/
inductive HandshakeAct (E : Type*) where
  | call (api : HandshakeApi E)
  /-- `Submit` reads `cancel_signal_`. -/
  | submit (loop_ : E) (task : HandshakeTask)
  /-- `lfq_.Push(runnable, on_empty)` -/
  | push (loop_ : E) (task : HandshakeTask)
  /-- `loop_cv_.NotifyOne(false)` or `loop_cv_.NotifyAll(false)` -/
  | notify (loop_ : E)
  /-- `AddChannel` or `RemoveChannel` on the loop's own thread. -/
  | serve (kind : Handshake) (latch : Nat)
  /-- User code: `OnConnect`, or the callback of `Submit`. -/
  | handler
  /-- `latch.CountDown()` -/
  | countDown (latch : Nat)
  /-- `latch.Await()` is called, after a call with the loop `loop_`. -/
  | await (loop_ : E) (latch : Nat)
  /-- Inside `latch.Await()`. -/
  | blocked (loop_ : E) (latch : Nat)
  /-- `join` reads `cancel_signal_`. -/
  | join (loop_ : E)
  /-- `cancel_signal_.store(true)` -/
  | store (loop_ : E)
  /-- `thread_.join()` -/
  | joinThread (loop_ : E)
  deriving DecidableEq

/-- Where the thread of a loop stands when it is inside no callback. -/
inductive RoundPc where
  /-- `while (!cancel_signal_.load())` -/
  | check
  /-- `lfq_.Empty() || (work = lfq_.Pop()) == nullptr` -/
  | look
  /-- `loop_cv_.Wait()` comes next. -/
  | wait
  /-- Asleep in `loop_cv_.Wait()`. -/
  | asleep
  /-- `loop` has returned. -/
  | exited
  deriving DecidableEq

/-- What the environment answers during one act. -/
structure HandshakeEnv (E : Type*) where
  /-- The compare-exchange of `Start`'s callback finds `kConnecting`. -/
  connecting : Bool
  /-- What user code calls. -/
  calls : List (HandshakeApi E)

/-- The loops and the threads. -/
structure Handshakes (T E : Type*) where
  cancel_signal_ : E → Bool
  pc : E → RoundPc
  /-- `lfq_` of every loop, oldest first. -/
  queue : E → List HandshakeTask
  stack : Caller T E → List (HandshakeAct E)
  /-- The number of latches made so far. -/
  latches : Nat
  /-- The latches whose count is zero. -/
  down : Nat → Bool

/-- Who moves. -/
inductive HandshakeLabel (T E : Type*) where
  /-- A thread other than the loops' calls something. -/
  | call (t : T) (api : HandshakeApi E)
  /-- It calls `join()` of a loop. -/
  | join (t : T) (e : E)
  /-- The next act of a thread. -/
  | act (w : Caller T E) (env : HandshakeEnv E)
  /-- The next step of a loop's thread that is inside no callback. -/
  | loop (e : E)
  /-- `condition_variable::wait` returns without a notification. -/
  | spurious (e : E)

/-- The acts of a callback. -/
def HandshakeTask.acts {E : Type*} : HandshakeTask → List (HandshakeAct E)
  | serve kind latch => [.serve kind latch]
  | other => [.handler]

/-- What comes after `Submit`. -/
def HandshakeTask.after {E : Type*} (loop_ : E) : HandshakeTask → List (HandshakeAct E)
  | serve _ latch => [.await loop_ latch]
  | other => []

namespace Handshakes

variable {T E : Type*}

/-- Loops that have been constructed. -/
def start : Handshakes T E where
  cancel_signal_ _ := false
  pc _ := .check
  queue _ := []
  stack _ := []
  latches := 0
  down _ := false

/-- The act can be executed: its thread does not block there. -/
def enabled (s : Handshakes T E) : HandshakeAct E → Bool
  | .blocked _ latch => s.down latch
  | .joinThread e => s.pc e = .exited
  | _ => true

variable [DecidableEq T] [DecidableEq E]

open Function (update)

/-- The thread of loop `e` leaves `loop_cv_.Wait()`. -/
def wake (s : Handshakes T E) (e : E) : Handshakes T E :=
  { s with pc := if s.pc e = .asleep then update s.pc e .check else s.pc }

/-- One act of thread `w`: what it changes, and what the thread does next. -/
def act (w : Caller T E) (env : HandshakeEnv E) (s : Handshakes T E) :
    HandshakeAct E → Handshakes T E × List (HandshakeAct E)
  | .call (.handshake kind e) =>
    ({ s with latches := s.latches + 1 },
      -- `current() != this`
      if w ≠ .loop e then [.submit e (.serve kind s.latches)]
      else [.serve kind s.latches, .await e s.latches])
  | .call (.submit e) => (s, [.submit e .other])
  | .submit e task => (s, if s.cancel_signal_ e then task.after e else [.push e task])
  | .push e task =>
    ({ s with queue := update s.queue e (s.queue e ++ [task]) },
      (if s.queue e = [] then [.notify e] else []) ++ task.after e)
  | .notify e => (s.wake e, [])
  | .serve .start latch =>
    (s, if env.connecting then [.handler, .countDown latch] else [.countDown latch])
  | .serve .close latch => (s, [.countDown latch])
  | .handler => (s, env.calls.map .call)
  | .countDown latch => ({ s with down := update s.down latch true }, [])
  | .await e latch => (s, if s.down latch then [] else [.blocked e latch])
  | .blocked _ _ => (s, [])
  | .join e => (s, if s.cancel_signal_ e then [] else [.store e])
  | .store e =>
    ({ s with cancel_signal_ := update s.cancel_signal_ e true }, [.notify e, .joinThread e])
  | .joinThread _ => (s, [])

/-- The next step of the thread of loop `e` inside no callback. -/
def loopStep (s : Handshakes T E) (e : E) : Option (Handshakes T E) :=
  match s.pc e with
  | .check =>
    some { s with pc := update s.pc e (if s.cancel_signal_ e then .exited else .look) }
  | .look =>
    match s.queue e with
    | [] => some { s with pc := update s.pc e .wait }
    | task :: rest => some { s with
        pc := update s.pc e .check
        queue := update s.queue e rest
        stack := update s.stack (.loop e) task.acts }
  | .wait => some { s with pc := update s.pc e .asleep }
  | .asleep | .exited => none

/-- One step of the system. -/
def step : HandshakeLabel T E → Handshakes T E → Option (Handshakes T E)
  | .call t api, s =>
    if s.stack (.other t) = [] then
      some { s with stack := update s.stack (.other t) [.call api] }
    else none
  | .join t e, s =>
    if s.stack (.other t) = [] then
      some { s with stack := update s.stack (.other t) [.join e] }
    else none
  | .act w env, s =>
    match s.stack w with
    | [] => none
    | a :: rest =>
      if s.enabled a then
        some { (s.act w env a).1 with
          stack := update s.stack w ((s.act w env a).2 ++ rest) }
      else none
  | .loop e, s => if s.stack (.loop e) = [] then s.loopStep e else none
  | .spurious e, s => if s.pc e = .asleep then some (s.wake e) else none

end Handshakes

/-- The loops, their callers and their joiners, interleaved act by act. -/
def handshakes (T E : Type*) [DecidableEq T] [DecidableEq E] :
    System (Handshakes T E) (HandshakeLabel T E) where
  init s := s = Handshakes.start
  step := Handshakes.step

end Lizlib
