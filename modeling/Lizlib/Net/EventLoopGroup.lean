import Lizlib.Transition

/-!
# The event loop group

An `EventLoopGroup` hands its event loops out in turn: `next` draws a ticket from the atomic cursor
`next_` and reduces it to an index into `loops_`.  `Next` and the three `Submit` functions draw;
`CurrentPosLoop` only looks at the cursor.  Nothing but the cursor changes once the group has been
made, so a call is its one atomic operation on it, with the access to `loops_` that follows.

The loops are numbered as the constructor makes them.  The fields `tickets`, `accesses` and `fault`
are observations; `fault` says that an index was out of bounds.
-/

namespace Lizlib

/-- A call. -/
inductive GroupCall where
  /-- `Next()` -/
  | next
  /-- `Submit(runnable)` -/
  | submit
  /-- `SubmitAfter(runnable, delay)` -/
  | submitAfter
  /-- `SubmitEvery(runnable, delay, interval)` -/
  | submitEvery
  /-- `CurrentPosLoop()`, as in `TcpClient::GetEventLoop` -/
  | currentPosLoop
  deriving DecidableEq

/-- A group. -/
structure EventLoopGroup where
  next_ : UInt64
  size_ : UInt64
  loops_ : List Nat
  /-- How many tickets have been drawn. -/
  tickets : Nat
  /-- The accesses to `loops_`: the call and the index. -/
  accesses : List (GroupCall × Nat)
  fault : Bool

namespace EventLoopGroup

/-- `EventLoopGroup(loop_size)` -/
def start (loop_size : UInt64) : EventLoopGroup where
  next_ := 0
  size_ := loop_size
  loops_ := List.range loop_size.toNat
  tickets := 0
  accesses := []
  fault := false

/-- `next()`: the index, and the group after the draw. -/
def next (s : EventLoopGroup) : UInt64 × EventLoopGroup :=
  (s.next_ % s.size_, { s with next_ := s.next_ + 1, tickets := s.tickets + 1 })

/-- `loops_[i]` -/
def access (call : GroupCall) (i : UInt64) (s : EventLoopGroup) : EventLoopGroup :=
  { s with
    accesses := s.accesses ++ [(call, i.toNat)]
    fault := s.fault || decide (s.loops_.length ≤ i.toNat) }

/-- `Next()`, alone or in one of the functions that hand a task to the loop it returns. -/
def Next (call : GroupCall) (s : EventLoopGroup) : EventLoopGroup :=
  let (i, s) := s.next
  s.access call i

/-- `CurrentPosLoop()` -/
def CurrentPosLoop (s : EventLoopGroup) : EventLoopGroup := s.access .currentPosLoop s.next_

/-- A call by any thread; none after an access that was out of bounds. -/
def step {T : Type*} (l : T × GroupCall) (s : EventLoopGroup) : Option EventLoopGroup :=
  if s.fault then none
  else match l.2 with
    | .currentPosLoop => some s.CurrentPosLoop
    | call => some (s.Next call)

end EventLoopGroup

/-- A group of `loop_size` loops and the threads that use it, in any order of their calls. -/
def eventLoopGroup (T : Type*) (loop_size : UInt64) : System EventLoopGroup (T × GroupCall) where
  init s := s = EventLoopGroup.start loop_size
  step := EventLoopGroup.step

end Lizlib
