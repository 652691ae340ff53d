import Mathlib.Data.Finset.Basic
import Lizlib.Net.TcpConnection

/-!
# The TCP server

A `TcpServer` with the connections `C` it has accepted, each a `TcpConnection` on its own, and the
threads `T`, any of which may call `Close` of the server.  The server keeps its connections in
`conns_`, under `mu_`: the `TcpServerWrapper` adds a connection after the custom handler's
`OnConnect` and erases it after the custom handler's `OnClose`, both on the connection's loop, and
`Close` goes through all of them.

The accept callback runs on the acceptor's loop and waits for the latch in `Start` of each
connection.  `acceptor_.Close()` has the channel removed on that loop, so between two accept
callbacks, or at once if it is called on it, and waits for the latch that the removal counts down.
An accept event that the selector has reported before may still be handled after the removal.

`Submit` on the loop of a connection waits while another thread stands between the two stores of a
`Push` or a `Pop` on its queue (see `LockFreeQueue.push_returns_iff`), or has `loop_cv_` locked.
Which loops connections share is not in this model: every connection has a `stalled` of its own.

A call of `Close` from inside a callback is one by a thread that runs while the loop's thread does
not move.  The calls of one thread on different connections may overlap, which only adds runs.  Who
owns a connection is not in this model (see `TcpOwners`).

`late` and `closed` are observations; no step of the code reads them.
-/

namespace Lizlib

/-- Where the loop's thread of a connection stands in `OnConnect` or `OnClose` of the
`TcpServerWrapper`. -/
inductive WrapperPc where
  /-- Before or in the one of `custom_handler_`. -/
  | custom
  /-- `mu_` is locked. -/
  | locked
  /-- `conns_` is changed, and `mu_` is unlocked next. -/
  | changed
  | returned
  deriving DecidableEq

/-- Where a thread stands in `TcpServer::Close`. -/
inductive ServerClosePc (C : Type*) where
  | idle
  /-- `acceptor_.Close()`, which has the channel removed. -/
  | acceptor
  /-- `latch.Await()` in it, once the channel is removed. -/
  | await
  /-- `mu_` is locked next. -/
  | lock
  /-- The loop over `conns_`, with the connections it has not come to yet. -/
  | each (left : Finset C)
  /-- `conn->Close()` -/
  | close (conn : C) (left : Finset C)
  /-- `conns_` is cleared, and `mu_` is unlocked next. -/
  | unlock
  deriving DecidableEq

/-- A server, its connections and their callers. -/
structure TcpServer (C T : Type*) where
  conns_ : Finset C
  /-- The owner of `mu_`: the loop's thread of a connection, or a thread in `Close`. -/
  mu_ : Option (C ⊕ T)
  /-- The connections that have been accepted. -/
  conn : C → Option (TcpConnection T)
  /-- The connection whose `Start` the accept callback has called. -/
  accepting : Option C
  /-- The count of the latch in `Start`. -/
  latch : C → Nat
  wrapper : C → WrapperPc
  closing : T → ServerClosePc C
  /-- Somebody stands between two stores to the queue of the connection's loop, or has `loop_cv_`
  locked. -/
  stalled : C → Bool
  /-- A connection has ended the process, or `GetConnection()` was null in the wrapper. -/
  fatal : Bool
  /-- The channel of the acceptor has been removed. -/
  removed : Bool
  /-- The connections whose `Start` had not returned by then. -/
  late : C → Bool
  /-- A `Close` has returned. -/
  closed : Bool

/-- Who moves. -/
inductive ServerLabel (C T : Type*) where
  /-- The accept callback creates a connection and calls its `Start`. -/
  | accept (c : C) (addr : Nat) (cells : Nat → UInt8)
  /-- `Start` returns, and so does the accept callback. -/
  | accepted
  /-- A step of a connection. -/
  | conn (c : C) (l : TcpLabel T)
  /-- `latch.CountDown()` in the callback of `Start`. -/
  | countDown (c : C)
  /-- The next step of the wrapper, after the custom handler has returned. -/
  | wrapper (c : C)
  /-- Another thread comes to stand between two stores to the queue of the connection's loop. -/
  | stall (c : C)
  /-- It makes the second one. -/
  | stored (c : C)
  /-- A thread calls `Close` of the server. -/
  | close (t : T)
  /-- The channel of the acceptor is removed for it; `under` is what
  `EventLoop::CheckUnderLoop(eventloop_)` returns to it. -/
  | remove (t : T) (under : Bool)
  /-- Its next step. -/
  | next (t : T)
  /-- The loop of `Close` comes to a connection. -/
  | each (t : T) (c : C)

namespace TcpServer

open Function (update)

variable {C T : Type*}

/-- A server that listens. -/
def start : TcpServer C T where
  conns_ := ∅
  mu_ := none
  conn _ := none
  accepting := none
  latch _ := 0
  wrapper _ := .custom
  closing _ := .idle
  stalled _ := false
  fatal := false
  removed := false
  late _ := false
  closed := false

variable [DecidableEq C] [DecidableEq T]

/-- The step of the connection has to wait, for another one of the same thread or in `Submit`. -/
def waits (s : TcpServer C T) (c : C) (x : TcpConnection T) : TcpLabel T → Bool
  | .call t _ => s.closing t ≠ .idle
  | .act w _ =>
    match w, (x.stack w).head? with
    | _, some (.submit _) => s.stalled c
    -- after `OnConnect`
    | none, some (.setReadable true) => s.wrapper c ≠ .returned
    -- after `OnClose`
    | none, some .clearConn => s.wrapper c ≠ .returned
    | _, _ => false
  -- the callback of `Start` ends with `latch.CountDown()`
  | .task => x.queue.head? ≠ some .start && s.latch c ≠ 0
  | _ => false

omit [DecidableEq T] in
/-- A step of the connection `c` has led to `y`. -/
def setConn (s : TcpServer C T) (c : C) (y : TcpConnection T) : TcpServer C T :=
  { s with conn := update s.conn c (some y), fatal := s.fatal || y.fatal.isSome }

omit [DecidableEq C] [DecidableEq T] in
/-- Where the wrapper stands after a step of the connection. -/
def wrapperAfter (s : TcpServer C T) (c : C) (x : TcpConnection T) : TcpLabel T → WrapperPc
  | .act none _ =>
    match (x.stack none).head? with
    | some (.setReadable true) => .custom
    | some .clearConn => .custom
    | _ => s.wrapper c
  | _ => s.wrapper c

/-- A step of a connection. -/
def connStep (s : TcpServer C T) (c : C) (x : TcpConnection T) (l : TcpLabel T) :
    Option (TcpServer C T) :=
  if s.waits c x l then none
  else (x.step l).map fun y =>
    { s.setConn c y with wrapper := update s.wrapper c (s.wrapperAfter c x l) }

omit [DecidableEq T] in
/-- `OnConnect` and `OnClose`, after the custom handler has returned; `change` is what is done to
`conns_`. -/
def wrap (s : TcpServer C T) (c : C) (x : TcpConnection T) (change : Finset C → Finset C) :
    Option (TcpServer C T) :=
  match s.wrapper c with
  | .custom =>
    if s.mu_ = none then
      some { s with mu_ := some (.inl c), wrapper := update s.wrapper c .locked }
    else none
  | .locked =>
    -- `ctx->GetConnection()->shared_from_this()`
    if x.conn_ then
      some { s with conns_ := change s.conns_, wrapper := update s.wrapper c .changed }
    else some { s with fatal := true }
  | .changed => some { s with mu_ := none, wrapper := update s.wrapper c .returned }
  | .returned => none

omit [DecidableEq T] in
/-- The next step of the wrapper for a connection. -/
def wrapperStep (s : TcpServer C T) (c : C) (x : TcpConnection T) : Option (TcpServer C T) :=
  match (x.stack none).head? with
  | some (.setReadable true) => s.wrap c x fun conns_ => insert c conns_
  | some .clearConn => s.wrap c x fun conns_ => conns_.erase c
  | _ => none

/-- `RemoveChannel` of `acceptor_.Close()`, called by thread `t`, on the acceptor's loop. -/
def removeStep (s : TcpServer C T) (t : T) (under : Bool) : Option (TcpServer C T) :=
  match s.closing t with
  | .acceptor =>
    -- a task runs between two accept callbacks
    if under = true ∨ s.accepting = none then
      some { s with
        removed := true
        late := fun c => s.late c || s.accepting = some c
        closing := update s.closing t .await }
    else none
  | _ => none

/-- The next step of `Close` by thread `t`, other than its calls of `conn->Close()`. -/
def nextStep (s : TcpServer C T) (t : T) : Option (TcpServer C T) :=
  let goto (s : TcpServer C T) (pc : ServerClosePc C) : TcpServer C T :=
    { s with closing := update s.closing t pc }
  match s.closing t with
  | .idle | .acceptor => none
  | .await => some (goto s .lock)
  | .lock =>
    if s.mu_ = none then some (goto { s with mu_ := some (.inr t) } (.each s.conns_)) else none
  | .each left => if left = ∅ then some (goto { s with conns_ := ∅ } .unlock) else none
  | .close c left =>
    match s.conn c with
    | some x => if x.stack (some t) = [] then some (goto s (.each left)) else none
    | none => none
  | .unlock => some (goto { s with mu_ := none, closed := true } .idle)

/-- `conn->Close()` for a connection the loop has not come to yet. -/
def eachStep (s : TcpServer C T) (t : T) (c : C) : Option (TcpServer C T) :=
  match s.closing t, s.conn c with
  | .each left, some x =>
    if c ∈ left then
      (x.step (.call t .close)).map fun y =>
        { s.setConn c y with closing := update s.closing t (.close c (left.erase c)) }
    else none
  | _, _ => none

/-- One step of the system; none once the process has ended. -/
def step (l : ServerLabel C T) (s : TcpServer C T) : Option (TcpServer C T) :=
  if s.fatal then none
  else match l with
    | .accept c addr cells =>
      if s.accepting = none ∧ (s.conn c).isNone then
        some { s with
          conn := update s.conn c (some (.start addr cells))
          accepting := some c
          latch := update s.latch c 1
          late := update s.late c s.removed }
      else none
    | .accepted =>
      match s.accepting with
      | some c => if s.latch c = 0 then some { s with accepting := none } else none
      | none => none
    | .conn c l => (s.conn c).bind fun x => s.connStep c x l
    | .countDown c =>
      match s.conn c with
      | some x =>
        if x.queue.head? ≠ some .start ∧ x.stack none = [] ∧ s.latch c ≠ 0 then
          some { s with latch := update s.latch c (s.latch c - 1) }
        else none
      | none => none
    | .wrapper c => (s.conn c).bind fun x => s.wrapperStep c x
    | .stall c => some { s with stalled := update s.stalled c true }
    | .stored c => some { s with stalled := update s.stalled c false }
    | .close t =>
      if s.closing t = .idle then some { s with closing := update s.closing t .acceptor } else none
    | .remove t under => s.removeStep t under
    | .next t => s.nextStep t
    | .each t c => s.eachStep t c

end TcpServer

/-- A server with any number of connections and threads. -/
def tcpServer (C T : Type*) [DecidableEq C] [DecidableEq T] :
    System (TcpServer C T) (ServerLabel C T) where
  init s := s = TcpServer.start
  step := TcpServer.step

end Lizlib
