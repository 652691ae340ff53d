import Lizlib.Net.TcpClient
import Lizlib.Net.TcpConnection

/-!
# The owners of a connection

A `TcpConnection` lives as long as a `std::shared_ptr` to it.  `TcpOwners` is a connection of a
`TcpServer` or of a `TcpClient`, from the `Submit` of `Start` on, with everything that owns it: the
server's entry in `conns_` or the client's `conn_`, the `conn` of the accept callback, every closure
that captures `shared_from_this()`, and the copies that `GetConnection` returns.  `useCount` counts
them.

A closure is an owner from its creation: as the argument of `Submit`, as the copy on the queue and
as the `work` of the loop, which is destroyed at the end of the loop's round.  A call of `Close` from
inside a callback is one by a thread that runs while the loop's thread does not move.  Nothing moves
once the last owner is gone.
-/

namespace Lizlib

/-- Whose connection it is. -/
inductive TcpSide where
  | server
  | client
  deriving DecidableEq

/-- The entry in the server's `conns_`, or the client's `conn_`. -/
inductive Member where
  | absent
  | present
  | dropped
  deriving DecidableEq

/-- Where the thread that has called `conn->Start()` stands. -/
inductive StarterPc where
  /-- The task is submitted, and `AddChannel` has not returned. -/
  | addChannel
  /-- `latch.Await()` -/
  | await
  /-- `ASSERT_FATAL(conn.use_count() == 2, …)` -/
  | check
  /-- The scope of `conn` ends. -/
  | scope
  | returned
  deriving DecidableEq

/-- Where the loop's thread stands in the `OnClose` of the server or the client. -/
inductive OnClosePc where
  /-- In `custom_handler_->OnClose`. -/
  | custom
  /-- The server: `mu_` is locked and `shared_from_this()` has returned. -/
  | erase
  /-- The server: the entry is erased, and what `shared_from_this()` has returned is still there. -/
  | release
  /-- The client: `client_->conn_.reset()` -/
  | reset
  | done
  deriving DecidableEq

/-- Where a thread stands in `Close` of the server or the client. -/
inductive ClosePc where
  | idle
  /-- The server: `acceptor_.Close()` has returned, `mu_` is locked next. -/
  | lock
  /-- The server: `conn->Close()` -/
  | each
  /-- The server: `conns_.clear()` -/
  | clear
  /-- The client: `if (conn_)` -/
  | ifConn
  /-- The client: `conn_->Close()` -/
  | onConn
  deriving DecidableEq

/-- A connection and its owners. -/
structure TcpOwners (T : Type*) where
  side : TcpSide
  conn : TcpConnection T
  /-- `Start` was called by the loop's own thread. -/
  onLoop : Bool
  starter : StarterPc
  /-- The count of the latch in `Start`. -/
  latch : Nat
  member : Member
  /-- Which of the tasks on the loop's queue capture `self`. -/
  queued : List Bool
  /-- Whether the task that the loop executes captures `self`; none before the next one. -/
  work : Option Bool
  /-- The threads with a closure that captures `self` as their argument of `Submit`. -/
  closures : List (Option T)
  /-- The loop's thread is in `ForceClose`. -/
  forceClose : Bool
  onClose : OnClosePc
  /-- The server's `mu_`. -/
  locked : Bool
  closing : T → ClosePc
  /-- The client's `state_`. -/
  state_ : TcpClientState
  /-- The copies that `GetConnection` has returned. -/
  copies : Nat
  /-- The client is destroyed. -/
  destroyed : Bool
  /-- The assertion of the accept callback has failed. -/
  fatal : Bool

/-- Who moves. -/
inductive OwnersLabel (T : Type*) where
  | conn (l : TcpLabel T)
  /-- `Submit` returns and destroys its argument. -/
  | submitted (w : Option T)
  /-- The next step of the `OnConnect` or `OnClose` of the server or the client. -/
  | handler
  /-- `latch.CountDown()` -/
  | countDown
  /-- The loop's round ends and destroys `work`. -/
  | finish
  /-- The next step of the thread that has called `conn->Start()`. -/
  | starter
  /-- A thread calls `Close` of the server or the client. -/
  | close (t : T)
  /-- Its next step. -/
  | next (t : T)
  | getConnection
  /-- A copy that `GetConnection` has returned is destroyed. -/
  | drop
  /-- `~TcpClient` -/
  | destroy

/-- The member is released, if there is one. -/
def Member.drop : Member → Member
  | present => .dropped
  | m => m

namespace TcpOwners

variable {T : Type*}

/-! ### The owners -/

/-- The owners of the thread in `Start`: the server's `conn`, and the arguments of `AddChannel` and
`Submit`. -/
def starterOwners (s : TcpOwners T) : Nat :=
  (if s.side = .server ∧ s.starter ≠ .returned then 1 else 0) +
    (if s.starter = .addChannel then if s.onLoop then 1 else 2 else 0)

/-- The closures that capture `self`: queued, executed, or arguments of `Submit`. -/
def callbacks (s : TcpOwners T) : Nat :=
  s.queued.count true + (if s.work = some true then 1 else 0) + s.closures.length

/-- What `shared_from_this()` has returned in the server's `OnClose`. -/
def temporaries (s : TcpOwners T) : Nat :=
  if s.onClose = .erase ∨ s.onClose = .release then 1 else 0

/-- `use_count()` -/
def useCount (s : TcpOwners T) : Nat :=
  s.starterOwners + (if s.member = .present then 1 else 0) + s.callbacks + s.temporaries + s.copies

/-! ### The connection's own steps -/

variable [DecidableEq T]

/-- `Submit` has not returned, although the task is queued. -/
def inSubmit (s : TcpOwners T) (w : Option T) : Bool :=
  w ∈ s.closures &&
    match (s.conn.stack w).head? with
    | some (.submit _) => false
    | _ => true

/-- The step has to wait: for another of the same thread that the connection knows nothing of. -/
def waits (s : TcpOwners T) : TcpLabel T → Bool
  | .call t _ => s.closing t ≠ .idle || s.inSubmit (some t)
  | .act w _ => s.inSubmit w ||
      match (s.conn.stack w).head? with
      -- after `OnConnect`
      | some (.setReadable true) => s.side = .server && s.member = .absent
      -- after `OnClose`
      | some .clearConn => s.onClose ≠ .done
      | _ => false
  | .task => s.work ≠ none
  | _ => false

/-- What a step of the connection does to its owners. -/
def observe (s : TcpOwners T) (c : TcpConnection T) : TcpLabel T → TcpOwners T
  | .task => { s with conn := c, work := s.queued.head?, queued := s.queued.tail }
  | .dispatch => { s with conn := c, queued := s.queued ++ [false] }
  | .act w _ =>
    match (s.conn.stack w).head? with
    | some (.call (.send _)) =>
      { s with conn := c, closures := if w = none then s.closures else w :: s.closures }
    | some (.call .forceClose) =>
      { s with
        conn := c
        forceClose := if w = none then s.conn.state_ ≠ .kDisconnected else s.forceClose }
    | some .storeDisconnected =>
      -- the closure of `handleClose` captures `this`, the one of `ForceClose` captures `self`
      if w = none ∧ s.forceClose = false then { s with conn := c }
      else { s with
        conn := c
        closures := w :: s.closures
        forceClose := if w = none then false else s.forceClose }
    | some (.submit _) => { s with conn := c, queued := s.queued ++ [decide (w ∈ s.closures)] }
    | some .clearConn => { s with conn := c, onClose := .custom }
    | _ => { s with conn := c }
  | _ => { s with conn := c }

/-! ### The server and the client -/

omit [DecidableEq T] in
/-- `OnConnect` and `OnClose`, after the custom handler has returned. -/
def handlerStep (s : TcpOwners T) : Option (TcpOwners T) :=
  match (s.conn.stack none).head?, s.side, s.onClose with
  | some (.setReadable true), .server, _ =>
    -- `conns_.emplace(…)`
    if s.member = .absent ∧ s.locked = false then some { s with member := .present } else none
  | some .clearConn, .server, .custom =>
    -- after an earlier `OnClose`, `GetConnection()` is null
    if s.locked = true ∨ s.conn.conn_ = false then none
    else some { s with locked := true, onClose := .erase }
  | some .clearConn, .server, .erase => some { s with member := s.member.drop, onClose := .release }
  | some .clearConn, .server, .release => some { s with locked := false, onClose := .done }
  | some .clearConn, .client, .custom =>
    -- `client_` dangles once the client is destroyed
    if s.destroyed then none else some { s with state_ := .kDisconnected, onClose := .reset }
  | some .clearConn, .client, .reset =>
    if s.destroyed then none else some { s with member := s.member.drop, onClose := .done }
  | _, _, _ => none

omit [DecidableEq T] in
/-- The thread that has called `conn->Start()`. -/
def starterStep (s : TcpOwners T) : Option (TcpOwners T) :=
  match s.starter with
  | .addChannel =>
    -- the loop's own thread has run the callback inside `AddChannel`
    if s.onLoop = true ∧ (s.latch ≠ 0 ∨ s.conn.stack none ≠ []) then none
    else some { s with starter := .await }
  | .await =>
    if s.latch = 0 then
      some { s with starter := match s.side with | .server => .check | .client => .returned }
    else none
  | .check => some (if s.useCount = 2 then { s with starter := .scope } else { s with fatal := true })
  | .scope => some { s with starter := .returned }
  | .returned => none

/-- `Close` of the server or the client, by thread `t`. -/
def closeStep (s : TcpOwners T) (t : T) : Option (TcpOwners T) :=
  let goto (s : TcpOwners T) (pc : ClosePc) : TcpOwners T :=
    { s with closing := Function.update s.closing t pc }
  match s.closing t with
  | .idle => none
  | .lock => if s.locked then none else some (goto { s with locked := true } .each)
  | .each =>
    if s.member = .present then
      (s.conn.step (.call t .close)).map fun c => goto { s with conn := c } .clear
    else some (goto s .clear)
  | .clear =>
    if s.conn.stack (some t) = [] then
      some (goto { s with member := s.member.drop, locked := false } .idle)
    else none
  | .ifConn => some (goto s (if s.member = .present then .onConn else .idle))
  | .onConn =>
    if s.member = .present then
      (s.conn.step (.call t .close)).map fun c => goto { s with conn := c } .idle
    else none

/-- One step of the system; none once the process has ended or the connection is destroyed. -/
def step (l : OwnersLabel T) (s : TcpOwners T) : Option (TcpOwners T) :=
  if s.fatal = true ∨ s.conn.fatal ≠ none ∨ s.useCount = 0 then none
  else match l with
    | .conn l => if s.waits l then none else (s.conn.step l).map fun c => s.observe c l
    | .submitted w =>
      if s.inSubmit w then some { s with closures := s.closures.erase w } else none
    | .handler => if s.inSubmit none then none else s.handlerStep
    | .countDown =>
      if s.work ≠ none ∧ s.conn.stack none = [] ∧ s.inSubmit none = false ∧ s.latch ≠ 0 then
        some { s with latch := s.latch - 1 }
      else none
    | .finish =>
      if s.work ≠ none ∧ s.conn.stack none = [] ∧ s.inSubmit none = false ∧ s.latch = 0 ∧
          (s.onLoop = true → s.starter = .returned) then
        some { s with work := none }
      else none
    | .starter => s.starterStep
    | .close t =>
      if s.closing t ≠ .idle ∨ s.destroyed = true then none
      else match s.side with
        | .server => some { s with closing := Function.update s.closing t .lock }
        | .client =>
          if s.state_ = .kConnected then some { s with state_ := .kDisconnecting }
          else some { s with closing := Function.update s.closing t .ifConn }
    | .next t => if s.destroyed then none else s.closeStep t
    | .getConnection =>
      if s.side = .client ∧ s.destroyed = false ∧ s.member = .present then
        some { s with copies := s.copies + 1 }
      else none
    | .drop => if 0 < s.copies then some { s with copies := s.copies - 1 } else none
    | .destroy =>
      if s.side = .client ∧ s.destroyed = false ∧ s.starter = .returned then
        some { s with member := s.member.drop, destroyed := true }
      else none

/-- A connection right after `Start` has submitted its task, or has begun to run it itself. -/
def start (side : TcpSide) (onLoop : Bool) (addr : Nat) (cells : Nat → UInt8) : TcpOwners T where
  side := side
  conn :=
    let c : TcpConnection T := .start addr cells
    if onLoop then
      { c with queue := [], stack := Function.update c.stack none TcpTask.start.acts }
    else c
  onLoop := onLoop
  starter := .addChannel
  latch := 1
  member := match side with | .server => .absent | .client => .present
  queued := if onLoop then [] else [true]
  work := if onLoop then some false else none
  closures := []
  forceClose := false
  onClose := .custom
  locked := false
  closing _ := .idle
  state_ := .kConnected
  copies := 0
  destroyed := false
  fatal := false

end TcpOwners

/-- A connection of a server or a client, with any number of threads. -/
def tcpOwners (T : Type*) [DecidableEq T] : System (TcpOwners T) (OwnersLabel T) where
  init s := ∃ side onLoop addr cells, s = TcpOwners.start side onLoop addr cells
  step := TcpOwners.step

end Lizlib
