import Lizlib.Common.Buffer
import Lizlib.Net.Event
import Lizlib.Transition

/-!
# The TCP connection

A started `TcpConnection`, its channel, the tasks queued on its loop and every thread that calls
it.  A thread is a stack of `TcpAct`s, each of which touches shared state once: a load, store or
compare-exchange on `state_`, a `Submit`, an `epoll_ctl`, a system call.  `TcpConnection.act` is
what one of them does, and the acts it leaves to be done next by the same thread.  The loop's own
thread is `none`; when its stack is empty it takes the next task of the queue.

The scheduler thread collects the events of the channel and queues a `HandleEvents` task that
carries its own mask.  Everything the environment decides comes with the label: the results of
`read` and `write`, the memory, and the calls a handler makes from inside a callback.

The fields after `collected` are observations; no step of the code reads them.
-/

namespace Lizlib

inductive TcpState where
  | kConnected
  | kDisconnected
  | kConnecting
  | kDisconnecting
  deriving DecidableEq, Repr

/-- The contents of a `std::string` or of the memory behind a `std::string_view`, whose size is at
most `PTRDIFF_MAX`. -/
abbrev Bytes := { l : List UInt8 // l.length < 2 ^ 63 }

/-- The public operations of a connection; `Send(Buffer*)`, which reads the buffer it is given, is
in `BufferSender`. -/
inductive TcpApi where
  | send (buffer : Bytes)
  | close
  | shutdown (close_read : Bool)
  | forceShutdown
  | forceClose
  deriving DecidableEq

/-- The callbacks of a `ChannelHandler`. -/
inductive Callback where
  | onConnect
  | onRead (buffer : List UInt8)
  | onWriteComplete
  | onError
  | onClose
  deriving DecidableEq

/-- The argument of one call of `Send`. -/
structure Payload (T : Type*) where
  /-- The thread that called. -/
  caller : Option T
  buffer : Bytes
  /-- `state_` was `kConnected` when it called. -/
  connected : Bool
  deriving DecidableEq

/-- A callable queued on the loop. -/
inductive TcpTask (T : Type*) where
  /-- The task of `Start`: `AddChannel` and its callback. -/
  | start
  | handleEvents (events : EventMask)
  | handleSend (buffer : Payload T)
  | handleRemove
  | close
  | shutdown (close_read : Bool)
  | forceShutdown
  deriving DecidableEq

/-- What a thread does in one step. -/
inductive TcpAct (T : Type*) where
  /-- Enters a public operation, up to its first access to `state_`. -/
  | call (api : TcpApi)
  /-- `loop_->Submit(task)` -/
  | submit (task : TcpTask T)
  /-- `state_ = kDisconnected` of `ForceClose` and `handleClose`. -/
  | storeDisconnected
  /-- `state_ = kDisconnecting` of `ForceShutdown`. -/
  | storeDisconnecting
  /-- `Selector::Add(channel, kNoneEvent)` -/
  | addChannel
  /-- The compare-exchange in the callback of `Start`. -/
  | connect
  | setReadable (on : Bool)
  | setWritable (on : Bool)
  /-- `Selector::Update(channel, events)` -/
  | update (events : EventMask)
  /-- `handleSend`, up to its load of `state_`. -/
  | handleSend (buffer : Payload T)
  /-- `output_.Append(buffer)` -/
  | append (buffer : Payload T)
  | handleRead
  | handleWrite
  | handleError
  | handleClose
  | handleRemove
  /-- A call of the handler. -/
  | callback (callback : Callback)
  /-- The check of `state_` at the end of `handleWrite`. -/
  | checkDisconnecting
  /-- `channel_->Shutdown(close_read)` -/
  | channelShutdown (close_read : Bool)
  /-- `context_->conn_ = nullptr` -/
  | clearConn
  /-- The body of the task of `Close`. -/
  | closeTask
  /-- The body of the task of `Shutdown`. -/
  | shutdownTask (close_read : Bool)
  deriving DecidableEq

/-- Why the process has ended, or the loop's thread never returns. -/
inductive TcpFatal where
  /-- `LOG_FATAL` in `handleWrite`. -/
  | notWritable
  /-- `LOG_FATAL` in `EpollSelector::Update`. -/
  | unregistered
  /-- `ASSERT_FATAL` in `handleRemove`. -/
  | notDisconnected
  /-- `ASSERT_FATAL` in `handleSend`. -/
  | outputFull
  /-- `LOG_FATAL` in `Socket::Shutdown`. -/
  | shutdownFailed
  /-- A fault inside `output_`. -/
  | output (fault : Fault)
  deriving DecidableEq

/-- What `input_.Append(channel_->GetFile(), …)` returns. -/
inductive ReadResult where
  /-- `-1` with `EWOULDBLOCK` or `EAGAIN`. -/
  | again
  /-- `-1` with another error. -/
  | error
  /-- The number of bytes read, zero at the end of the stream. -/
  | data (l : List UInt8)

/-- An allocator: no block is larger than `PTRDIFF_MAX`. -/
abbrev Memory := { alloc : Alloc // ∀ n, 2 ^ 63 ≤ n → alloc n = none }

/-- What the environment answers during one act. -/
structure TcpEnv where
  read : ReadResult
  /-- The count `write` returns, at most the one asked for; `none` on an error. -/
  write : Option Nat
  /-- What the handler calls from inside a callback. -/
  calls : List TcpApi
  memory : Memory
  /-- `::shutdown` succeeds. -/
  shutdown : Bool

/-- A connection with its callers `T`. -/
structure TcpConnection (T : Type*) where
  state_ : TcpState
  output_ : Buffer
  /-- `context_->conn_ != nullptr` -/
  conn_ : Bool
  /-- The channel's `events_`. -/
  events_ : EventMask
  /-- The mask the channel is registered with, in `register_map_` and in the kernel. -/
  registered : Option EventMask
  /-- The tasks on the loop's queue, oldest first. -/
  queue : List (TcpTask T)
  /-- What each thread has yet to do; `none` is the loop's own. -/
  stack : Option T → List (TcpAct T)
  /-- The mask `epoll_wait` has reported and `Process` not yet submitted. -/
  collected : Option EventMask
  /-- The arguments of all calls of `Send`, in call order. -/
  calls : List (Payload T)
  /-- The arguments `handleSend` has appended to `output_`, in order. -/
  accepted : List (Payload T)
  /-- The bytes the socket has accepted. -/
  written : List UInt8
  /-- The calls of the handler, with `GetConnection() != nullptr` of their context. -/
  delivered : List (Callback × Bool)
  /-- The calls of `channel_->Shutdown`. -/
  shutdowns : List Bool
  /-- Who won the transition of `Shutdown`, and what it had sent while connected. -/
  winner : Option (Option T × List (Payload T))
  fatal : Option TcpFatal

/-- The payloads a thread has sent. -/
def sentBy {T : Type*} [DecidableEq T] (w : Option T) (l : List (Payload T)) : List (Payload T) :=
  l.filter fun p => p.caller = w

/-- The payloads with bytes in them that a thread has sent on the connected connection. -/
def owed {T : Type*} [DecidableEq T] (w : Option T) (l : List (Payload T)) : List (Payload T) :=
  l.filter fun p => p.caller = w ∧ p.connected = true ∧ p.buffer.1 ≠ []

/-- The bytes of some payloads. -/
def payloadBytes {T : Type*} (l : List (Payload T)) : List UInt8 := l.flatMap fun p => p.buffer.1

/-- The acts of a task. -/
def TcpTask.acts {T : Type*} : TcpTask T → List (TcpAct T)
  | start => [.addChannel, .connect]
  | handleEvents events => (SocketChannel.handleEvents events).map fun
    | .read => .handleRead
    | .write => .handleWrite
    | .error => .handleError
    | .close => .handleClose
  | handleSend buffer => [.handleSend buffer]
  | handleRemove => [.handleRemove]
  | close => [.closeTask]
  | shutdown close_read => [.shutdownTask close_read]
  | forceShutdown => [.setWritable false, .channelShutdown false]

namespace TcpConnection

variable {T : Type*} [DecidableEq T]

/-- `Send`, `Close`, `Shutdown`, `ForceShutdown` and `ForceClose` up to their first access to
`state_`, called by `w`. -/
def call (w : Option T) (s : TcpConnection T) : TcpApi → TcpConnection T × List (TcpAct T)
  | .send buffer =>
    let p : Payload T := ⟨w, buffer, s.state_ = .kConnected⟩
    -- `EventLoop::CheckUnderLoop(loop_)`
    ({ s with calls := s.calls ++ [p] },
      if w = none then [.handleSend p] else [.submit (.handleSend p)])
  | .close =>
    if s.state_ = .kConnected then ({ s with state_ := .kDisconnected }, [.submit .close])
    else (s, [])
  | .shutdown close_read =>
    if s.state_ = .kConnected then
      ({ s with state_ := .kDisconnecting, winner := some (w, owed w s.calls) },
        [.submit (.shutdown close_read)])
    else (s, [])
  | .forceShutdown =>
    if s.state_ = .kDisconnected then (s, []) else (s, [.storeDisconnecting])
  | .forceClose =>
    if s.state_ = .kDisconnected then (s, []) else (s, [.storeDisconnected])

/-- The acts after `SetReadable` or `SetWritable` has computed the new `events_`. -/
def setEvents (s : TcpConnection T) (events : EventMask) : TcpConnection T × List (TcpAct T) :=
  ({ s with events_ := events }, if s.events_ ≠ events then [.update events] else [])

omit [DecidableEq T] in
/-- The last part of `handleWrite`. -/
def drained (s : TcpConnection T) : List (TcpAct T) :=
  if s.output_.readableBytes = 0 then
    [.setWritable false, .callback .onWriteComplete, .checkDisconnecting]
  else []

/-- The kernel has taken the first `n` readable bytes. -/
def writeOut (s : TcpConnection T) (n : Nat) : TcpConnection T × List (TcpAct T) :=
  match s.output_.load s.output_.r_idx_ n with
  | .error f => ({ s with fatal := some (.output f) }, [])
  | .ok l =>
    match s.output_.retrieve n true with
    | .error f => ({ s with fatal := some (.output f) }, [])
    | .ok b =>
      ({ s with output_ := b, written := s.written ++ l },
        drained { s with output_ := b, written := s.written ++ l })

/-- `handleWrite` -/
def handleWrite (s : TcpConnection T) (env : TcpEnv) : TcpConnection T × List (TcpAct T) :=
  if SocketChannel.writable s.events_ = false then ({ s with fatal := some .notWritable }, [])
  else if 0 < toSigned s.output_.readableBytes then
    match env.write with
    | none => (s, [.handleError])
    | some n => s.writeOut (min n s.output_.readableBytes)
  else (s, s.drained)

/-- `output_.Append(buffer.data(), buffer.size(), false, false)` and what follows in
`handleSend`. -/
def append (s : TcpConnection T) (p : Payload T) (env : TcpEnv) : TcpConnection T × List (TcpAct T) :=
  match s.output_.append (.bytes p.buffer.1) p.buffer.1.length false false env.memory.1 with
  | .error f => ({ s with fatal := some (.output f) }, [])
  | .ok (b, left_bytes) =>
    if left_bytes = p.buffer.1.length then
      ({ s with output_ := b, accepted := s.accepted ++ [p] }, [.setWritable true])
    else ({ s with output_ := b, fatal := some .outputFull }, [])

/-- One act of thread `w`: what it changes, and what the thread does next. -/
def act (w : Option T) (env : TcpEnv) (s : TcpConnection T) :
    TcpAct T → TcpConnection T × List (TcpAct T)
  | .call api => s.call w api
  | .submit task => ({ s with queue := s.queue ++ [task] }, [])
  | .storeDisconnected => ({ s with state_ := .kDisconnected }, [.submit .handleRemove])
  | .storeDisconnecting => ({ s with state_ := .kDisconnecting }, [.submit .forceShutdown])
  | .addChannel =>
    ({ s with registered := s.registered <|> some SelectEvents.kNoneEvent }, [])
  | .connect =>
    if s.state_ = .kConnecting then
      ({ s with state_ := .kConnected }, [.callback .onConnect, .setReadable true])
    else (s, [])
  | .setReadable on => s.setEvents (SocketChannel.setReadable s.events_ on)
  | .setWritable on => s.setEvents (SocketChannel.setWritable s.events_ on)
  | .update events =>
    if s.registered.isSome then ({ s with registered := some events }, [])
    else ({ s with fatal := some .unregistered }, [])
  | .handleSend p =>
    if s.state_ ≠ .kConnected then (s, [])
    else if p.buffer.1 = [] then (s, [])
    else (s, [.append p])
  | .append p => s.append p env
  | .handleRead =>
    match env.read with
    | .again => (s, [])
    | .error => (s, [.handleError])
    | .data [] => (s, [.handleClose])
    | .data l => (s, [.callback (.onRead l)])
  | .handleWrite => s.handleWrite env
  | .handleError => (s, [.callback .onError])
  | .handleClose => if s.state_ = .kDisconnected then (s, []) else (s, [.storeDisconnected])
  | .handleRemove =>
    if s.state_ = .kDisconnected then (s, [.callback .onClose, .clearConn])
    else ({ s with fatal := some .notDisconnected }, [])
  | .callback cb => ({ s with delivered := s.delivered ++ [(cb, s.conn_)] }, env.calls.map .call)
  | .checkDisconnecting =>
    (s, if s.state_ = .kDisconnecting then [.channelShutdown false] else [])
  | .channelShutdown close_read =>
    ({ s with
        shutdowns := s.shutdowns ++ [close_read]
        fatal := if env.shutdown then s.fatal else some .shutdownFailed }, [])
  | .clearConn => ({ s with conn_ := false }, [])
  | .closeTask => (s, if s.output_.readableBytes = 0 then [.handleRemove] else [])
  | .shutdownTask close_read =>
    (s, if s.output_.readableBytes = 0 then [.setWritable false, .channelShutdown close_read]
      else [])

/-- A connection right after `Start` has submitted its task. -/
def start (addr : Nat) (cells : Nat → UInt8) : TcpConnection T where
  state_ := .kConnecting
  output_ := Buffer.sized (1 <<< 14) true addr cells
  conn_ := true
  events_ := SelectEvents.kNoneEvent
  registered := none
  queue := [.start]
  stack _ := []
  collected := none
  calls := []
  accepted := []
  written := []
  delivered := []
  shutdowns := []
  winner := none
  fatal := none

end TcpConnection

/-- Who moves. -/
inductive TcpLabel (T : Type*) where
  /-- A thread calls a public operation. -/
  | call (t : T) (api : TcpApi)
  /-- The next act of a thread. -/
  | act (w : Option T) (env : TcpEnv)
  /-- The loop's thread takes the next task. -/
  | task
  /-- `epoll_wait` reports the channel. -/
  | collect (events : EventMask)
  /-- `Process` submits the task for the event. -/
  | dispatch

namespace TcpConnection

variable {T : Type*} [DecidableEq T]

/-- What `epoll_wait` can report for a registered interest. -/
def reportable (interest events : EventMask) : Bool :=
  events ≠ 0 &&
    events &&& ~~~(Events.remove interest Events.EPOLLET ||| Events.EPOLLERR ||| Events.EPOLLHUP) = 0

/-- One step of the system; none once the process has ended. -/
def step (l : TcpLabel T) (s : TcpConnection T) : Option (TcpConnection T) :=
  if s.fatal ≠ none then none
  else match l with
    | .call t api =>
      if s.stack (some t) = [] then
        some { s with stack := Function.update s.stack (some t) [.call api] }
      else none
    | .act w env =>
      match s.stack w with
      | [] => none
      | a :: rest =>
        some { (s.act w env a).1 with
          stack := Function.update s.stack w ((s.act w env a).2 ++ rest) }
    | .task =>
      match s.stack none, s.queue with
      | [], task :: queue =>
        some { s with queue := queue, stack := Function.update s.stack none task.acts }
      | _, _ => none
    | .collect events =>
      match s.registered, s.collected with
      | some interest, none =>
        if reportable interest events then some { s with collected := some events } else none
      | _, _ => none
    | .dispatch =>
      match s.collected with
      | some events =>
        some { s with collected := none, queue := s.queue ++ [.handleEvents events] }
      | none => none

end TcpConnection

/-- A started connection with any number of callers, interleaved act by act. -/
def tcpConnection (T : Type*) [DecidableEq T] : System (TcpConnection T) (TcpLabel T) where
  init s := ∃ addr cells, s = TcpConnection.start addr cells
  step := TcpConnection.step

end Lizlib
