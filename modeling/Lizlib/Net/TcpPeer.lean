import Lizlib.Net.TcpReceive

/-!
# A connection and its peer

A `TcpConnection` whose peer sends, closes or resets at any moment.  Once the peer has reset the
connection, `getpeername` and `shutdown` fail with `ENOTCONN`, and `Socket::GetPeerAddress` and
`Socket::Shutdown` end the process.  `TcpConnection::String` asks for the peer's address, so a log
call that formats the connection does too; at the default level all of them are evaluated.

What has arrived before a reset can still be read if the kernel keeps it.  The `SIGPIPE` of a write
after the reset is not in this model.
-/

namespace Lizlib

/-! ### The log level -/

inductive Level where
  | kTrace
  | kDebug
  | kInfo
  | kWarn
  | kError
  | kDisable
  deriving DecidableEq, Repr

/-- The number of an enumerator. -/
def Level.rank : Level → Nat
  | kTrace => 0
  | kDebug => 1
  | kInfo => 2
  | kWarn => 3
  | kError => 4
  | kDisable => 5

/-- The default of `log_level`. -/
def log_level : Level := .kTrace

/-- The condition in `LOG_TRACE` … `LOG_ERROR`; only then the arguments are evaluated. -/
def Level.enabled (level : Level) : Bool := log_level.rank ≤ level.rank

/-! ### The log calls that format a connection -/

namespace TcpConnection

variable {T : Type*}

/-- The level of the log call that formats `*this` at the beginning of a task. -/
def taskLog : TcpTask T → Option Level
  | .forceShutdown => some .kTrace
  | _ => none

/-- The level of the log call in an act that formats `*this`. -/
def actLog (s : TcpConnection T) : TcpAct T → Option Level
  | .connect => some .kInfo
  | .handleClose => if s.state_ = .kDisconnected then none else some .kInfo
  | .handleSend _ => if s.state_ ≠ .kConnected then some .kTrace else none
  | .shutdownTask _ => if s.output_.readableBytes = 0 then some .kTrace else none
  | .call .forceClose => some .kTrace
  | _ => none

/-- The level of the log call in a step that formats `*this`. -/
def stepLog (s : TcpConnection T) : TcpLabel T → Option Level
  | .act w _ => (s.stack w).head?.bind s.actLog
  | .task => s.queue.head?.bind taskLog
  | _ => none

/-- The step calls `TcpConnection::String`. -/
def string (s : TcpConnection T) (l : TcpLabel T) : Bool := (s.stepLog l).any Level.enabled

end TcpConnection

/-! ### The peer -/

/-- A connection, and what its peer has done. -/
structure TcpPeer (T : Type*) where
  conn : TcpConnection T
  /-- The socket's receive queue. -/
  received : List UInt8
  /-- The peer has closed its side. -/
  closed : Bool
  /-- The peer has reset the connection. -/
  reset : Bool
  /-- `LOG_FATAL` in `Socket::GetPeerAddress` has ended the process. -/
  fatal : Bool

/-- Who moves. -/
inductive PeerLabel (T : Type*) where
  | conn (l : TcpLabel T)
  | send (bytes : List UInt8)
  | close
  /-- The kernel may keep what it has received. -/
  | reset (kept : Bool)

namespace TcpPeer

variable {T : Type*}

/-- `read(fd_, buf, kTcpRwUnit)`; after a reset it fails, or reports the end of the stream, once
there is nothing left to read. -/
def read (s : TcpPeer T) (result : ReadResult) : ReadResult :=
  if s.received ≠ [] then .data (s.received.take kTcpRwUnit)
  else if s.reset then
    match result with
    | .data [] => .data []
    | _ => .error
  else if s.closed then .data []
  else .again

/-- The kernel's answers. -/
def answer (s : TcpPeer T) : TcpLabel T → TcpLabel T
  | .act w env => .act w { env with
      read := s.read env.read
      write := if s.reset then none else env.write
      shutdown := !s.reset }
  | l => l

/-- What an act leaves in the receive queue. -/
def unread (s : TcpPeer T) : TcpLabel T → List UInt8
  | .act w _ =>
    match (s.conn.stack w).head? with
    | some .handleRead => s.received.drop kTcpRwUnit
    | _ => s.received
  | _ => s.received

/-- A connection that is about to start. -/
def start (addr : Nat) (cells : Nat → UInt8) : TcpPeer T :=
  ⟨.start addr cells, [], false, false, false⟩

variable [DecidableEq T]

/-- One step of the system; none once the process has ended. -/
def step (l : PeerLabel T) (s : TcpPeer T) : Option (TcpPeer T) :=
  if s.fatal then none
  else match l with
    | .send bytes =>
      if s.closed || s.reset then none else some { s with received := s.received ++ bytes }
    | .close => if s.reset then none else some { s with closed := true }
    | .reset kept => some { s with received := if kept then s.received else [], reset := true }
    | .conn l =>
      (s.conn.step (s.answer l)).map fun c =>
        -- the log call comes before what the step changes
        if s.conn.string l && s.reset then { s with fatal := true }
        else { s with conn := c, received := s.unread l }

end TcpPeer

end Lizlib
