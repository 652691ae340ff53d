import Lizlib.Net.TcpConnection

/-!
# Receiving on a connection

A `TcpConnection` with the receive queue of its socket and what epoll remembers of it.  Bytes arrive
at any time.  `handleRead` reads once, up to `kTcpRwUnit` bytes.  For a mask with `EPOLLET`, epoll
reports `EPOLLIN` only after bytes have arrived, or after an `epoll_ctl` while bytes were queued; for
one without, as long as bytes are queued.
-/

namespace Lizlib

open Events

/-- `config::kTcpRwUnit` -/
def kTcpRwUnit : Nat := 16384

/-- A connection and its socket. -/
structure TcpReceiver (T : Type*) where
  conn : TcpConnection T
  /-- The socket's receive queue. -/
  received : List UInt8
  /-- Bytes have arrived, or an `epoll_ctl` has found some, since `EPOLLIN` was last reported. -/
  ready : Bool

/-- Who moves. -/
inductive ReceiverLabel (T : Type*) where
  | conn (l : TcpLabel T)
  /-- Bytes arrive at the socket. -/
  | arrive (bytes : List UInt8)

namespace TcpReceiver

variable {T : Type*}

/-- The channel is registered for `EPOLLIN`. -/
def interested (c : TcpConnection T) : Bool :=
  c.registered.any (contains · ReceiveEvents.kReadable)

/-- The channel is registered edge-triggered. -/
def edge (c : TcpConnection T) : Bool := c.registered.any (contains · EPOLLET)

/-- epoll will report `EPOLLIN`. -/
def pending (s : TcpReceiver T) : Bool :=
  interested s.conn && (s.ready || !edge s.conn) && s.received ≠ []

/-- `read(fd_, buf, kTcpRwUnit)` -/
def read (s : TcpReceiver T) : ReadResult :=
  if s.received = [] then .again else .data (s.received.take kTcpRwUnit)

/-- The act calls `epoll_ctl` with `EPOLL_CTL_ADD` or `EPOLL_CTL_MOD`. -/
def ctl (c : TcpConnection T) : TcpAct T → Bool
  | .addChannel => c.registered.isNone
  | .update _ => c.registered.isSome
  | _ => false

/-- A connection that is about to start. -/
def start (addr : Nat) (cells : Nat → UInt8) : TcpReceiver T := ⟨.start addr cells, [], false⟩

variable [DecidableEq T]

/-- One step of the system. -/
def step : ReceiverLabel T → TcpReceiver T → Option (TcpReceiver T)
  | .arrive bytes, s =>
    if bytes = [] then none
    else some { s with
      received := s.received ++ bytes
      ready := s.ready || interested s.conn }
  | .conn (.act w env), s =>
    match s.conn.stack w with
    | [] => none
    | a :: _ =>
      (s.conn.step (.act w { env with read := s.read })).map fun c =>
        let received := if a = .handleRead then s.received.drop kTcpRwUnit else s.received
        { conn := c
          received := received
          ready := s.ready || (ctl s.conn a && interested c && received ≠ []) }
  | .conn (.collect events), s =>
    if contains events ReceiveEvents.kReadable && !s.pending then none
    else (s.conn.step (.collect events)).map fun c =>
      { s with conn := c, ready := s.ready && !contains events ReceiveEvents.kReadable }
  | .conn l, s => (s.conn.step l).map fun c => { s with conn := c }

end TcpReceiver

/-- A started connection with any number of callers and any pattern of arrivals. -/
def tcpReceiver (T : Type*) [DecidableEq T] : System (TcpReceiver T) (ReceiverLabel T) where
  init s := ∃ addr cells, s = TcpReceiver.start addr cells
  step := TcpReceiver.step

end Lizlib
