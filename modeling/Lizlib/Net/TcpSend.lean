import Lizlib.Net.TcpReceive

/-!
# Sending on a connection

A `TcpConnection` with what the kernel knows of its send buffer and what epoll remembers of it.  A
`write` that leaves bytes behind has filled the send buffer; space comes when the peer has taken some
of it.  The write interest is registered with `EPOLLET`, so epoll reports `EPOLLOUT` only after space
has come, after an `epoll_ctl` that has found some, or along with bytes that have arrived.

A reset by the peer, after which no space comes, is not in this model.
-/

namespace Lizlib

open Events

/-- A connection and its socket. -/
structure TcpSender (T : Type*) where
  conn : TcpConnection T
  /-- The last `write` has left bytes behind, and no space has come since. -/
  full : Bool
  /-- Space has come, or an `epoll_ctl` has found some, since `EPOLLOUT` was last reported. -/
  ready : Bool

/-- Who moves. -/
inductive SenderLabel (T : Type*) where
  | conn (l : TcpLabel T)
  /-- The peer has taken bytes, and there is space in the send buffer again. -/
  | space

namespace TcpSender

open TcpReceiver (ctl edge)

variable {T : Type*}

/-- The channel is registered for `EPOLLOUT`. -/
def interested (c : TcpConnection T) : Bool :=
  c.registered.any (contains · ReceiveEvents.kWritable)

/-- epoll may report these events as far as `EPOLLOUT` is concerned. -/
def reports (s : TcpSender T) (events : EventMask) : Bool :=
  !contains events ReceiveEvents.kWritable || s.ready || !edge s.conn && !s.full ||
    contains events ReceiveEvents.kReadable

/-- A connection that is about to start. -/
def start (addr : Nat) (cells : Nat → UInt8) : TcpSender T := ⟨.start addr cells, false, false⟩

variable [DecidableEq T]

/-- One step of the system. -/
def step : SenderLabel T → TcpSender T → Option (TcpSender T)
  | .space, s =>
    if s.full then some { s with full := false, ready := s.ready || interested s.conn } else none
  | .conn (.act w env), s =>
    match s.conn.stack w with
    | [] => none
    | a :: _ =>
      -- `write` fails with `EPIPE` after the shutdown
      let write := if s.conn.shutdowns = [] then env.write else none
      (s.conn.step (.act w { env with write := write })).map fun c =>
        let full := if a = .handleWrite then decide (c.output_.readableBytes ≠ 0) else s.full
        { conn := c
          full := full
          ready := s.ready || (ctl s.conn a && interested c && !full) }
  | .conn (.collect events), s =>
    if s.reports events then
      (s.conn.step (.collect events)).map fun c =>
        { s with conn := c, ready := s.ready && !contains events ReceiveEvents.kWritable }
    else none
  | .conn l, s => (s.conn.step l).map fun c => { s with conn := c }

end TcpSender

/-- A started connection with any number of callers and any pace of its peer. -/
def tcpSender (T : Type*) [DecidableEq T] : System (TcpSender T) (SenderLabel T) where
  init s := ∃ addr cells, s = TcpSender.start addr cells
  step := TcpSender.step

end Lizlib
