import Lizlib.Net.TcpConnection
import Lizlib.Net.TcpInput

/-!
# Two ends of a connection

`TcpPipe` is one direction of a TCP connection: the end that sends, with all its threads, the end that
receives, and the network between them.  The network is the kernel's: it keeps the bytes the sender's
socket has accepted, in order, and hands them to the receiver's `read`.  `read` returns zero when the
sender has shut its side down, or its connection has been destroyed and the descriptor with it, and
every byte has been read; from then on the sender's socket accepts nothing more.
-/

namespace Lizlib

/-- The sending end, the receiving end and what is between them. -/
structure TcpPipe (T : Type*) where
  sender : TcpConnection T
  /-- The sending connection has been destroyed; `~File` has closed its socket. -/
  destroyed : Bool
  /-- The bytes the sender's socket has accepted and the receiver's has not returned yet. -/
  wire : List UInt8
  receiver : TcpInput

/-- Who moves. -/
inductive PipeLabel (T : Type*) where
  /-- A step of the sending end. -/
  | send (l : TcpLabel T)
  /-- The last reference to the sending connection goes. -/
  | destroy
  /-- A readable event of the receiving end. -/
  | receive (l : InputLabel)

namespace TcpPipe

variable {T : Type*}

/-- The sender's socket accepts nothing more. -/
def ended (s : TcpPipe T) : Prop := s.destroyed = true ∨ s.sender.shutdowns ≠ []

instance (s : TcpPipe T) : Decidable s.ended := inferInstanceAs (Decidable (_ ∨ _))

/-- What `read` may return to the receiver. -/
def readable (s : TcpPipe T) (result : Option (List UInt8)) : Bool :=
  match result with
  | none => true
  | some [] => s.wire = [] ∧ s.ended
  | some bytes => bytes <+: s.wire

variable [DecidableEq T]

/-- One step of either end. -/
def step (page : Nat) : PipeLabel T → TcpPipe T → Option (TcpPipe T)
  | .send l, s => if s.destroyed then none else
    (s.sender.step l).bind fun c =>
      -- `write` fails with `EPIPE` after the shutdown
      if s.sender.shutdowns ≠ [] ∧ c.written ≠ s.sender.written then none
      else some { s with
        sender := c
        wire := s.wire ++ c.written.drop s.sender.written.length }
  | .destroy, s => if s.destroyed then none else some { s with destroyed := true }
  | .receive l, s =>
    if s.readable l.result then
      (s.receiver.step page l).map fun r =>
        { s with
          receiver := r
          -- `read` has taken these bytes from the socket
          wire := s.wire.drop (s.receiver.bytesRead l).length }
    else none

/-- Both ends as constructed. -/
def start (addr : Nat) (cells : Nat → UInt8) (addr' : Nat) (cells' : Nat → UInt8) : TcpPipe T where
  sender := .start addr cells
  destroyed := false
  wire := []
  receiver := .start addr' cells'

end TcpPipe

end Lizlib
