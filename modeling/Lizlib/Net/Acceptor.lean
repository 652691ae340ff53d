import Lizlib.Data.Loop

/-!
# The accept loop

The read callback of an `Acceptor` calls `Socket::Accept` until it fails with `EAGAIN`, and hands every
socket it gets to `acceptor_callback_`.  The kernel answers from the backlog of the listening socket.
An aborted connection is reported once and leaves the backlog; where the process or the system has run
out of descriptors or memory nothing leaves it.
-/

namespace Lizlib

def EAGAIN : Nat := 11
def EWOULDBLOCK : Nat := EAGAIN
def EMFILE : Nat := 24

/-- An error of `accept4` other than that there is nothing to accept. -/
abbrev AcceptError := { e : Nat // e ≠ EAGAIN ∧ e ≠ EWOULDBLOCK }

namespace Acceptor

/-- An entry of the backlog. -/
inductive Pending where
  /-- A connection, with the descriptor it will get. -/
  | connection (fd : Nat)
  /-- A connection that has failed before it was accepted. -/
  | failed (error : AcceptError)

/-- `socket_channel_->Accept(&remote, &socket)`: the socket or the error code, and what is left of the
backlog.  `denied` is the resource error the kernel reports at that time. -/
def accept (denied : Option AcceptError) : List Pending → Except Nat Nat × List Pending
  | [] => (.error EAGAIN, [])
  | p :: backlog =>
    match denied, p with
    | some e, _ => (.error e.1, p :: backlog)
    | none, .connection fd => (.ok fd, backlog)
    | none, .failed e => (.error e.1, backlog)

/-- What one run of the callback has to do with. -/
structure State where
  backlog : List Pending
  /-- The calls of `accept4` so far. -/
  calls : Nat
  /-- The sockets handed to `acceptor_callback_`, in order. -/
  passed : List Nat

/-- One round of `while (true)`, with `acceptor_callback_` set or not, where `denied` is the resource
error reported at each call of `accept4`. -/
def body (acceptor_callback_ : Bool) (denied : Nat → Option AcceptError) (s : State) :
    State ⊕ State :=
  match accept (denied s.calls) s.backlog with
  | (.error code, backlog) =>
    if code = EAGAIN ∨ code = EWOULDBLOCK then
      .inr { s with backlog := backlog, calls := s.calls + 1 }
    else .inl { s with backlog := backlog, calls := s.calls + 1 }
  | (.ok socket, backlog) =>
    .inl
      { backlog := backlog
        calls := s.calls + 1
        passed := if acceptor_callback_ then s.passed ++ [socket] else s.passed }

/-- The callback is entered. -/
def start (backlog : List Pending) : State := ⟨backlog, 0, []⟩

end Acceptor

end Lizlib
