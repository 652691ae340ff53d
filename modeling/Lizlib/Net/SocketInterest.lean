import Lizlib.Net.Event
import Lizlib.Transition

/-!
# The interest of a socket channel

A `SocketChannel` that is registered with no interest, and any sequence of `SetReadable` and
`SetWritable` on it.  Both compute `events_` and hand it to `Selector::Update` if it has changed.

`readable` and `writable` are observations; no step of the code reads them.
-/

namespace Lizlib

open Events

/-- A registered channel. -/
structure SocketInterest where
  events_ : EventMask
  /-- The mask last given to the selector. -/
  given : EventMask
  /-- The argument of the last `SetReadable`. -/
  readable : Bool
  /-- The argument of the last `SetWritable`. -/
  writable : Bool

/-- A call of one of the two setters. -/
inductive InterestCall where
  | setReadable (on : Bool)
  | setWritable (on : Bool)
  deriving DecidableEq

namespace SocketInterest

/-- A channel registered with `kNoneEvent`. -/
def start : SocketInterest := ⟨SelectEvents.kNoneEvent, SelectEvents.kNoneEvent, false, false⟩

/-- `if (prev != events_) selector_->Update(shared_from_this(), events_)` -/
def setEvents (s : SocketInterest) (events : EventMask) : SocketInterest :=
  { s with events_ := events, given := if s.events_ ≠ events then events else s.given }

/-- One call. -/
def step (l : InterestCall) (s : SocketInterest) : Option SocketInterest :=
  match l with
  | .setReadable on =>
    some { s.setEvents (SocketChannel.setReadable s.events_ on) with readable := on }
  | .setWritable on =>
    some { s.setEvents (SocketChannel.setWritable s.events_ on) with writable := on }

end SocketInterest

/-- A registered channel and any sequence of calls of its setters. -/
def socketInterest : System SocketInterest InterestCall where
  init s := s = SocketInterest.start
  step := SocketInterest.step

end Lizlib
