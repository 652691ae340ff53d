import Mathlib.Logic.Embedding.Basic
import Lizlib.Net.Event
import Lizlib.Transition

/-!
# The epoll selector

`EpollSelector` keeps the registered channels twice: in `register_map_`, and in the kernel's interest
list, which is keyed by descriptor.  `Add`, `Remove` and `Update` look the channel up in the map,
change the map and then the interest list, in one atomic step each; the calls on different channels
interleave, and those on one channel do not overlap.

The kernel refuses to add a descriptor twice and to change or remove one it does not have.

`calls` is an observation; no step of the code reads it.
-/

namespace Lizlib

/-- A call on one channel. -/
inductive EpollCall where
  | add (events : EventMask)
  | update (events : EventMask)
  | remove
  deriving DecidableEq

/-- What the call leaves in the map once it changes it. -/
def EpollCall.entry : EpollCall → Option EventMask
  | add events | update events => some events
  | remove => none

/-- How far a call has come. -/
inductive EpollPc where
  /-- No call is in progress. -/
  | idle
  /-- `register_map_.Contains(channel)` comes next. -/
  | contains (call : EpollCall)
  /-- `register_map_.Put(channel, events)` or `register_map_.Remove(channel)` comes next. -/
  | map (call : EpollCall)
  /-- `internalUpdate` comes next. -/
  | ctl (call : EpollCall)
  deriving DecidableEq

/-- Why the process has ended. -/
inductive EpollFatal where
  /-- `LOG_FATAL` in `Update`. -/
  | nonExisting
  /-- `ASSERT_FATAL` in `internalUpdate`. -/
  | epollCtl
  deriving DecidableEq

/-- The selector, the kernel's interest list and the calls on the channels `Ch`. -/
structure EpollSelector (Ch : Type*) where
  register_map_ : Ch → Option EventMask
  /-- The mask and the `data.ptr` of each descriptor in the interest list. -/
  interest : Nat → Option (EventMask × Ch)
  /-- Where the call on each channel stands. -/
  pc : Ch → EpollPc
  /-- The calls made on each channel, in order. -/
  calls : Ch → List EpollCall
  fatal : Option EpollFatal

namespace EpollSelector

variable {Ch : Type*} [DecidableEq Ch]

open Function

/-- A selector without channels. -/
def start : EpollSelector Ch := ⟨fun _ => none, fun _ => none, fun _ => .idle, fun _ => [], none⟩

/-- `register_map_.Contains(channel)`, and what the call does next. -/
def lookUp (s : EpollSelector Ch) (c : Ch) (call : EpollCall) : EpollSelector Ch :=
  match call, s.register_map_ c with
  | .add _, some _ => { s with pc := update s.pc c .idle }
  | .add _, none => { s with pc := update s.pc c (.map call) }
  | .update _, some _ => { s with pc := update s.pc c (.map call) }
  | .update _, none => { s with fatal := some .nonExisting }
  | .remove, some _ => { s with pc := update s.pc c (.map call) }
  | .remove, none => { s with pc := update s.pc c .idle }

/-- `register_map_.Put(channel, events.Value())` or `register_map_.Remove(channel)` -/
def setMap (s : EpollSelector Ch) (c : Ch) (call : EpollCall) : EpollSelector Ch :=
  { s with
    register_map_ := update s.register_map_ c call.entry
    pc := update s.pc c (.ctl call) }

/-- `internalUpdate(channel, epoll_op, select_events)` for a channel with descriptor `fd`. -/
def internalUpdate (s : EpollSelector Ch) (fd : Nat) (c : Ch) (call : EpollCall) :
    EpollSelector Ch :=
  match call, s.interest fd with
  -- `EPOLL_CTL_ADD`
  | .add events, none =>
    { s with interest := update s.interest fd (some (events, c)), pc := update s.pc c .idle }
  | .add _, some _ => { s with fatal := some .epollCtl }
  -- `EPOLL_CTL_MOD`
  | .update events, some _ =>
    { s with interest := update s.interest fd (some (events, c)), pc := update s.pc c .idle }
  | .update _, none => { s with fatal := some .epollCtl }
  -- `EPOLL_CTL_DEL`
  | .remove, some _ =>
    { s with interest := update s.interest fd none, pc := update s.pc c .idle }
  | .remove, none => { s with fatal := some .epollCtl }

/-- The next step of the call on a channel. -/
def act (s : EpollSelector Ch) (fd : Nat) (c : Ch) : Option (EpollSelector Ch) :=
  match s.pc c with
  | .idle => none
  | .contains call => some (s.lookUp c call)
  | .map call => some (s.setMap c call)
  | .ctl call => some (s.internalUpdate fd c call)

end EpollSelector

/-- Who moves. -/
inductive EpollLabel (Ch : Type*) where
  /-- A thread calls `Add`, `Update` or `Remove`. -/
  | call (c : Ch) (call : EpollCall)
  /-- The next step of the call on a channel. -/
  | act (c : Ch)

namespace EpollSelector

variable {Ch : Type*} [DecidableEq Ch]

/-- One step, for channels with the descriptors `fd`; none once the process has ended. -/
def step (fd : Ch ↪ Nat) (l : EpollLabel Ch) (s : EpollSelector Ch) : Option (EpollSelector Ch) :=
  if s.fatal ≠ none then none
  else match l with
    | .call c call =>
      if s.pc c = .idle then
        some { s with
          pc := Function.update s.pc c (.contains call)
          calls := Function.update s.calls c (s.calls c ++ [call]) }
      else none
    | .act c => s.act (fd c) c

end EpollSelector

/-- A selector and any number of channels with distinct descriptors. -/
def epollSelector {Ch : Type*} [DecidableEq Ch] (fd : Ch ↪ Nat) :
    System (EpollSelector Ch) (EpollLabel Ch) where
  init s := s = EpollSelector.start
  step := EpollSelector.step fd

end Lizlib
