import Mathlib.Logic.Function.Basic
import Lizlib.Net.Event
import Lizlib.Transition

/-!
# Removing a channel

The scheduler thread, the loops `E` and any other threads `T`, at the events of the channels `Ch`.
The scheduler thread collects the channels `epoll_wait` reports and for each of them reads its
executor, to handle the event itself or to submit a task that does.  `RemoveChannel` runs on its
loop's thread, or submits itself to it.  Here every task carries its own channel and mask.

A thread is a stack of `RemovalAct`s, each of which touches shared state once.  What a handler or a
callback calls is decided by the environment.

The fields after `stack` are observations; no step of the code reads them.
-/

namespace Lizlib

/-- The threads. -/
inductive LoopThread (T E : Type*) where
  | scheduler
  | loop (e : E)
  | other (t : T)
  deriving DecidableEq

/-- One call `loop->RemoveChannel(channel, cb, unbind_executor)`. -/
structure RemoveCall (E Ch : Type*) where
  loop : E
  channel : Ch
  unbind_executor : Bool
  deriving DecidableEq

/-- A callable queued on a loop. -/
inductive LoopTask (Ch : Type*) where
  /-- `RemoveChannel(channel, cb)` -/
  | removeChannel (channel : Ch)
  /-- `channel->HandleEvents(events, occur_ts)` -/
  | handleEvents (channel : Ch) (events : EventMask)
  deriving DecidableEq

/-- What a thread does in one step. -/
inductive RemovalAct (E Ch : Type*) where
  /-- Enters `RemoveChannel`. -/
  | removeChannel (call : RemoveCall E Ch)
  /-- `GetSelector()->Remove(channel)` -/
  | remove (channel : Ch)
  /-- `channel->SetExecutor(nullptr)` -/
  | unbind (channel : Ch)
  /-- `cb()` -/
  | callback (channel : Ch)
  /-- `executor->Submit(…)` of `Process` -/
  | submit (e : E) (channel : Ch) (events : EventMask)
  /-- `channel->HandleEvents(events, occur_ts)` begins. -/
  | handleEvents (channel : Ch) (events : EventMask)
  deriving DecidableEq

/-- The channels and the threads. -/
structure ChannelRemoval (T E Ch : Type*) where
  /-- The channels in `register_map_` and in the kernel's interest list. -/
  registered : Ch → Bool
  /-- `GetExecutor()` of every channel. -/
  executor : Ch → Option E
  /-- The entries of `SelectedChannels` that `Process` has yet to come to. -/
  selected : List (Ch × EventMask)
  /-- The tasks of every loop, oldest first. -/
  queue : E → List (LoopTask Ch)
  stack : LoopThread T E → List (RemovalAct E Ch)
  /-- The channels whose `HandleEvents` has begun, in order. -/
  handled : List Ch
  /-- The channels whose callback of `RemoveChannel` has run, in order. -/
  removed : List Ch

/-- Who moves. -/
inductive RemovalLabel (T E Ch : Type*) where
  /-- A thread that is neither a loop nor the scheduler calls `RemoveChannel`. -/
  | removeChannel (t : T) (call : RemoveCall E Ch)
  /-- `epoll_wait` reports these channels. -/
  | epollWait (ready : List (Ch × EventMask))
  /-- `Process` reads the executor of the next entry. -/
  | process
  /-- A loop takes its next task. -/
  | task (e : E)
  /-- The next act of a thread; a handler or callback calls `calls`. -/
  | act (w : LoopThread T E) (calls : List (RemoveCall E Ch))

/-- The acts of a task on loop `e`. -/
def LoopTask.act {E Ch : Type*} (e : E) : LoopTask Ch → RemovalAct E Ch
  -- the closure does not pass `unbind_executor` on
  | removeChannel channel => .removeChannel ⟨e, channel, true⟩
  | handleEvents channel events => .handleEvents channel events

namespace ChannelRemoval

variable {T E Ch : Type*}

/-- Channels that have been added to their loops. -/
def start (registered : Ch → Bool) (executor : Ch → Option E) : ChannelRemoval T E Ch where
  registered := registered
  executor := executor
  selected := []
  queue _ := []
  stack _ := []
  handled := []
  removed := []

variable [DecidableEq T] [DecidableEq E] [DecidableEq Ch]

open Function (update)

/-- `Submit` of a loop that has not been joined. -/
def submit (s : ChannelRemoval T E Ch) (e : E) (task : LoopTask Ch) : ChannelRemoval T E Ch :=
  { s with queue := update s.queue e (s.queue e ++ [task]) }

/-- One act of thread `w`: what it changes, and what the thread does next. -/
def act (w : LoopThread T E) (calls : List (RemoveCall E Ch)) (s : ChannelRemoval T E Ch) :
    RemovalAct E Ch → ChannelRemoval T E Ch × List (RemovalAct E Ch)
  | .removeChannel call =>
    -- `current() != this`
    if w ≠ .loop call.loop then
      (s.submit call.loop (.removeChannel call.channel), [])
    else
      (s, .remove call.channel ::
        if call.unbind_executor then [.unbind call.channel, .callback call.channel]
        else [.callback call.channel])
  | .remove channel => ({ s with registered := update s.registered channel false }, [])
  | .unbind channel => ({ s with executor := update s.executor channel none }, [])
  | .callback channel =>
    ({ s with removed := s.removed ++ [channel] }, calls.map .removeChannel)
  | .submit e channel events => (s.submit e (.handleEvents channel events), [])
  | .handleEvents channel _ =>
    ({ s with handled := s.handled ++ [channel] }, calls.map .removeChannel)

/-- What `Process` does with an entry, once it has read the executor of its channel. -/
def dispatch (channel : Ch) (events : EventMask) : Option E → RemovalAct E Ch
  | none => .handleEvents channel events
  | some e => .submit e channel events

/-- One step of the system. -/
def step : RemovalLabel T E Ch → ChannelRemoval T E Ch → Option (ChannelRemoval T E Ch)
  | .removeChannel t call, s =>
    match s.stack (.other t) with
    | [] => some { s with stack := update s.stack (.other t) [.removeChannel call] }
    | _ :: _ => none
  | .epollWait ready, s =>
    match s.stack .scheduler, s.selected with
    | [], [] =>
      if ∀ entry ∈ ready, s.registered entry.1 = true then some { s with selected := ready }
      else none
    | _, _ => none
  | .process, s =>
    match s.stack .scheduler, s.selected with
    | [], (channel, events) :: selected =>
      some { s with
        selected := selected
        stack := update s.stack .scheduler [dispatch channel events (s.executor channel)] }
    | _, _ => none
  | .task e, s =>
    match s.stack (.loop e), s.queue e with
    | [], task :: queue =>
      some { s with
        queue := update s.queue e queue
        stack := update s.stack (.loop e) [task.act e] }
    | _, _ => none
  | .act w calls, s =>
    match s.stack w with
    | [] => none
    | a :: rest =>
      some { (s.act w calls a).1 with
        stack := update s.stack w ((s.act w calls a).2 ++ rest) }

end ChannelRemoval

/-- The scheduler thread, the loops and the other threads, interleaved act by act. -/
def channelRemoval (T E Ch : Type*) [DecidableEq T] [DecidableEq E] [DecidableEq Ch] :
    System (ChannelRemoval T E Ch) (RemovalLabel T E Ch) where
  init s := ∃ registered executor, s = ChannelRemoval.start registered executor
  step := ChannelRemoval.step

end Lizlib
