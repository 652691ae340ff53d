import Mathlib.Logic.Function.Basic
import Lizlib.Net.Event
import Lizlib.Transition

/-!
# Adding and removing channels

`EventLoop::AddChannel` and `EventLoop::RemoveChannel` change the selector and the executor of a
channel on the thread of the loop; from any other thread they submit a task that calls them again.
The loop runs its tasks one after the other.

A channel is an element of `Ch`, a callback one of `CB`, an executor one of `E`; `none` stands for a
null pointer.  Of the selector the calls change `register_map_`.  `invoked` is an observation.
-/

namespace Lizlib

/-- A call, with all its arguments. -/
inductive ChannelCall (Ch CB : Type*) where
  /-- `AddChannel(channel, cb, mode)` -/
  | addChannel (channel : Ch) (cb : Option CB) (mode : EventMask)
  /-- `RemoveChannel(channel, cb, unbind_executor)` -/
  | removeChannel (channel : Ch) (cb : Option CB) (unbind_executor : Bool)
  deriving DecidableEq

/-- A submitted task, with what it has captured and passes on. -/
inductive ChannelTask (Ch CB : Type*) where
  /-- `AddChannel(channel, cb, mode);` -/
  | addChannel (channel : Ch) (cb : Option CB) (mode : EventMask)
  /-- `RemoveChannel(channel, cb);` -/
  | removeChannel (channel : Ch) (cb : Option CB)

/-- The channels of a loop and its tasks. -/
structure LoopChannels (Ch CB E : Type*) where
  /-- `GetSelector()->register_map_` -/
  register_map_ : Ch → Option EventMask
  /-- `GetExecutor()` of each channel. -/
  executor : Ch → Option E
  lfq_ : List (ChannelTask Ch CB)
  cancel_signal_ : Bool
  /-- The callbacks that have been invoked, in order. -/
  invoked : List CB

namespace LoopChannels

variable {Ch CB E : Type*} [DecidableEq Ch]

open Function (update)

/-- A loop that runs, without tasks. -/
def start (register_map_ : Ch → Option EventMask) (executor : Ch → Option E) :
    LoopChannels Ch CB E :=
  ⟨register_map_, executor, [], false, []⟩

/-- `Submit(runnable)` -/
def Submit (task : ChannelTask Ch CB) (s : LoopChannels Ch CB E) : LoopChannels Ch CB E :=
  if s.cancel_signal_ then s else { s with lfq_ := s.lfq_ ++ [task] }

/-- `EpollSelector::Add(channel, events)` -/
def Add (channel : Ch) (events : EventMask) (s : LoopChannels Ch CB E) : LoopChannels Ch CB E :=
  if (s.register_map_ channel).isSome then s
  else { s with register_map_ := update s.register_map_ channel (some events) }

/-- `EpollSelector::Remove(channel)` -/
def Remove (channel : Ch) (s : LoopChannels Ch CB E) : LoopChannels Ch CB E :=
  if (s.register_map_ channel).isNone then s
  else { s with register_map_ := update s.register_map_ channel none }

/-- `channel->SetExecutor(executor)` -/
def SetExecutor (channel : Ch) (executor : Option E) (s : LoopChannels Ch CB E) :
    LoopChannels Ch CB E :=
  { s with executor := update s.executor channel executor }

/-- `if (cb) cb();` -/
def invoke (cb : Option CB) (s : LoopChannels Ch CB E) : LoopChannels Ch CB E :=
  { s with invoked := s.invoked ++ cb.toList }

/-- `AddChannel(channel, cb, mode)` of the loop `this`, on its own thread or on another one. -/
def AddChannel (this : E) (onLoop : Bool) (channel : Ch) (cb : Option CB) (mode : EventMask)
    (s : LoopChannels Ch CB E) : LoopChannels Ch CB E :=
  if !onLoop then s.Submit (.addChannel channel cb mode)
  else
    let s := s.Add channel mode
    let s := s.SetExecutor channel (some this)
    s.invoke cb

/-- `RemoveChannel(channel, cb, unbind_executor)`, on the thread of the loop or on another one; the
task leaves the last argument to its default. -/
def RemoveChannel (s : LoopChannels Ch CB E) (onLoop : Bool) (channel : Ch) (cb : Option CB)
    (unbind_executor : Bool := true) : LoopChannels Ch CB E :=
  if !onLoop then s.Submit (.removeChannel channel cb)
  else
    let s := s.Remove channel
    let s := if unbind_executor then s.SetExecutor channel none else s
    s.invoke cb

/-- A call of the loop `this`, on its own thread or on another one. -/
def call (this : E) (onLoop : Bool) (c : ChannelCall Ch CB) (s : LoopChannels Ch CB E) :
    LoopChannels Ch CB E :=
  match c with
  | .addChannel channel cb mode => s.AddChannel this onLoop channel cb mode
  | .removeChannel channel cb unbind_executor => s.RemoveChannel onLoop channel cb unbind_executor

/-- A task runs on the thread of the loop `this`. -/
def runTask (this : E) (task : ChannelTask Ch CB) (s : LoopChannels Ch CB E) :
    LoopChannels Ch CB E :=
  match task with
  | .addChannel channel cb mode => s.AddChannel this true channel cb mode
  | .removeChannel channel cb => s.RemoveChannel true channel cb

/-- The calls, one after the other, on the thread of the loop. -/
def direct (this : E) (cs : List (ChannelCall Ch CB)) (s : LoopChannels Ch CB E) :
    LoopChannels Ch CB E :=
  cs.foldl (fun s c => s.call this true c) s

end LoopChannels

/-- Who moves. -/
inductive ChannelLabel (Ch CB : Type*) where
  /-- Another thread makes a call. -/
  | call (c : ChannelCall Ch CB)
  /-- The loop runs its next task. -/
  | task

namespace LoopChannels

variable {Ch CB E : Type*} [DecidableEq Ch]

/-- One step. -/
def step (this : E) (l : ChannelLabel Ch CB) (s : LoopChannels Ch CB E) :
    Option (LoopChannels Ch CB E) :=
  match l with
  | .call c => some (s.call this false c)
  | .task =>
    match s.lfq_ with
    | [] => none
    | task :: lfq => some ({ s with lfq_ := lfq }.runTask this task)

end LoopChannels

/-- The loop `this`, which nobody joins, and other threads that add and remove channels, starting
with any channels registered and any executors. -/
def loopChannels (Ch CB : Type*) {E : Type*} [DecidableEq Ch] (this : E) :
    System (LoopChannels Ch CB E) (ChannelLabel Ch CB) where
  init s := ∃ register_map_ executor, s = LoopChannels.start register_map_ executor
  step := LoopChannels.step this

end Lizlib
