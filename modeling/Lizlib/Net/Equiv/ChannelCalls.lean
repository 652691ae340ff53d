import Mathlib.Data.List.Induction
import Lizlib.Net.ChannelCalls
import Lizlib.Net.Equiv.EpollSelector

/-!
# When a call means the same from every thread

The tasks run in the order of the calls, and `AddChannel` passes on all its arguments.
`RemoveChannel` does not pass on `unbind_executor`: from another thread it always unbinds.  So
`same_iff_kept`: calls from other threads leave what the same calls leave on the thread of the loop
exactly if no channel ends with a `RemoveChannel` that keeps the executor it has then.
-/

namespace Lizlib

namespace ChannelCall

variable {Ch CB : Type*}

/-- The channel. -/
def channel : ChannelCall Ch CB → Ch
  | addChannel channel _ _ | removeChannel channel _ _ => channel

/-- The call sets the executor of its channel. -/
def binds : ChannelCall Ch CB → Bool
  | addChannel _ _ _ => true
  | removeChannel _ _ unbind_executor => unbind_executor

/-- The task of a call from another thread. -/
def task : ChannelCall Ch CB → ChannelTask Ch CB
  | addChannel channel cb mode => .addChannel channel cb mode
  | removeChannel channel cb _ => .removeChannel channel cb

/-- The call that the task makes. -/
def posted : ChannelCall Ch CB → ChannelCall Ch CB
  | addChannel channel cb mode => .addChannel channel cb mode
  | removeChannel channel cb _ => .removeChannel channel cb true

/-- What the call asks of the selector. -/
def epollCall : ChannelCall Ch CB → EpollCall
  | addChannel _ _ mode => .add mode
  | removeChannel _ _ _ => .remove

/-- What the call invokes. -/
def callback : ChannelCall Ch CB → Option CB
  | addChannel _ cb _ | removeChannel _ cb _ => cb

@[simp] theorem channel_posted (c : ChannelCall Ch CB) : c.posted.channel = c.channel := by
  cases c <;> rfl

@[simp] theorem epollCall_posted (c : ChannelCall Ch CB) : c.posted.epollCall = c.epollCall := by
  cases c <;> rfl

@[simp] theorem callback_posted (c : ChannelCall Ch CB) : c.posted.callback = c.callback := by
  cases c <;> rfl

end ChannelCall

/-- The calls of a schedule. -/
def ChannelLabel.calls {Ch CB : Type*} (ls : List (ChannelLabel Ch CB)) :
    List (ChannelCall Ch CB) :=
  ls.filterMap fun
    | .call c => some c
    | .task => none

namespace LoopChannels

open Function (update update_self update_of_ne)

variable {Ch CB E : Type*} [DecidableEq Ch] {this : E} {c : ChannelCall Ch CB}
  {cs : List (ChannelCall Ch CB)} {s t u : LoopChannels Ch CB E} {channel : Ch}

/-- The same channels are registered with the same masks, they have the same executors, and the same
callbacks have been invoked in the same order. -/
structure Same (s t : LoopChannels Ch CB E) : Prop where
  register_map_ : s.register_map_ = t.register_map_
  executor : s.executor = t.executor
  invoked : s.invoked = t.invoked

/-- The last call on the channel is a `RemoveChannel` that leaves its executor alone. -/
def EndsKeeping (cs : List (ChannelCall Ch CB)) (channel : Ch) : Prop :=
  ∃ c, (cs.filter (·.channel = channel)).getLast? = some c ∧ c.binds = false

/-- The last call that has set the executor of the channel has unbound it, or none has and the channel
had no executor. -/
def Unbound (s : LoopChannels Ch CB E) (cs : List (ChannelCall Ch CB)) (channel : Ch) : Prop :=
  match (cs.filter fun c => c.channel = channel ∧ c.binds = true).getLast? with
  | some (.addChannel _ _ _) => False
  | some (.removeChannel _ _ _) => True
  | none => s.executor channel = none

/-- A channel is left without an executor wherever its last call leaves the executor alone. -/
def NothingKept (s : LoopChannels Ch CB E) (cs : List (ChannelCall Ch CB)) : Prop :=
  ∀ channel, EndsKeeping cs channel → Unbound s cs channel

/-! ### One call on the thread of the loop -/

theorem add_eq (channel : Ch) (events : EventMask) (s : LoopChannels Ch CB E) :
    s.Add channel events = { s with
      register_map_ := update s.register_map_ channel
        ((EpollCall.add events).apply (s.register_map_ channel)) } := by
  unfold Add
  cases h : s.register_map_ channel with
  | none => rfl
  | some m =>
    show s = { s with register_map_ := update s.register_map_ channel (some m) }
    rw [← h, Function.update_eq_self]

theorem remove_eq (channel : Ch) (s : LoopChannels Ch CB E) :
    s.Remove channel = { s with
      register_map_ := update s.register_map_ channel
        (EpollCall.remove.apply (s.register_map_ channel)) } := by
  unfold Remove
  cases h : s.register_map_ channel with
  | none =>
    show s = { s with register_map_ := update s.register_map_ channel none }
    rw [← h, Function.update_eq_self]
  | some m => rfl

/-- What the executor of its channel is after a call. -/
def executorAfter (this : E) (c : ChannelCall Ch CB) (executor : Option E) : Option E :=
  match c with
  | .addChannel _ _ _ => some this
  | .removeChannel _ _ unbind_executor => if unbind_executor then none else executor

/-- **A call on the thread of the loop**: the selector, the executor and the callback. -/
theorem call_true (this : E) (c : ChannelCall Ch CB) (s : LoopChannels Ch CB E) :
    s.call this true c = { s with
      register_map_ := update s.register_map_ c.channel
        (c.epollCall.apply (s.register_map_ c.channel))
      executor := update s.executor c.channel (executorAfter this c (s.executor c.channel))
      invoked := s.invoked ++ c.callback.toList } := by
  cases c with
  | addChannel channel cb mode =>
    show ((s.Add channel mode).SetExecutor channel (some this)).invoke cb = _
    rw [add_eq]
    rfl
  | removeChannel channel cb unbind_executor =>
    show (if unbind_executor then (s.Remove channel).SetExecutor channel none
      else s.Remove channel).invoke cb = _
    rw [remove_eq]
    cases unbind_executor with
    | true => rfl
    | false =>
      show _ = { s with
        register_map_ := _, executor := update s.executor channel (s.executor channel), invoked := _ }
      rw [Function.update_eq_self]
      rfl

theorem executor_call_self : (s.call this true c).executor c.channel =
    executorAfter this c (s.executor c.channel) := by
  rw [call_true]
  exact update_self _ _ _

theorem executor_call_of_ne (h : c.channel ≠ channel) :
    (s.call this true c).executor channel = s.executor channel := by
  rw [call_true]
  exact update_of_ne (Ne.symm h) _ _

theorem direct_concat (this : E) (cs : List (ChannelCall Ch CB)) (c : ChannelCall Ch CB)
    (s : LoopChannels Ch CB E) :
    direct this (cs ++ [c]) s = (direct this cs s).call this true c := List.foldl_concat ..

/-! ### The tasks -/

/-- A task makes its call, with `unbind_executor` set. -/
theorem runTask_task (this : E) (c : ChannelCall Ch CB) (s : LoopChannels Ch CB E) :
    s.runTask this c.task = s.call this true c.posted := by
  cases c <;> rfl

/-- The loop once all its tasks have run. -/
def drain (this : E) (s : LoopChannels Ch CB E) : LoopChannels Ch CB E :=
  s.lfq_.foldl (fun s task => s.runTask this task) { s with lfq_ := [] }

theorem drain_of_nil (h : s.lfq_ = []) : drain this s = s := by
  unfold drain
  rw [h, List.foldl_nil, ← h]

theorem call_false (hrun : s.cancel_signal_ = false) :
    s.call this false c = { s with lfq_ := s.lfq_ ++ [c.task] } := by
  cases c <;> simp [call, AddChannel, RemoveChannel, Submit, hrun, ChannelCall.task]

/-- Running a task changes neither the tasks behind it nor the signal. -/
theorem runTask_with (this : E) (task : ChannelTask Ch CB) (lfq : List (ChannelTask Ch CB))
    (s : LoopChannels Ch CB E) :
    ({ s with lfq_ := lfq }.runTask this task) =
      { s.runTask this task with lfq_ := lfq, cancel_signal_ := s.cancel_signal_ } := by
  obtain ⟨c, rfl⟩ : ∃ c : ChannelCall Ch CB, c.task = task := by
    cases task with
    | addChannel channel cb mode => exact ⟨.addChannel channel cb mode, rfl⟩
    | removeChannel channel cb => exact ⟨.removeChannel channel cb true, rfl⟩
  rw [runTask_task, runTask_task, call_true, call_true]

/-- **One step**: a call is run after all tasks there are, and running a task changes nothing about what
is left in the end. -/
theorem drain_step {l : ChannelLabel Ch CB} (hrun : s.cancel_signal_ = false)
    (h : step this l s = some t) :
    t.cancel_signal_ = false ∧
      drain this t = direct this ((ChannelLabel.calls [l]).map ChannelCall.posted) (drain this s) := by
  cases l with
  | call c =>
    obtain rfl := Option.some.inj h
    rw [call_false hrun]
    refine ⟨hrun, ?_⟩
    show (s.lfq_ ++ [c.task]).foldl _ { s with lfq_ := [] } = _
    rw [List.foldl_concat, runTask_task]
    rfl
  | task =>
    unfold step at h
    cases hlfq : s.lfq_ with
    | nil => simp [hlfq] at h
    | cons task lfq =>
      simp only [hlfq, Option.some.injEq] at h
      subst h
      rw [runTask_with]
      refine ⟨hrun, ?_⟩
      show lfq.foldl _ { s.runTask this task with lfq_ := [], cancel_signal_ := s.cancel_signal_ } = _
      rw [← runTask_with]
      show _ = drain this s
      rw [drain, hlfq, List.foldl_cons]

/-- **All steps**: once all tasks have run, the calls have been made in order, with `unbind_executor`
set. -/
theorem drain_run {ls : List (ChannelLabel Ch CB)} (hrun : s.cancel_signal_ = false)
    (h : (loopChannels Ch CB this).run ls s = some t) :
    drain this t = direct this ((ChannelLabel.calls ls).map ChannelCall.posted) (drain this s) := by
  induction ls generalizing s with
  | nil =>
    obtain rfl := Option.some.inj h
    rfl
  | cons l ls ih =>
    obtain ⟨u, hu, hls⟩ := Option.bind_eq_some_iff.mp h
    obtain ⟨hurun, hdrain⟩ := drain_step hrun hu
    have hcalls : ChannelLabel.calls (l :: ls) = ChannelLabel.calls [l] ++ ChannelLabel.calls ls :=
      List.filterMap_append (l := [l])
    rw [ih hurun hls, hdrain, hcalls, List.map_append, direct, direct, direct, List.foldl_append]

/-! ### With and without the argument -/

theorem map_posted_concat (cs : List (ChannelCall Ch CB)) (c : ChannelCall Ch CB)
    (s : LoopChannels Ch CB E) :
    direct this ((cs ++ [c]).map ChannelCall.posted) s =
      (direct this (cs.map ChannelCall.posted) s).call this true c.posted := by
  rw [List.map_append, List.map_singleton, direct_concat]

/-- The selector and the callbacks do not depend on `unbind_executor`. -/
theorem register_map_posted (this : E) (cs : List (ChannelCall Ch CB)) (s : LoopChannels Ch CB E) :
    (direct this (cs.map ChannelCall.posted) s).register_map_ = (direct this cs s).register_map_ ∧
      (direct this (cs.map ChannelCall.posted) s).invoked = (direct this cs s).invoked := by
  induction cs using List.reverseRecOn with
  | nil => exact ⟨rfl, rfl⟩
  | append_singleton cs c ih =>
    rw [map_posted_concat, direct_concat, call_true, call_true]
    simp [ih.1, ih.2]

/-- A call on another channel changes nothing about what a channel ends with. -/
theorem filter_concat_of_ne (h : c.channel ≠ channel) (cs : List (ChannelCall Ch CB)) :
    (cs ++ [c]).filter (·.channel = channel) = cs.filter (·.channel = channel) := by
  simp [h]

theorem unbound_concat_of_not (h : ¬ (c.channel = channel ∧ c.binds = true)) :
    Unbound s (cs ++ [c]) channel ↔ Unbound s cs channel := by
  unfold Unbound
  rw [List.filter_append, List.filter_cons_of_neg (by simpa using h), List.filter_nil,
    List.append_nil]

/-- **The executor** on the thread of the loop. -/
theorem unbound_iff (this : E) :
    Unbound s cs channel ↔ (direct this cs s).executor channel = none := by
  induction cs using List.reverseRecOn with
  | nil => exact Iff.rfl
  | append_singleton cs c ih =>
    rw [direct_concat]
    by_cases hc : c.channel = channel
    · subst hc
      rw [executor_call_self]
      by_cases hbinds : c.binds = true
      · have hlast : ((cs ++ [c]).filter
            fun d => d.channel = c.channel ∧ d.binds = true).getLast? = some c := by
          simp [List.filter_append, hbinds]
        unfold Unbound
        rw [hlast]
        cases c with
        | addChannel channel cb mode => simp [executorAfter]
        | removeChannel channel cb unbind_executor =>
          obtain rfl : unbind_executor = true := hbinds
          simp [executorAfter]
      · rw [unbound_concat_of_not (fun h => hbinds h.2), ih]
        cases c with
        | addChannel channel cb mode => exact absurd rfl hbinds
        | removeChannel channel cb unbind_executor =>
          obtain rfl : unbind_executor = false := Bool.eq_false_iff.mpr hbinds
          rfl
    · rw [unbound_concat_of_not (fun h => hc h.1), executor_call_of_ne hc]
      exact ih

/-- **The executor** of a channel is the same with and without the argument exactly if the channel does
not end with a call that keeps it. -/
theorem executor_posted_iff (this : E) :
    (direct this (cs.map ChannelCall.posted) s).executor channel =
        (direct this cs s).executor channel ↔
      (EndsKeeping cs channel → Unbound s cs channel) := by
  induction cs using List.reverseRecOn with
  | nil => exact iff_of_true rfl fun ⟨c, hc, _⟩ => by simp at hc
  | append_singleton cs c ih =>
    rw [map_posted_concat, direct_concat]
    by_cases hc : c.channel = channel
    · subst hc
      have hposted : ((direct this (cs.map ChannelCall.posted) s).call this true c.posted).executor
          c.channel = executorAfter this c.posted
            ((direct this (cs.map ChannelCall.posted) s).executor c.channel) := by
        rw [← c.channel_posted]
        exact executor_call_self
      have hlast : ((cs ++ [c]).filter (·.channel = c.channel)).getLast? = some c := by
        simp [List.filter_append]
      rw [hposted, executor_call_self]
      by_cases hbinds : c.binds = true
      · refine iff_of_true ?_ fun ⟨d, hd, hkeeps⟩ => ?_
        · cases c with
          | addChannel channel cb mode => rfl
          | removeChannel channel cb unbind_executor =>
            obtain rfl : unbind_executor = true := hbinds
            rfl
        · obtain rfl := Option.some.inj (hlast.symm.trans hd)
          rw [hbinds] at hkeeps
          cases hkeeps
      · have hkeeps : c.binds = false := Bool.eq_false_iff.mpr hbinds
        have hends : EndsKeeping (cs ++ [c]) c.channel := ⟨c, hlast, hkeeps⟩
        rw [forall_prop_of_true hends, unbound_concat_of_not (fun h => hbinds h.2), unbound_iff this]
        cases c with
        | addChannel channel cb mode => cases hkeeps
        | removeChannel channel cb unbind_executor =>
          obtain rfl : unbind_executor = false := hkeeps
          exact eq_comm
    · have hposted : c.posted.channel ≠ channel := by simpa using hc
      rw [executor_call_of_ne hposted, executor_call_of_ne hc, ih, EndsKeeping, EndsKeeping,
        filter_concat_of_ne hc, unbound_concat_of_not (fun h => hc h.1)]

/-! ### All runs -/

/-- **The exact condition**: calls from other threads, once the tasks have run, leave the same registered
channels and masks, the same executors and the same callbacks as the same calls on the thread of the
loop if and only if no channel ends with a `RemoveChannel` that keeps the executor it has then. -/
theorem same_iff_nothingKept (this : E) (register_map_ : Ch → Option EventMask)
    (executor : Ch → Option E) (ls : List (ChannelLabel Ch CB))
    (hrun : (loopChannels Ch CB this).run ls (start register_map_ executor) = some s)
    (hempty : s.lfq_ = []) :
    Same s (direct this (ChannelLabel.calls ls) (start register_map_ executor)) ↔
      NothingKept (start register_map_ executor : LoopChannels Ch CB E) (ChannelLabel.calls ls) := by
  have hdrain := drain_run rfl hrun
  rw [drain_of_nil hempty, drain_of_nil rfl] at hdrain
  obtain ⟨hmap, hinvoked⟩ :=
    register_map_posted this (ChannelLabel.calls ls) (start register_map_ executor)
  rw [hdrain]
  constructor
  · exact fun h channel => (executor_posted_iff this).mp (congrFun h.executor channel)
  · exact fun h => ⟨hmap, funext fun channel => (executor_posted_iff this).mpr (h channel), hinvoked⟩

/-- A channel that is registered with another loop is removed and added; the loop runs the first task
before the second call. -/
theorem same_of_nothingKept_add :
    ∃ s : LoopChannels Unit Nat Bool,
      (loopChannels Unit Nat true).run
        [.call (.removeChannel () (some 1) false), .task, .call (.addChannel () (some 2) 5), .task]
        (start (fun _ => some 3) fun _ => some false) = some s ∧
      Same s (direct true [.removeChannel () (some 1) false, .addChannel () (some 2) 5]
        (start (fun _ => some 3) fun _ => some false)) := by
  have hrun : (loopChannels Unit Nat true).run
      [.call (.removeChannel () (some 1) false), .task, .call (.addChannel () (some 2) 5), .task]
      (start (fun _ => some 3) fun _ => some false) = some _ := rfl
  refine ⟨_, hrun, (same_iff_nothingKept true _ _ _ hrun rfl).mpr ?_⟩
  rintro channel ⟨c, hlast, hkeeps⟩
  obtain rfl : ChannelCall.addChannel () (some 2) 5 = c := Option.some.inj hlast
  cases hkeeps

/-- A channel of the loop is removed, and keeps its executor only if that happens on the thread of the
loop. -/
theorem not_same_removeChannel :
    ∃ s : LoopChannels Unit Nat Bool,
      (loopChannels Unit Nat true).run [.call (.removeChannel () none false), .task]
        (start (fun _ => some 3) fun _ => some true) = some s ∧ s.lfq_ = [] ∧
      ¬ Same s (direct true [.removeChannel () none false]
          (start (fun _ => some 3) fun _ => some true)) := by
  refine ⟨_, rfl, rfl, fun h => ?_⟩
  have hexecutor : none = some true := congrFun h.executor ()
  cases hexecutor

end LoopChannels

end Lizlib
