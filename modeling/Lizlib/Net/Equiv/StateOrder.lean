import Lizlib.Net.Equiv.Close

/-!
# The order of the states of a connection

`state_` moves from `kConnecting` over `kConnected` and `kDisconnecting` to `kDisconnected`, and
`handleRemove` finds `kDisconnected`, as long as `ForceShutdown` does not overwrite it: its store of
`kDisconnecting` is the only one that can move back (`forward_iff`).
-/

namespace Lizlib

/-- How far a connection has come. -/
def TcpState.rank : TcpState → Nat
  | .kConnecting => 0
  | .kConnected => 1
  | .kDisconnecting => 2
  | .kDisconnected => 3

namespace TcpConnection

variable {T : Type*}

/-- `ForceShutdown` does not store over `kDisconnected`. -/
def DisconnectingFresh (l : TcpLabel T) (s : TcpConnection T) : Prop :=
  current l s = some .storeDisconnecting → s.state_ ≠ .kDisconnected

instance [DecidableEq T] (l : TcpLabel T) (s : TcpConnection T) :
    Decidable (DisconnectingFresh l s) :=
  inferInstanceAs (Decidable (_ → _))

/-- A removal is only pending once the connection is disconnected. -/
structure RemovesLast (s : TcpConnection T) : Prop where
  stack : Stacks.All (fun _ a => s.state_ ≠ .kDisconnected → a.removals = 0) s.stack
  queue : s.state_ ≠ .kDisconnected → ∀ task ∈ s.queue, task.removals = 0

/-- Every store but the one of `ForceShutdown` moves forward. -/
theorem rank_le_stores {a : TcpAct T} {state : TcpState}
    (h : a = .storeDisconnecting → state ≠ .kDisconnected) : state.rank ≤ (a.stores state).rank := by
  cases a with
  | storeDisconnecting =>
    have hne := h rfl
    cases state <;> simp_all [TcpAct.stores, TcpState.rank]
  | call api =>
    cases api <;> cases state <;> simp [TcpAct.stores, TcpState.rank]
  | storeDisconnected | connect => cases state <;> simp [TcpAct.stores, TcpState.rank]
  | _ => exact Nat.le_refl _

/-- `kDisconnecting` over `kDisconnected` moves back. -/
theorem not_rank_le_storeDisconnecting :
    ¬ TcpState.kDisconnected.rank ≤
      ((TcpAct.storeDisconnecting : TcpAct T).stores .kDisconnected).rank := by
  show ¬ (3 ≤ 2)
  omega

variable [DecidableEq T]

/-- The step moves `state_` forward or leaves it, and does not fail the assertion of
`handleRemove`. -/
def Forward (l : TcpLabel T) (s : TcpConnection T) : Prop :=
  ∀ t, step l s = some t → s.state_.rank ≤ t.state_.rank ∧ t.fatal ≠ some .notDisconnected

instance (l : TcpLabel T) (s : TcpConnection T) : Decidable (Forward l s) :=
  match h : step l s with
  | none => .isTrue fun t ht => by simp [h] at ht
  | some t =>
    decidable_of_iff (s.state_.rank ≤ t.state_.rank ∧ t.fatal ≠ some .notDisconnected) <| by
      simp [Forward, h]

section Step

variable {l : TcpLabel T} {s t : TcpConnection T}

theorem state_of_fresh (hg : DisconnectingFresh l s) (h : step l s = some t)
    (ht : t.state_ ≠ .kDisconnected) : s.state_ ≠ .kDisconnected := by
  intro hd
  obtain ⟨-, hmoves⟩ := moves_of_step h
  cases hmoves with
  | @act w env a rest hw =>
    refine ht ((act_effect s w env a).state_.trans ?_)
    rw [hd]
    apply stores_kDisconnected
    rintro rfl
    exact hg (current_of_stack hw) hd
  | _ => exact ht hd

omit [DecidableEq T] in
/-- Nothing that can follow an act removes the connection, and neither does what it submits, if the
act does not disconnect it. -/
theorem no_removal_next {w : Option T} {env : TcpEnv} {a : TcpAct T} {new : List (TcpAct T)}
    (hnext : Next s w env a new) (ha : a.removals = 0) (hs : a.stores s.state_ ≠ .kDisconnected) :
    (∀ b ∈ new, b.removals = 0) ∧ ∀ task ∈ a.submits, task.removals = 0 := by
  have hsum : (new.map TcpAct.removals).sum + (a.submits.map TcpTask.removals).sum = 0 := by
    rcases hnext.removals s.conn_ with hle | ⟨-, -, hd⟩
    · omega
    · exact absurd hd hs
  obtain ⟨hnew, hsubmits⟩ := Nat.add_eq_zero_iff.mp hsum
  exact ⟨fun b hb => List.sum_eq_zero_iff.mp hnew _ (List.mem_map_of_mem hb),
    fun task ht => List.sum_eq_zero_iff.mp hsubmits _ (List.mem_map_of_mem ht)⟩

/-- As long as the connection is not disconnected nothing removes it. -/
theorem removesLast_step (hs : RemovesLast s) (hg : DisconnectingFresh l s)
    (h : step l s = some t) : RemovesLast t := by
  by_cases ht : t.state_ = .kDisconnected
  · exact ⟨fun _ _ _ hne => absurd ht hne, fun hne => absurd ht hne⟩
  have hsd := state_of_fresh hg h ht
  have hstack : Stacks.All (fun _ a => a.removals = 0) s.stack := fun w a ha => hs.stack w a ha hsd
  have hqueue := hs.queue hsd
  refine ⟨fun w a ha _ => ?_, fun _ task htask => ?_⟩
  · refine all_step hstack (fun _ _ _ => rfl) ?_ ?_ h w a ha
    · intro w env a new _ hcur ha hnext
      exact (no_removal_next hnext ha (state_of_current h hcur ▸ ht)).1
    · intro task htask b hb
      have hzero := (sum_removals_acts task).trans (hqueue task htask)
      exact List.sum_eq_zero_iff.mp hzero _ (List.mem_map_of_mem hb)
  · rcases mem_queue_step h htask with hold | ⟨w, a, ha, hcur, hnew⟩ | ⟨events, -, rfl⟩
    · exact hqueue task hold
    · -- what follows the act does not matter here
      have hnext : Next s w quiet a [] := .nil
      exact (no_removal_next hnext (hstack w a ha) (state_of_current h hcur ▸ ht)).2 task hnew
    · rfl

/-- A step moves forward exactly when it is not a store of `kDisconnecting` over
`kDisconnected`. -/
theorem forward_step_iff (hs : RemovesLast s) (h : step l s = some t) :
    Forward l s ↔ DisconnectingFresh l s := by
  constructor
  · intro hf hcur hd
    have hle := (hf t h).1
    rw [state_of_current h hcur, hd] at hle
    exact not_rank_le_storeDisconnecting hle
  · intro hg t' ht'
    obtain rfl := Option.some.inj (h.symm.trans ht')
    obtain ⟨hfatal, hmoves⟩ := moves_of_step h
    cases hmoves with
    | @act w env a rest hw =>
      have hcur : current (.act w env) s = some a := current_of_stack hw
      constructor
      · show s.state_.rank ≤ (s.act w env a).1.state_.rank
        rw [(act_effect s w env a).state_]
        apply rank_le_stores
        rintro rfl
        exact hg hcur
      · intro hbad
        obtain ⟨rfl, hne⟩ := fatal_act hfatal hbad
        exact absurd (hs.stack.head hw hne) (by simp [TcpAct.removals])
    | _ => exact ⟨Nat.le_refl _, by simp [hfatal]⟩

omit [DecidableEq T] in
theorem removesLast_start (addr : Nat) (cells : Nat → UInt8) :
    RemovesLast (start addr cells : TcpConnection T) := by
  refine ⟨?_, fun _ => ?_⟩
  · simp [Stacks.All, start]
  · simp [start, TcpTask.removals]

/-- **The states are passed in order**: along a schedule `state_` only moves forward and
`handleRemove` never finds another state than `kDisconnected`, if and only if `ForceShutdown` never
stores `kDisconnecting` over `kDisconnected`. -/
theorem forward_iff (addr : Nat) (cells : Nat → UInt8) (ls : List (TcpLabel T)) :
    (tcpConnection T).AllSteps Forward ls (start addr cells) ↔
      (tcpConnection T).AllSteps DisconnectingFresh ls (start addr cells) :=
  System.allSteps_iff_allSteps (I := RemovesLast)
    (fun _ _ _ hs hg ht => removesLast_step hs hg ht) (fun _ _ _ hs ht => forward_step_iff hs ht) ls
    (removesLast_start addr cells)

end Step

/-- `ForceShutdown` checks `state_`, another thread closes the connection by force, and
`ForceShutdown` goes on with its store before the loop removes the connection. -/
def shutdownAfterClose : List (TcpLabel Bool) :=
  runTask 5 ++ runCall true .forceShutdown 1 ++ runCall false .forceClose 3 ++
    [.act (some true) quiet] ++ runTask 1

/-- `state_` goes back, and the assertion of `handleRemove` ends the process. -/
theorem shutdownAfterClose_not_forward :
    ¬ (tcpConnection Bool).AllSteps Forward shutdownAfterClose (start 0 fun _ => 0) := by
  decide +kernel

end TcpConnection

end Lizlib
