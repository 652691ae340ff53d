import Mathlib.Data.Fintype.Option
import Lizlib.Net.Equiv.TcpConnection

/-!
# Closing a connection

* `gone_iff`: a connection stays registered, and hears of its events, after `OnClose`.
-/

namespace Lizlib

/-- The callbacks that report an event of the channel. -/
def Callback.isEvent : Callback → Bool
  | .onRead _ | .onWriteComplete | .onError => true
  | .onConnect | .onClose => false

variable {T : Type*}

namespace TcpConnection

/-! ### After `OnClose` -/

/-- Once `OnClose` has been delivered the channel is no longer registered, and no event of it is
delivered. -/
def Gone (s : TcpConnection T) : Prop :=
  ∀ before conn after, s.delivered = before ++ (.onClose, conn) :: after →
    s.registered = none ∧ ∀ x ∈ after, x.1.isEvent = false

/-- `OnClose` has been delivered. -/
def Closed (s : TcpConnection T) : Prop := ∃ conn, (.onClose, conn) ∈ s.delivered

instance (s : TcpConnection T) : Decidable s.Closed := inferInstanceAs (Decidable (∃ _, _))

/-- As long as the channel is not registered nothing has been delivered, and the task of `Start`
comes first. -/
def Begun (s : TcpConnection T) : Prop :=
  s.registered = none → s.delivered = [] ∧
    (s.stack none = [] ∧ s.queue.head? = some .start ∨ (s.stack none).head? = some .addChannel)

theorem gone_of_not_closed {s : TcpConnection T} (h : ¬ s.Closed) : s.Gone := by
  intro before conn after heq
  exact absurd ⟨conn, by simp [heq]⟩ h

/-- The connection stays registered, so `Gone` fails as soon as `OnClose` is delivered. -/
theorem gone_iff_not_closed {s : TcpConnection T} (hb : Begun s) : s.Gone ↔ ¬ s.Closed := by
  refine ⟨?_, gone_of_not_closed⟩
  rintro h ⟨conn, hmem⟩
  obtain ⟨before, after, heq⟩ := List.append_of_mem hmem
  have hnone := (hb (h before conn after heq).1).1
  simp [heq] at hnone

theorem begun_start (addr : Nat) (cells : Nat → UInt8) :
    Begun (start addr cells : TcpConnection T) := by
  intro _
  exact ⟨rfl, .inl ⟨rfl, rfl⟩⟩

theorem registers_eq_none {a : TcpAct T} {registered : Option EventMask}
    (h : a.registers registered = none) : registered = none ∧ a ≠ .addChannel := by
  cases a with
  | addChannel => cases registered <;> simp [TcpAct.registers] at h
  | update events => exact ⟨Option.map_eq_none_iff.mp h, by simp⟩
  | _ => exact ⟨h, by simp⟩

/-- Only the loop's own thread delivers. -/
theorem delivers_of_admissible {a : TcpAct T} {w : Option T} {conn : Bool} (ha : a.Admissible w)
    (hw : w ≠ none) : a.delivers conn = [] := by
  cases a with
  | callback => exact absurd ha hw
  | _ => rfl

section Gone

variable [DecidableEq T]

theorem begun_step {l : TcpLabel T} {s t : TcpConnection T} (hs : Shaped s) (hb : Begun s)
    (h : step l s = some t) : Begun t := by
  obtain ⟨-, hmoves⟩ := moves_of_step h
  intro hr
  cases hmoves with
  | call hidle =>
    obtain ⟨hd, hfirst⟩ := hb hr
    refine ⟨hd, ?_⟩
    dsimp only
    rwa [Function.update_of_ne (Option.some_ne_none _).symm]
  | @act w env a rest hw =>
    have heff := act_effect s w env a
    have hreg : a.registers s.registered = none := heff.registered.symm.trans hr
    obtain ⟨hnone, hadd⟩ := registers_eq_none hreg
    obtain ⟨hd, hfirst⟩ := hb hnone
    -- the loop's thread has nothing to do but to register the channel
    have hother : w ≠ none := by
      rintro rfl
      rcases hfirst with ⟨hidle, -⟩ | hhead
      · simp [hidle] at hw
      · exact hadd (by simpa [hw] using hhead)
    refine ⟨?_, ?_⟩
    · dsimp only
      rw [heff.delivered, hd, delivers_of_admissible (hs.admissible.head hw) hother]
      rfl
    · dsimp only
      rw [Function.update_of_ne hother.symm, heff.queue]
      refine hfirst.imp_left fun hstart => ⟨hstart.1, ?_⟩
      rw [List.head?_append, hstart.2]
      rfl
  | @task task queue hidle hq =>
    obtain ⟨hd, hfirst⟩ := hb hr
    refine ⟨hd, .inr ?_⟩
    rcases hfirst with ⟨-, hstart⟩ | hhead
    · rw [hq] at hstart
      obtain rfl := Option.some.inj hstart
      simp [TcpTask.acts]
    · simp [hidle] at hhead
  | collect hreg => simp [hreg] at hr
  | dispatch hc =>
    obtain ⟨hd, hfirst⟩ := hb hr
    refine ⟨hd, hfirst.imp_left fun hstart => ⟨hstart.1, ?_⟩⟩
    dsimp only
    rw [List.head?_append, hstart.2]
    rfl

/-- A step closes the connection by delivering `OnClose`. -/
theorem closed_step {l : TcpLabel T} {s t : TcpConnection T} (h : step l s = some t) :
    t.Closed ↔ s.Closed ∨ current l s = some (.callback .onClose) := by
  obtain ⟨-, hmoves⟩ := moves_of_step h
  cases hmoves with
  | @act w env a rest hw =>
    have hcur : current (.act w env) s = some a := current_of_stack hw
    have hd := (act_effect s w env a).delivered
    simp only [Closed, hd, hcur, List.mem_append, exists_or, Option.some.injEq]
    apply or_congr_right
    cases a <;> simp [TcpAct.delivers, eq_comm]
  | _ => simp [Closed, current]

/-- **A closed connection stays registered**: `Gone` holds all along a schedule exactly when it
never delivers `OnClose`. -/
theorem gone_iff (addr : Nat) (cells : Nat → UInt8) (ls : List (TcpLabel T)) :
    (tcpConnection T).AllStates Gone ls (start addr cells) ↔
      (tcpConnection T).AllSteps (fun l s => current l s ≠ some (.callback .onClose)) ls
        (start addr cells) := by
  refine System.allStates_iff_allSteps (I := fun s => Shaped s ∧ Begun s) ?_ ?_ ls
    ⟨shaped_start addr cells, begun_start addr cells⟩ ?_
  · rintro l s t ⟨hs, hb⟩ - h -
    exact ⟨shaped_step hs h, begun_step hs hb h⟩
  · rintro l s t ⟨hs, hb⟩ hgone h
    have hopen := (gone_iff_not_closed hb).mp hgone
    rw [gone_iff_not_closed (begun_step hs hb h), closed_step h, not_or]
    exact and_iff_right hopen
  · exact gone_of_not_closed (by simp [Closed, start])

/-- `ForceClose` from another thread, the delivery of `OnClose`, and then a byte of the peer. -/
def dataAfterClose : List (TcpLabel Unit) :=
  runTask 5 ++ runCall () .forceClose 3 ++ runTask 3 ++ [.collect Events.EPOLLIN, .dispatch, .task,
    .act none { quiet with read := .data [7] }, .act none quiet]

/-- The byte is still read and delivered, in a context without its connection. -/
theorem dataAfterClose_not_gone :
    ¬ (tcpConnection Unit).AllStates Gone dataAfterClose (start 0 fun _ => 0) := by
  intro h
  have hrun : ((tcpConnection Unit).run dataAfterClose (start 0 fun _ => 0)).map delivered =
      some [(.onConnect, true), (.onClose, true), (.onRead [7], false)] := by decide +kernel
  obtain ⟨t, ht, hd⟩ := Option.map_eq_some_iff.mp hrun
  have hquiet := (h.last ht [(.onConnect, true)] true [(.onRead [7], false)] hd).2
  exact absurd (hquiet _ (List.mem_singleton_self _)) (by decide)

end Gone

/-! ### One removal -/

end TcpConnection

/-- The removals an act has yet to bring about. -/
def TcpAct.removals : TcpAct T → Nat
  | .submit .handleRemove | .submit .close | .handleRemove | .closeTask | .callback .onClose => 1
  | _ => 0

/-- The removals a queued task has yet to bring about. -/
def TcpTask.removals : TcpTask T → Nat
  | .handleRemove | .close => 1
  | _ => 0

/-- What the acts of a task have yet to bring about is what the task has. -/
theorem sum_removals_acts (task : TcpTask T) :
    (task.acts.map TcpAct.removals).sum = task.removals := by
  cases task with
  | handleEvents events =>
    apply List.sum_eq_zero
    intro n hn
    obtain ⟨a, ha, rfl⟩ := List.mem_map.mp hn
    rcases TcpConnection.mem_acts_handleEvents ha with rfl | rfl | rfl | rfl <;> rfl
  | _ => rfl

namespace TcpConnection

/-- How often `OnClose` has been delivered. -/
def closes (s : TcpConnection T) : Nat := s.delivered.countP fun x => x.1 = .onClose

/-- No store to `state_` follows a check that another thread has overtaken. -/
def StoresFresh (l : TcpLabel T) (s : TcpConnection T) : Prop :=
  current l s = some .storeDisconnected ∨ current l s = some .storeDisconnecting →
    s.state_ ≠ .kDisconnected

instance [DecidableEq T] (l : TcpLabel T) (s : TcpConnection T) : Decidable (StoresFresh l s) :=
  inferInstanceAs (Decidable (_ → _))

/-- The removals that have been and are still to be brought about, in the stacks of some threads. -/
def removals (F : Finset (Option T)) (s : TcpConnection T) : Nat :=
  Stacks.weight F TcpAct.removals s.stack + (s.queue.map TcpTask.removals).sum + s.closes

/-- At most one removal, and none before the connection is disconnected. -/
structure RemovedOnce (s : TcpConnection T) : Prop where
  le_one : ∀ F, s.removals F ≤ 1
  eq_zero : s.state_ ≠ .kDisconnected → ∀ F, s.removals F = 0

/-- An act passes its removal on, or it disconnects the connection. -/
theorem Next.removals {s : TcpConnection T} {w : Option T} {env : TcpEnv} {a : TcpAct T}
    {new : List (TcpAct T)} (h : Next s w env a new) (conn : Bool) :
    (new.map TcpAct.removals).sum + (a.submits.map TcpTask.removals).sum +
        (a.delivers conn).countP (fun x => x.1 = .onClose) ≤ a.removals ∨
      (new.map TcpAct.removals).sum + (a.submits.map TcpTask.removals).sum +
        (a.delivers conn).countP (fun x => x.1 = .onClose) ≤ 1 ∧
      (a = .storeDisconnected ∨ s.state_ = .kConnected) ∧ a.stores s.state_ = .kDisconnected := by
  cases h with
  | nil =>
    left
    cases a with
    | submit task => cases task <;> simp [TcpAct.removals, TcpTask.removals, TcpAct.submits, TcpAct.delivers]
    | callback cb => cases cb <;> simp [TcpAct.removals, TcpAct.submits, TcpAct.delivers]
    | _ => simp [TcpAct.submits, TcpAct.delivers]
  | callback =>
    left
    have hcalls : ((env.calls.map TcpAct.call).map (TcpAct.removals (T := T))).sum = 0 := by
      rw [List.map_map]
      apply List.sum_eq_zero
      intro n hn
      obtain ⟨api, -, rfl⟩ := List.mem_map.mp hn
      rfl
    rename_i cb
    rw [hcalls]
    cases cb <;> simp [TcpAct.removals, TcpAct.submits, TcpAct.delivers]
  | close hs | storeDisconnected =>
    right
    simp_all [TcpAct.removals, TcpAct.submits, TcpAct.delivers, TcpAct.stores]
  | _ => left; simp [TcpAct.removals, TcpAct.submits, TcpAct.delivers]

/-- Only `ForceShutdown` takes a connection out of `kDisconnected`. -/
theorem stores_kDisconnected {a : TcpAct T} (ha : a ≠ .storeDisconnecting) :
    a.stores .kDisconnected = .kDisconnected := by
  cases a with
  | call api => cases api <;> rfl
  | storeDisconnecting => exact absurd rfl ha
  | _ => rfl

section RemovedOnce

variable [DecidableEq T] {l : TcpLabel T} {s t : TcpConnection T}

/-- A step brings about no removal that was not pending, except when it disconnects the connection. -/
theorem removals_step (h : step l s = some t) (F : Finset (Option T)) :
    ∃ F', t.removals F ≤ s.removals F' ∨ t.removals F ≤ s.removals F' + 1 ∧
      (current l s = some .storeDisconnected ∨ s.state_ = .kConnected) ∧
      t.state_ = .kDisconnected := by
  obtain ⟨-, hmoves⟩ := moves_of_step h
  cases hmoves with
  | @call u api hidle =>
    have hweight := Stacks.weight_begin F TcpAct.removals [.call api] hidle
    refine ⟨insert (some u) F, .inl ?_⟩
    simp only [removals, closes] at hweight ⊢
    simp only [List.map_cons, TcpAct.removals, List.map_nil, List.sum_cons, List.sum_nil] at hweight
    omega
  | @act w env a rest hw =>
    have heff := act_effect s w env a
    have hweight := Stacks.weight_advance F TcpAct.removals (s.act w env a).2 hw
    have hcur : current (.act w env) s = some a := current_of_stack hw
    refine ⟨insert w F, ?_⟩
    simp only [removals, closes, heff.queue, heff.delivered, heff.state_, List.map_append,
      List.sum_append, List.countP_append, hcur, Option.some.injEq]
    rcases (act_next s w env a).removals s.conn_ with hle | ⟨hle, hstate, hstores⟩
    · left
      omega
    · exact .inr ⟨by omega, hstate, hstores⟩
  | @task task queue hidle hq =>
    have hweight := Stacks.weight_begin F TcpAct.removals task.acts hidle
    rw [sum_removals_acts] at hweight
    refine ⟨insert none F, .inl ?_⟩
    simp only [removals, closes, hq, List.map_cons, List.sum_cons]
    omega
  | collect => exact ⟨F, .inl (Nat.le_refl _)⟩
  | dispatch hc =>
    refine ⟨F, .inl ?_⟩
    simp [removals, closes, TcpTask.removals]

/-- No fresh store takes a connection out of `kDisconnected`. -/
theorem state_step_kDisconnected (hg : StoresFresh l s) (hd : s.state_ = .kDisconnected)
    (h : step l s = some t) : t.state_ = .kDisconnected := by
  obtain ⟨-, hmoves⟩ := moves_of_step h
  cases hmoves with
  | @act w env a rest hw =>
    have hcur : current (.act w env) s = some a := current_of_stack hw
    apply (act_effect s w env a).state_.trans
    rw [hd]
    apply stores_kDisconnected
    rintro rfl
    exact hg (.inr hcur) hd
  | _ => exact hd

theorem removedOnce_step (hs : RemovedOnce s) (hg : StoresFresh l s) (h : step l s = some t) :
    RemovedOnce t := by
  refine ⟨fun F => ?_, fun hstate F => ?_⟩
  · obtain ⟨F', hle | ⟨hle, hcause, -⟩⟩ := removals_step h F
    · exact Nat.le_trans hle (hs.le_one F')
    · have hne : s.state_ ≠ .kDisconnected := by
        rcases hcause with hcur | hconn
        · exact hg (.inl hcur)
        · simp [hconn]
      rw [hs.eq_zero hne F'] at hle
      exact hle
  · have hne : s.state_ ≠ .kDisconnected := fun hd => hstate (state_step_kDisconnected hg hd h)
    obtain ⟨F', hle | ⟨-, -, hd⟩⟩ := removals_step h F
    · rw [hs.eq_zero hne F'] at hle
      exact Nat.le_zero.mp hle
    · exact absurd hd hstate

omit [DecidableEq T] in
theorem removedOnce_start (addr : Nat) (cells : Nat → UInt8) :
    RemovedOnce (start addr cells : TcpConnection T) := by
  have hzero : ∀ F, (start addr cells : TcpConnection T).removals F = 0 := by
    intro F
    simp [removals, start, closes, TcpTask.removals, Stacks.weight_nil]
  exact ⟨fun F => by rw [hzero]; omega, fun _ => hzero⟩

/-- **`OnClose` at most once**: it is delivered at most once along every schedule in which no store
to `state_` follows a check that another thread has overtaken. -/
theorem closes_le_one (addr : Nat) (cells : Nat → UInt8) (ls : List (TcpLabel T))
    (h : (tcpConnection T).AllSteps StoresFresh ls (start addr cells)) :
    (tcpConnection T).AllStates (fun s => s.closes ≤ 1) ls (start addr cells) := by
  refine h.allStates (I := RemovedOnce) (fun l s t hs hg ht => removedOnce_step hs hg ht) ?_
    (removedOnce_start addr cells)
  intro s hs
  exact Nat.le_trans (Nat.le_add_left _ _) (hs.le_one ∅)

end RemovedOnce

/-- `ForceClose` from two threads, one after the other. -/
def forceCloseInTurn : List (TcpLabel Bool) :=
  runTask 5 ++ runCall true .forceClose 3 ++ runCall false .forceClose 1 ++ runTask 3

theorem closes_le_one_forceCloseInTurn :
    (tcpConnection Bool).AllStates (fun s => s.closes ≤ 1) forceCloseInTurn (start 0 fun _ => 0) :=
  closes_le_one 0 _ forceCloseInTurn (by decide +kernel)

/-- `ForceClose` from two threads that both check `state_` before either stores to it. -/
def forceCloseTogether : List (TcpLabel Bool) :=
  runTask 5 ++ runCall true .forceClose 1 ++ runCall false .forceClose 3 ++
    [.act (some true) quiet, .act (some true) quiet] ++ runTask 3 ++ runTask 3

/-- The handler is told twice. -/
theorem closes_forceCloseTogether :
    ¬ (tcpConnection Bool).AllStates (fun s => s.closes ≤ 1) forceCloseTogether
      (start 0 fun _ => 0) := by
  decide +kernel

/-! ### No close forgotten -/

/-- No task is queued, no event pending, no thread has anything to do and `output_` is empty. -/
structure Quiescent (s : TcpConnection T) : Prop where
  queue : s.queue = []
  collected : s.collected = none
  stack : ∀ w, s.stack w = []
  output_ : s.output_.readableBytes = 0

instance [Fintype T] [DecidableEq T] (s : TcpConnection T) : Decidable s.Quiescent :=
  decidable_of_iff (s.queue = [] ∧ s.collected = none ∧ (∀ w, s.stack w = []) ∧
      s.output_.readableBytes = 0)
    ⟨fun ⟨hq, hc, hs, ho⟩ => ⟨hq, hc, hs, ho⟩, fun h => ⟨h.queue, h.collected, h.stack, h.output_⟩⟩

/-- A started connection that is disconnected and quiescent has delivered `OnClose`. -/
def NotForgotten (s : TcpConnection T) : Prop :=
  (∃ conn, (.onConnect, conn) ∈ s.delivered) → s.Quiescent → s.state_ = .kDisconnected → s.Closed

instance [Fintype T] [DecidableEq T] : DecidablePred (NotForgotten (T := T)) :=
  fun _ => inferInstanceAs (Decidable (_ → _))

/-- The task of `Close` finds `output_` empty. -/
def ClosesDrained (l : TcpLabel T) (s : TcpConnection T) : Prop :=
  current l s = some .closeTask → s.output_.readableBytes = 0

instance [DecidableEq T] (l : TcpLabel T) (s : TcpConnection T) : Decidable (ClosesDrained l s) :=
  inferInstanceAs (Decidable (_ → _))

/-- A removal has been brought about or is still to come. -/
def Removing (s : TcpConnection T) : Prop :=
  s.Closed ∨ Stacks.Any (fun a => a.removals = 1) s.stack ∨ ∃ task ∈ s.queue, task.removals = 1

theorem closed_of_quiescent {s : TcpConnection T} (hq : s.Quiescent) (h : Removing s) :
    s.Closed := by
  rcases h with h | ⟨w, a, ha, -⟩ | ⟨task, ht, -⟩
  · exact h
  · simp [hq.stack] at ha
  · simp [hq.queue] at ht

section Removing

variable [DecidableEq T]

/-- What brings a removal about passes it on. -/
theorem passes_removal {s : TcpConnection T} {w : Option T} {env : TcpEnv} {a : TcpAct T}
    (ha : a.removals = 1) (hz : a = .closeTask → s.output_.readableBytes = 0)
    (hd : s.state_ = .kDisconnected) :
    (∃ b ∈ (s.act w env a).2, b.removals = 1) ∨ (∃ task ∈ a.submits, task.removals = 1) ∨
      a = .callback .onClose := by
  cases a with
  | submit task =>
    refine .inr (.inl ⟨task, List.mem_singleton_self _, ?_⟩)
    cases task <;> first | rfl | cases ha
  | handleRemove => simp [act, hd, TcpAct.removals]
  | closeTask => simp [act, hz rfl, TcpAct.removals]
  | callback cb =>
    refine .inr (.inr ?_)
    cases cb <;> first | rfl | cases ha
  | _ => cases ha

/-- What disconnects the connection goes on to remove it. -/
theorem removal_of_stores {s : TcpConnection T} (w : Option T) (env : TcpEnv) {a : TcpAct T}
    (hs : s.state_ ≠ .kDisconnected) (ha : a.stores s.state_ = .kDisconnected) :
    ∃ b ∈ (s.act w env a).2, b.removals = 1 := by
  cases a with
  | storeDisconnected => exact ⟨_, List.mem_singleton_self _, rfl⟩
  | call api =>
    cases api with
    | close =>
      by_cases hc : s.state_ = .kConnected
      · exact ⟨.submit .close, by simp [act, call, hc], rfl⟩
      · simp only [TcpAct.stores, hc, if_false] at ha
        exact absurd ha hs
    | shutdown close_read =>
      simp only [TcpAct.stores] at ha
      split_ifs at ha
      exact absurd ha hs
    | _ => exact absurd ha hs
  | connect =>
    simp only [TcpAct.stores] at ha
    split_ifs at ha
    exact absurd ha hs
  | storeDisconnecting => cases ha
  | _ => exact absurd ha hs

theorem removing_step {l : TcpLabel T} {s t : TcpConnection T}
    (hs : s.state_ = .kDisconnected → Removing s) (hg : ClosesDrained l s)
    (h : step l s = some t) : t.state_ = .kDisconnected → Removing t := by
  intro hd
  obtain ⟨-, hmoves⟩ := moves_of_step h
  cases hmoves with
  | @call u api hidle =>
    refine (hs hd).imp_right (Or.imp_left fun hany => ?_)
    exact (Stacks.any_begin hidle).mpr (.inr hany)
  | @act w env a rest hw =>
    have heff := act_effect s w env a
    have hcur : current (.act w env) s = some a := current_of_stack hw
    have hnew : ∀ b ∈ (s.act w env a).2, b.removals = 1 → Removing { (s.act w env a).1 with
        stack := Function.update s.stack w ((s.act w env a).2 ++ rest) } :=
      fun b hb hb1 => .inr (.inl (Stacks.any_new hb hb1))
    by_cases hsd : s.state_ = .kDisconnected
    · rcases hs hsd with ⟨conn, hclosed⟩ | hany | ⟨task, ht, ht1⟩
      · exact .inl ⟨conn, by simp [heff.delivered, hclosed]⟩
      · rcases hany.advance hw with ha | hany
        · rcases passes_removal ha (fun heq => hg (by rw [hcur, heq])) hsd with
            ⟨b, hb, hb1⟩ | ⟨task, ht, ht1⟩ | rfl
          · exact hnew b hb hb1
          · exact .inr (.inr ⟨task, by simp [heff.queue, ht], ht1⟩)
          · exact .inl ⟨s.conn_, by simp [heff.delivered, TcpAct.delivers]⟩
        · exact .inr (.inl hany)
      · exact .inr (.inr ⟨task, by simp [heff.queue, ht], ht1⟩)
    · obtain ⟨b, hb, hb1⟩ := removal_of_stores w env hsd (heff.state_.symm.trans hd)
      exact hnew b hb hb1
  | @task task queue hidle hq =>
    rcases hs hd with hclosed | hany | ⟨task', ht, ht1⟩
    · exact .inl hclosed
    · exact .inr (.inl ((Stacks.any_begin hidle).mpr (.inr hany)))
    · rw [hq, List.mem_cons] at ht
      rcases ht with rfl | ht
      · refine .inr (.inl ((Stacks.any_begin hidle).mpr (.inl ?_)))
        cases task' with
        | handleRemove | close => exact ⟨_, List.mem_singleton_self _, rfl⟩
        | _ => cases ht1
      · exact .inr (.inr ⟨task', ht, ht1⟩)
  | collect => exact hs hd
  | dispatch hc =>
    refine (hs hd).imp_right (Or.imp_right ?_)
    rintro ⟨task, ht, ht1⟩
    exact ⟨task, List.mem_append_left _ ht, ht1⟩

/-- **No close forgotten**: if the task of `Close` always finds `output_` empty, then every
quiescent disconnected connection has delivered `OnClose`. -/
theorem notForgotten (addr : Nat) (cells : Nat → UInt8) (ls : List (TcpLabel T))
    (h : (tcpConnection T).AllSteps ClosesDrained ls (start addr cells)) :
    (tcpConnection T).AllStates NotForgotten ls (start addr cells) := by
  refine h.allStates (I := fun s => s.state_ = .kDisconnected → Removing s)
    (fun l s t hs hg ht => removing_step hs hg ht) ?_ (by simp [start])
  intro s hs _ hq hd
  exact closed_of_quiescent hq (hs hd)

end Removing

/-- Two bytes are sent and written before `Close`. -/
def closeDrained : List (TcpLabel Unit) :=
  runTask 5 ++ runCall () (.send twoBytes) 2 ++ runTask 4 ++
    [.collect Events.EPOLLOUT, .dispatch] ++ runTask 5 ++ runCall () .close 2 ++ runTask 4

theorem notForgotten_closeDrained :
    (tcpConnection Unit).AllStates NotForgotten closeDrained (start 0 fun _ => 0) :=
  notForgotten 0 _ closeDrained (by decide +kernel)

/-- `Close` while two bytes are queued for writing, and the write afterwards. -/
def closePending : List (TcpLabel Unit) :=
  runTask 5 ++ runCall () (.send twoBytes) 2 ++ runTask 4 ++ runCall () .close 2 ++
    runTask 1 ++ [.collect Events.EPOLLOUT, .dispatch] ++ runTask 5

/-- The connection is disconnected and quiescent, and the handler has never been told. -/
theorem closePending_forgotten :
    ¬ (tcpConnection Unit).AllStates NotForgotten closePending (start 0 fun _ => 0) := by
  decide +kernel

end TcpConnection

end Lizlib
