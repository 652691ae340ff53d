import Mathlib.Data.List.TakeWhile
import Lizlib.Net.Equiv.Close

/-!
# The order of the callbacks

What a handler may rely on before it knows of a connection, if nobody calls `Send(Buffer*)`: a
`Send(&output_)` sets the write interest without a look at `state_`.

* `callbacks_inOrder`: `OnConnect` comes at most once, and no `OnRead` or `OnWriteComplete` comes
  before it.
* `connectFirst_iff`: exactly when `OnConnect` comes before everything else.
-/

namespace Lizlib

variable {T : Type*}

/-- The callbacks that tell of data. -/
def Callback.isData : Callback → Bool
  | .onRead _ | .onWriteComplete => true
  | .onConnect | .onError | .onClose => false

/-- The act is the call of `OnConnect`. -/
def TcpAct.opens : TcpAct T → Bool
  | .callback .onConnect => true
  | _ => false

namespace TcpConnection

/-! ### `OnConnect` once -/

/-- No store to `state_` overtakes the task of `Start`. -/
def ConnectsFirst (l : TcpLabel T) (s : TcpConnection T) : Prop :=
  current l s = some .storeDisconnected ∨ current l s = some .storeDisconnecting →
    s.state_ ≠ .kConnecting

instance [DecidableEq T] (l : TcpLabel T) (s : TcpConnection T) : Decidable (ConnectsFirst l s) :=
  inferInstanceAs (Decidable (_ → _))

/-- How often `OnConnect` has been delivered, is about to be, or can still be. -/
def connects (s : TcpConnection T) : Nat :=
  (s.delivered.countP fun x => x.1 = .onConnect) + (s.stack none).countP TcpAct.opens +
    if s.state_ = .kConnecting then 1 else 0

theorem connects_start (addr : Nat) (cells : Nat → UInt8) :
    (start addr cells : TcpConnection T).connects = 1 := rfl

/-- Only the callback of `Start` calls `OnConnect`. -/
theorem Next.opens {s : TcpConnection T} {w : Option T} {env : TcpEnv} {a : TcpAct T}
    {new : List (TcpAct T)} (h : Next s w env a new) (ha : a ≠ .connect) :
    new.countP TcpAct.opens = 0 := by
  cases h with
  | connect => exact absurd rfl ha
  | callback => simp [List.countP_map, List.countP_eq_zero, TcpAct.opens]
  | _ => rfl

theorem opens_acts (task : TcpTask T) : task.acts.countP TcpAct.opens = 0 := by
  apply List.countP_eq_zero.mpr
  intro a ha
  have hbegins := begins_of_mem_acts ha
  cases a with
  | callback => cases hbegins
  | _ => simp [TcpAct.opens]

/-- Whether an act leaves `kConnecting`. -/
theorem stores_kConnecting {a : TcpAct T} {state : TcpState} (ha : a ≠ .connect) :
    (a.stores state = .kConnecting ↔ state = .kConnecting) ∨
      (a = .storeDisconnected ∨ a = .storeDisconnecting) ∧ a.stores state ≠ .kConnecting := by
  cases a with
  | call api => cases api <;> cases state <;> simp [TcpAct.stores]
  | connect => exact absurd rfl ha
  | storeDisconnected | storeDisconnecting => exact .inr ⟨by simp, by simp [TcpAct.stores]⟩
  | _ => exact .inl Iff.rfl

section

variable [DecidableEq T] {l : TcpLabel T} {s t : TcpConnection T}

open Function (update)

omit [DecidableEq T] in
/-- What an act delivers was on the stack. -/
theorem countP_delivers (a : TcpAct T) (conn : Bool) :
    ((a.delivers conn).countP fun x => x.1 = .onConnect) = if a.opens then 1 else 0 := by
  cases a with
  | callback cb => cases cb <;> rfl
  | _ => rfl

/-- An act of the loop's own thread. -/
theorem connects_act {w : Option T} {env : TcpEnv} {a : TcpAct T} {rest : List (TcpAct T)}
    (hs : Shaped s) (hw : s.stack w = a :: rest) :
    let t := { (s.act w env a).1 with stack := update s.stack w ((s.act w env a).2 ++ rest) }
    (s.act w env a).1.state_ = .kConnecting ∨ s.state_ ≠ .kConnecting ∨ a = .connect →
      t.connects = s.connects := by
  intro t hstate
  have heff := act_effect s w env a
  have hadm := hs.admissible.head hw
  have hdelivered : t.delivered.countP (fun x => x.1 = .onConnect) =
      s.delivered.countP (fun x => x.1 = .onConnect) + if a.opens then 1 else 0 := by
    show (s.act w env a).1.delivered.countP _ = _
    rw [heff.delivered, List.countP_append, countP_delivers]
  by_cases hconnect : a = .connect
  · subst hconnect
    obtain rfl : w = none := hadm
    by_cases hk : s.state_ = .kConnecting
    · simp [connects, t, act, hk, hw, List.countP_cons, TcpAct.opens]
      omega
    · simp [connects, t, act, hk, hw, TcpAct.opens]
  · have hkeep : t.state_ = .kConnecting ↔ s.state_ = .kConnecting := by
      show (s.act w env a).1.state_ = .kConnecting ↔ _
      rw [heff.state_] at hstate ⊢
      rcases stores_kConnecting hconnect with hiff | ⟨-, hne⟩
      · exact hiff
      · rcases hstate with hstate | hstate | hstate
        · exact absurd hstate hne
        · exact iff_of_false hne hstate
        · exact absurd hstate hconnect
    by_cases hnone : w = none
    · subst hnone
      have hstack : (t.stack none).countP TcpAct.opens = rest.countP TcpAct.opens := by
        show (update s.stack none ((s.act none env a).2 ++ rest) none).countP _ = _
        rw [Function.update_self, List.countP_append,
          (act_next s none env a).opens hconnect, Nat.zero_add]
      simp only [connects, hdelivered, hstack, hw, List.countP_cons, hkeep]
      omega
    · have hstack : t.stack none = s.stack none := Function.update_of_ne (Ne.symm hnone) _ _
      have hopens : a.opens = false := by
        cases a with
        | callback => exact absurd hadm hnone
        | _ => rfl
      simp only [connects, hdelivered, hstack, hkeep, hopens, Bool.false_eq_true, if_false,
        Nat.add_zero]

/-- **One connection**: a step keeps the number of `OnConnect`s there can be, unless it overtakes the
task of `Start`; then none is left. -/
theorem connects_step (hs : Shaped s) (h : step l s = some t) :
    (ConnectsFirst l s → t.connects = s.connects) ∧
      (¬ ConnectsFirst l s → t.connects + 1 = s.connects) := by
  obtain ⟨-, hmoves⟩ := moves_of_step h
  cases hmoves with
  | @act w env a rest hw =>
    have heff := act_effect s w env a
    have hcur : current (.act w env) s = some a := current_of_stack hw
    constructor
    · intro hg
      apply connects_act hs hw
      rw [heff.state_]
      by_cases hconnect : a = .connect
      · exact .inr (.inr hconnect)
      · rcases stores_kConnecting hconnect with hiff | ⟨hstore, -⟩
        · by_cases hk : s.state_ = .kConnecting
          · exact .inl (hiff.mpr hk)
          · exact .inr (.inl hk)
        · exact .inr (.inl (hg (hstore.imp (by rintro rfl; exact hcur) (by rintro rfl; exact hcur))))
    · intro hg
      simp only [ConnectsFirst, hcur, Option.some.injEq, Classical.not_imp, not_not] at hg
      obtain ⟨hstore, hk⟩ := hg
      have hstack : ((update s.stack w ((s.act w env a).2 ++ rest)) none).countP TcpAct.opens =
          (s.stack none).countP TcpAct.opens := by
        by_cases hnone : w = none
        · subst hnone
          rw [Function.update_self, hw]
          rcases hstore with rfl | rfl <;> simp [act, TcpAct.opens]
        · rw [Function.update_of_ne (Ne.symm hnone)]
      rcases hstore with rfl | rfl <;> simp [connects, act, hk] <;> simpa [act] using hstack
  | @call u api hidle =>
    refine ⟨fun _ => ?_, fun hg => absurd ?_ hg⟩
    · simp only [connects]
      rw [Function.update_of_ne (Option.some_ne_none _).symm]
    · rintro (hcur | hcur) <;> cases hcur
  | @task task queue hidle hq =>
    refine ⟨fun _ => ?_, fun hg => absurd ?_ hg⟩
    · simp only [connects]
      rw [Function.update_self, opens_acts, hidle, List.countP_nil]
    · rintro (hcur | hcur) <;> cases hcur
  | collect =>
    refine ⟨fun _ => rfl, fun hg => absurd ?_ hg⟩
    rintro (hcur | hcur) <;> cases hcur
  | dispatch =>
    refine ⟨fun _ => rfl, fun hg => absurd ?_ hg⟩
    rintro (hcur | hcur) <;> cases hcur

end

end TcpConnection

/-! ### No data before `OnConnect` -/

/-- The act neither reads nor writes the socket, nor takes an interest in it, nor delivers data. -/
def TcpAct.calm : TcpAct T → Bool
  | .handleRead | .handleWrite | .setReadable _ | .append _ => false
  | .setWritable on => !on
  | .update events => events = SelectEvents.kNoneEvent
  | .callback cb => cb ≠ .onConnect && !cb.isData
  | _ => true

/-- Without an interest `epoll_wait` reports neither that there is something to read nor that there
is room to write. -/
theorem handleEvents_of_reportable {events : EventMask}
    (h : TcpConnection.reportable SelectEvents.kNoneEvent events = true) :
    ∀ a ∈ (TcpTask.handleEvents events : TcpTask T).acts, a.calm = true := by
  unfold TcpConnection.reportable at h
  rw [Bool.and_eq_true, decide_eq_true_iff, decide_eq_true_iff] at h
  -- no bit but those of `kError` and `kHangUp` is set
  have hbit : ∀ n : EventMask, ~~~(Events.remove SelectEvents.kNoneEvent Events.EPOLLET |||
      Events.EPOLLERR ||| Events.EPOLLHUP) &&& n = n → Events.contains events n = false := by
    intro n hn
    unfold Events.contains
    rw [← hn, ← UInt32.and_assoc, h.2, UInt32.zero_and]
    rfl
  intro a ha
  obtain ⟨handler, hmem, rfl⟩ := List.mem_map.mp ha
  cases handler with
  | error | close => rfl
  | read =>
    have hin := hbit ReceiveEvents.kReadable (by decide)
    have hpri := hbit ReceiveEvents.kPriorReadable (by decide)
    have hrdhup := hbit ReceiveEvents.kReadHangUp (by decide)
    have hout := hbit ReceiveEvents.kWritable (by decide)
    simp [SocketChannel.handleEvents, hin, hpri, hrdhup, hout] at hmem
  | write =>
    have hout := hbit ReceiveEvents.kWritable (by decide)
    simp [write_mem_handleEvents, hout] at hmem

namespace TcpConnection

/-- `OnConnect` has been delivered. -/
def Opened (s : TcpConnection T) : Prop := ∃ conn, (.onConnect, conn) ∈ s.delivered

/-- The next act of the loop's thread is the call of `OnConnect`. -/
def Opening (s : TcpConnection T) : Prop := (s.stack none).head? = some (.callback .onConnect)

/-- What holds before `OnConnect`: the channel has no interest, nothing it reports is of data, and the
loop's thread has nothing to do with data until it calls `OnConnect`. -/
structure Unopened (s : TcpConnection T) : Prop where
  events_ : s.events_ = SelectEvents.kNoneEvent
  registered : ∀ mask, s.registered = some mask → mask = SelectEvents.kNoneEvent
  collected : ∀ events, s.collected = some events →
    ∀ a ∈ (TcpTask.handleEvents events : TcpTask T).acts, a.calm = true
  queue : ∀ task ∈ s.queue, ∀ a ∈ task.acts, a.calm = true
  stack : (∀ a ∈ s.stack none, a.calm = true) ∨ Opening s
  state_ : s.state_ = .kConnected → Opening s

theorem unopened_start (addr : Nat) (cells : Nat → UInt8) :
    Unopened (start addr cells : TcpConnection T) where
  events_ := rfl
  registered mask h := by cases h
  collected events h := by cases h
  queue task h := by
    obtain rfl := List.mem_singleton.mp h
    simp [TcpTask.acts, TcpAct.calm]
  stack := .inl (by simp [start])
  state_ h := by cases h

/-- What can follow a calm act while the connection is not connected. -/
theorem Next.calm {s : TcpConnection T} {w : Option T} {env : TcpEnv} {a : TcpAct T}
    {new : List (TcpAct T)} (h : Next s w env a new) (ha : a.calm = true)
    (hevents : s.events_ = SelectEvents.kNoneEvent) (hstate : s.state_ ≠ .kConnected)
    (hconnect : a ≠ .connect) : ∀ b ∈ new, b.calm = true := by
  cases h with
  | nil => simp
  | connect => exact absurd rfl hconnect
  | handleSend hs => exact absurd hs hstate
  | callback =>
    intro b hb
    obtain ⟨api, -, rfl⟩ := List.mem_map.mp hb
    rfl
  | @setWritable on =>
    cases on with
    | true => cases ha
    | false => simp [hevents, TcpAct.calm, SocketChannel.setWritable, Events.remove,
        SelectEvents.kNoneEvent]
  | setReadable | append | readFailed | readEnd | readData | writeFailed | drained => cases ha
  | _ => simp [TcpAct.calm, Callback.isData]

/-- What a calm act submits is calm. -/
theorem calm_submits {a : TcpAct T} {w : Option T} (ha : a.Admissible w) :
    ∀ task ∈ a.submits, ∀ b ∈ task.acts, b.calm = true := by
  intro task htask b hb
  obtain rfl := mem_submits htask
  cases task with
  | start => exact absurd ha id
  | handleEvents => exact absurd ha id
  | _ => revert b; simp [TcpTask.acts, TcpAct.calm]

section

variable [DecidableEq T] {l : TcpLabel T} {s t : TcpConnection T}

open Function (update)

theorem opened_step (ho : Opened s) (h : step l s = some t) : Opened t := by
  obtain ⟨conn, hmem⟩ := ho
  obtain ⟨-, hmoves⟩ := moves_of_step h
  refine ⟨conn, ?_⟩
  cases hmoves with
  | @act w env a rest hw =>
    show _ ∈ (s.act w env a).1.delivered
    rw [(act_effect s w env a).delivered]
    exact List.mem_append_left _ hmem
  | _ => exact hmem

omit [DecidableEq T] in
/-- A state that becomes `kConnected` was so before, or the connection is being opened. -/
theorem stores_kConnected {a : TcpAct T} {state : TcpState} (h : a.stores state = .kConnected) :
    state = .kConnected ∨ a = .connect ∧ state = .kConnecting := by
  cases a with
  | call api => cases api <;> cases state <;> simp_all [TcpAct.stores]
  | connect => cases state <;> simp_all [TcpAct.stores]
  | storeDisconnected | storeDisconnecting => cases h
  | _ => exact .inl h

/-- An act of another thread than the loop's. -/
theorem unopened_foreign {w : Option T} {env : TcpEnv} {a : TcpAct T} {rest : List (TcpAct T)}
    (hu : Unopened s) (ha : a.Admissible w) (hw : w ≠ none) :
    Unopened { (s.act w env a).1 with
      stack := update s.stack w ((s.act w env a).2 ++ rest) } := by
  have heff := act_effect s w env a
  have hstack : update s.stack w ((s.act w env a).2 ++ rest) none = s.stack none :=
    Function.update_of_ne (Ne.symm hw) _ _
  have hquiet : a.masks s.events_ = s.events_ ∧ a.registers s.registered = s.registered ∧
      a ≠ .connect := by
    cases a with
    | call | submit | storeDisconnected | storeDisconnecting => exact ⟨rfl, rfl, by simp⟩
    | _ => exact absurd ha hw
  refine ⟨?_, ?_, ?_, ?_, ?_, ?_⟩
  · exact (heff.events_.trans hquiet.1).trans hu.events_
  · show ∀ mask, (s.act w env a).1.registered = some mask → _
    rw [heff.registered, hquiet.2.1]
    exact hu.registered
  · show ∀ events, (s.act w env a).1.collected = some events → _
    rw [heff.collected]
    exact hu.collected
  · show ∀ task ∈ (s.act w env a).1.queue, _
    rw [heff.queue]
    intro task htask
    rcases List.mem_append.mp htask with hold | hnew
    · exact hu.queue task hold
    · exact calm_submits ha task hnew
  · simpa only [Opening, hstack] using hu.stack
  · intro hstate
    replace hstate : (s.act w env a).1.state_ = .kConnected := hstate
    rw [heff.state_] at hstate
    rcases stores_kConnected hstate with hs | ⟨hconnect, -⟩
    · simpa only [Opening, hstack] using hu.state_ hs
    · exact absurd hconnect hquiet.2.2

/-- An act of the loop's own thread before it calls `OnConnect`. -/
theorem unopened_loop {env : TcpEnv} {a : TcpAct T} {rest : List (TcpAct T)} (hu : Unopened s)
    (hshaped : Shaped s) (hw : s.stack none = a :: rest) (hopen : a ≠ .callback .onConnect) :
    Unopened { (s.act none env a).1 with
      stack := update s.stack none ((s.act none env a).2 ++ rest) } := by
  have heff := act_effect s none env a
  have hnot : ¬ Opening s := by
    intro ho
    rw [Opening, hw, List.head?_cons, Option.some.injEq] at ho
    exact hopen ho
  have hcalm : ∀ b ∈ a :: rest, b.calm = true := by
    rw [← hw]
    exact hu.stack.resolve_right hnot
  have hstate : s.state_ ≠ .kConnected := fun hs => hnot (hu.state_ hs)
  have ha := hcalm a List.mem_cons_self
  have hrest := fun b hb => hcalm b (List.mem_cons_of_mem a hb)
  refine ⟨?_, ?_, ?_, ?_, ?_, ?_⟩
  · show (s.act none env a).1.events_ = _
    rw [heff.events_, hu.events_]
    cases a with
    | setReadable => cases ha
    | setWritable on =>
      cases on with
      | true => cases ha
      | false => rfl
    | _ => rfl
  · show ∀ mask, (s.act none env a).1.registered = some mask → _
    rw [heff.registered]
    intro mask hmask
    cases a with
    | addChannel =>
      cases hr : s.registered with
      | none =>
        rw [hr] at hmask
        exact (Option.some.inj hmask).symm
      | some old =>
        rw [hr] at hmask
        exact (Option.some.inj hmask) ▸ hu.registered old hr
    | update events =>
      obtain ⟨old, -, rfl⟩ := Option.map_eq_some_iff.mp hmask
      simpa [TcpAct.calm] using ha
    | _ => exact hu.registered mask hmask
  · show ∀ events, (s.act none env a).1.collected = some events → _
    rw [heff.collected]
    exact hu.collected
  · show ∀ task ∈ (s.act none env a).1.queue, _
    rw [heff.queue]
    intro task htask
    rcases List.mem_append.mp htask with hold | hnew
    · exact hu.queue task hold
    · exact calm_submits (hshaped.admissible.head hw) task hnew
  · by_cases hconnect : a = .connect
    · subst hconnect
      by_cases hk : s.state_ = .kConnecting
      · exact .inr (by simp [Opening, act, hk])
      · left
        simpa [act, hk] using hrest
    · left
      show ∀ b ∈ update s.stack none ((s.act none env a).2 ++ rest) none, _
      rw [Function.update_self]
      intro b hb
      rcases List.mem_append.mp hb with hnew | hold
      · exact (act_next s none env a).calm ha hu.events_ hstate hconnect b hnew
      · exact hrest b hold
  · intro hconnected
    replace hconnected : (s.act none env a).1.state_ = .kConnected := hconnected
    rw [heff.state_] at hconnected
    rcases stores_kConnected hconnected with hs | ⟨rfl, hk⟩
    · exact absurd hs hstate
    · simp [Opening, act, hk]

/-- **Before `OnConnect`** a step leads to a state before `OnConnect`, or delivers it. -/
theorem unopened_step (hshaped : Shaped s) (hu : Opened s ∨ Unopened s) (h : step l s = some t) :
    Opened t ∨ Unopened t := by
  rcases hu with ho | hu
  · exact .inl (opened_step ho h)
  obtain ⟨-, hmoves⟩ := moves_of_step h
  cases hmoves with
  | @act w env a rest hw =>
    by_cases hnone : w = none
    · subst hnone
      by_cases hopen : a = .callback .onConnect
      · subst hopen
        exact .inl ⟨s.conn_, by simp [act]⟩
      · exact .inr (unopened_loop hu hshaped hw hopen)
    · exact .inr (unopened_foreign hu (hshaped.admissible.head hw) hnone)
  | @call u api hidle =>
    have hstack : update s.stack (some u) [.call api] none = s.stack none :=
      Function.update_of_ne (Option.some_ne_none _).symm _ _
    refine .inr ⟨hu.events_, hu.registered, hu.collected, hu.queue, ?_, ?_⟩
    · simpa only [Opening, hstack] using hu.stack
    · simpa only [Opening, hstack] using hu.state_
  | @task task queue hidle hq =>
    have hidle' : ¬ Opening s := by simp [Opening, hidle]
    refine .inr ⟨hu.events_, hu.registered, hu.collected, ?_, .inl ?_, fun hs => ?_⟩
    · exact fun task' htask => hu.queue task' (hq ▸ List.mem_cons_of_mem _ htask)
    · show ∀ a ∈ update s.stack none task.acts none, _
      rw [Function.update_self]
      exact hu.queue task (hq ▸ List.mem_cons_self)
    · exact absurd (hu.state_ hs) hidle'
  | @collect interest events hr hc he =>
    obtain rfl := hu.registered interest hr
    refine .inr ⟨hu.events_, hu.registered, fun events' hevents => ?_, hu.queue, hu.stack, hu.state_⟩
    obtain rfl := Option.some.inj hevents
    exact handleEvents_of_reportable he
  | @dispatch events hc =>
    refine .inr ⟨hu.events_, hu.registered, fun _ hnone => ?_, fun task htask => ?_, hu.stack,
      hu.state_⟩
    · cases hnone
    · rcases List.mem_append.mp htask with hold | hnew
      · exact hu.queue task hold
      · obtain rfl := List.mem_singleton.mp hnew
        exact hu.collected events hc

/-! ### Along a run -/

/-- What has been delivered before `OnConnect`, or so far. -/
def beforeConnect (s : TcpConnection T) : List (Callback × Bool) :=
  s.delivered.takeWhile fun x => x.1 ≠ .onConnect

/-- `OnConnect` at most once, and no data before it. -/
structure InOrder (s : TcpConnection T) : Prop where
  once : (s.delivered.countP fun x => x.1 = .onConnect) ≤ 1
  noData : ∀ x ∈ s.beforeConnect, x.1.isData = false

/-- The invariant behind `InOrder`. -/
structure Introduced (s : TcpConnection T) : Prop where
  shaped : Shaped s
  connects_le : s.connects ≤ 1
  unopened : Opened s ∨ Unopened s
  noData : ∀ x ∈ s.beforeConnect, x.1.isData = false

omit [DecidableEq T] in
theorem Introduced.calls (h : Introduced s) : InOrder s := by
  refine ⟨?_, h.noData⟩
  have hle := h.connects_le
  unfold connects at hle
  omega

omit [DecidableEq T] in
theorem introduced_start (addr : Nat) (cells : Nat → UInt8) :
    Introduced (start addr cells : TcpConnection T) where
  shaped := shaped_start addr cells
  connects_le := (connects_start addr cells).le
  unopened := .inr (unopened_start addr cells)
  noData := by simp [beforeConnect, start]

omit [DecidableEq T] in
/-- What an act of the loop's thread delivers before `OnConnect` is not data. -/
theorem noData_append (hu : Opened s ∨ Unopened s) (hn : ∀ x ∈ s.beforeConnect, x.1.isData = false)
    {a : TcpAct T} {rest : List (TcpAct T)} (hw : s.stack none = a :: rest) :
    ∀ x ∈ (s.delivered ++ a.delivers s.conn_).takeWhile fun x => x.1 ≠ .onConnect,
      x.1.isData = false := by
  intro x hx
  rw [List.takeWhile_append] at hx
  split_ifs at hx with hall
  · rcases List.mem_append.mp hx with hx | hx
    · have hlen : s.beforeConnect = s.delivered :=
        List.IsPrefix.eq_of_length (List.takeWhile_prefix _) hall
      exact hn x (by rw [hlen]; exact hx)
    · have hmem := List.mem_takeWhile_imp hx
      have hx := (List.takeWhile_sublist _).subset hx
      cases a with
      | callback cb =>
        obtain rfl := List.mem_singleton.mp hx
        have hclosed : ¬ Opened s := by
          rintro ⟨conn, hopened⟩
          have heq : s.beforeConnect = s.delivered :=
            List.IsPrefix.eq_of_length (List.takeWhile_prefix _) hall
          rw [← heq] at hopened
          simpa using List.mem_takeWhile_imp hopened
        have hunopened := hu.resolve_left hclosed
        rcases hunopened.stack with hcalm | hopening
        · have := hcalm (.callback cb) (hw ▸ List.mem_cons_self)
          simp only [TcpAct.calm, Bool.and_eq_true, Bool.not_eq_true'] at this
          exact this.2
        · rw [Opening, hw, List.head?_cons, Option.some.injEq, TcpAct.callback.injEq] at hopening
          subst hopening
          rfl
      | _ => cases hx
  · exact hn x hx

theorem introduced_step (hi : Introduced s) (h : step l s = some t) : Introduced t := by
  refine ⟨shaped_step hi.shaped h, ?_, unopened_step hi.shaped hi.unopened h, ?_⟩
  · have hconnects := connects_step hi.shaped h
    have hle := hi.connects_le
    by_cases hg : ConnectsFirst l s
    · rw [hconnects.1 hg]
      exact hle
    · have := hconnects.2 hg
      omega
  · obtain ⟨-, hmoves⟩ := moves_of_step h
    cases hmoves with
    | @act w env a rest hw =>
      show ∀ x ∈ List.takeWhile _ (s.act w env a).1.delivered, _
      rw [(act_effect s w env a).delivered]
      by_cases hnone : w = none
      · subst hnone
        exact noData_append hi.unopened hi.noData hw
      · rw [delivers_of_admissible (hi.shaped.admissible.head hw) hnone, List.append_nil]
        exact hi.noData
    | _ => exact hi.noData

/-- **Nothing of data before `OnConnect`**: along every schedule `OnConnect` is delivered at most
once, and neither `OnRead` nor `OnWriteComplete` before it. -/
theorem callbacks_inOrder (addr : Nat) (cells : Nat → UInt8) (ls : List (TcpLabel T)) :
    (tcpConnection T).AllStates InOrder ls (start addr cells) :=
  System.allStates_of_invariant (fun _ _ _ hi ht => introduced_step hi ht) (fun _ hi => hi.calls) ls
    (introduced_start addr cells)

/-! ### Nothing at all before `OnConnect` -/

/-- The task of `Start` comes first, and nothing has been delivered yet. -/
def Starting (s : TcpConnection T) : Prop :=
  s.delivered = [] ∧ (Opening s ∨ s.state_ = .kConnecting ∧
    (s.stack none = [] ∧ s.queue.head? = some .start ∨ s.stack none = [.addChannel, .connect] ∨
      s.stack none = [.connect]))

/-- `OnConnect` has been delivered before everything else. -/
def ConnectedFirst (s : TcpConnection T) : Prop :=
  s.delivered.head?.map Prod.fst = some .onConnect

theorem starting_step (hshaped : Shaped s) (hs : Starting s) (hg : ConnectsFirst l s)
    (h : step l s = some t) : Starting t ∨ ConnectedFirst t := by
  obtain ⟨hnil, hphase⟩ := hs
  obtain ⟨-, hmoves⟩ := moves_of_step h
  cases hmoves with
  | @act w env a rest hw =>
    have heff := act_effect s w env a
    by_cases hnone : w = none
    · subst hnone
      rcases hphase with hopening | ⟨hk, ⟨hidle, -⟩ | hstack | hstack⟩
      · rw [Opening, hw, List.head?_cons, Option.some.injEq] at hopening
        subst hopening
        exact .inr (by simp [ConnectedFirst, act, hnil])
      · simp [hidle] at hw
      · obtain ⟨rfl, rfl⟩ := List.cons.inj (hw.symm.trans hstack)
        exact .inl ⟨hnil, .inr ⟨hk, .inr (.inr (by simp [act]))⟩⟩
      · obtain ⟨rfl, rfl⟩ := List.cons.inj (hw.symm.trans hstack)
        left
        refine ⟨?_, .inl ?_⟩
        · simp [act, hk, hnil]
        · simp [Opening, act, hk]
    · have hadm := hshaped.admissible.head hw
      have hstack : update s.stack w ((s.act w env a).2 ++ rest) none = s.stack none :=
        Function.update_of_ne (Ne.symm hnone) _ _
      have hconnect : a ≠ .connect := by
        rintro rfl
        exact hnone hadm
      left
      refine ⟨?_, ?_⟩
      · show (s.act w env a).1.delivered = []
        rw [heff.delivered, hnil, delivers_of_admissible hadm hnone]
        rfl
      · refine hphase.imp (fun ho => by simpa only [Opening, hstack] using ho) fun hphase => ⟨?_, ?_⟩
        · show (s.act w env a).1.state_ = _
          rw [heff.state_]
          rcases stores_kConnecting hconnect with hiff | ⟨hstore, -⟩
          · exact hiff.mpr hphase.1
          · have hcur : current (.act w env) s = some a := current_of_stack hw
            exact absurd hphase.1
              (hg (hstore.imp (by rintro rfl; exact hcur) (by rintro rfl; exact hcur)))
        · simp only [hstack]
          refine hphase.2.imp_left fun hqueue => ⟨hqueue.1, ?_⟩
          show (s.act w env a).1.queue.head? = _
          rw [heff.queue, List.head?_append, hqueue.2]
          rfl
  | @call u api hidle =>
    have hstack : update s.stack (some u) [.call api] none = s.stack none :=
      Function.update_of_ne (Option.some_ne_none _).symm _ _
    exact .inl ⟨hnil, by simpa only [Opening, hstack] using hphase⟩
  | @task task queue hidle hq =>
    rcases hphase with hopening | ⟨hk, ⟨-, hstart⟩ | hstack | hstack⟩
    · simp [Opening, hidle] at hopening
    · rw [hq, List.head?_cons, Option.some.injEq] at hstart
      subst hstart
      exact .inl ⟨hnil, .inr ⟨hk, .inr (.inl (by simp [TcpTask.acts]))⟩⟩
    · simp [hidle] at hstack
    · simp [hidle] at hstack
  | collect => exact .inl ⟨hnil, hphase⟩
  | @dispatch events hc =>
    left
    refine ⟨hnil, hphase.imp_right fun hphase => ⟨hphase.1, hphase.2.imp_left fun hqueue => ?_⟩⟩
    refine ⟨hqueue.1, ?_⟩
    show (s.queue ++ _).head? = _
    rw [List.head?_append, hqueue.2]
    rfl

theorem connectedFirst_step (hs : ConnectedFirst s) (h : step l s = some t) : ConnectedFirst t := by
  obtain ⟨-, hmoves⟩ := moves_of_step h
  cases hmoves with
  | @act w env a rest hw =>
    obtain ⟨x, hhead, hx⟩ := Option.map_eq_some_iff.mp hs
    show (s.act w env a).1.delivered.head?.map Prod.fst = _
    rw [(act_effect s w env a).delivered, List.head?_append, hhead]
    exact congrArg some hx
  | _ => exact hs

/-- **`OnConnect` first**: in a run that has delivered something, the first callback is `OnConnect`
if and only if no `ForceClose`, `ForceShutdown` or `handleClose` has stored to `state_` before the
task of `Start` ran. -/
theorem connectFirst_iff (addr : Nat) (cells : Nat → UInt8) (ls : List (TcpLabel T))
    {t : TcpConnection T} (h : (tcpConnection T).run ls (start addr cells) = some t)
    (hne : t.delivered ≠ []) :
    ConnectedFirst t ↔ (tcpConnection T).AllSteps ConnectsFirst ls (start addr cells) := by
  constructor
  · intro hfirst
    have hcount : t.connects ≠ 0 := by
      obtain ⟨x, hhead, hx⟩ := Option.map_eq_some_iff.mp hfirst
      have hmem := List.mem_of_mem_head? hhead
      have hpos : 0 < t.delivered.countP fun x => x.1 = .onConnect :=
        List.countP_pos_iff.mpr ⟨x, hmem, by simpa using hx⟩
      unfold connects
      omega
    refine (System.not_fault_iff_allSteps (I := Introduced) (F := fun s => s.connects = 0)
      (fun _ _ _ hi ht => introduced_step hi ht) ?_ ?_ (introduced_start addr cells) ?_ h).mp hcount
    · intro l s t hi hzero ht
      have hconnects := connects_step hi.shaped ht
      by_cases hg : ConnectsFirst l s
      · rw [hconnects.1 hg, hzero]
      · have := hconnects.2 hg
        omega
    · intro l s t hi hpos ht
      have hconnects := connects_step hi.shaped ht
      have hle := hi.connects_le
      by_cases hg : ConnectsFirst l s
      · rw [hconnects.1 hg]
        exact iff_of_false hpos (not_not.mpr hg)
      · refine iff_of_true ?_ hg
        have := hconnects.2 hg
        omega
    · rw [connects_start]
      exact one_ne_zero
  · intro hall
    have hlast := (hall.allStates (I := fun s => Shaped s ∧ (Starting s ∨ ConnectedFirst s))
      (P := fun s => Starting s ∨ ConnectedFirst s) ?_ (fun _ hs => hs.2) ?_).last h
    · exact hlast.resolve_left fun hs => hne hs.1
    · intro l s t hs hg ht
      refine ⟨shaped_step hs.1 ht, ?_⟩
      rcases hs.2 with hstarting | hfirst
      · exact starting_step hs.1 hstarting hg ht
      · exact .inr (connectedFirst_step hfirst ht)
    · exact ⟨shaped_start addr cells, .inl ⟨rfl, .inr ⟨rfl, .inl ⟨rfl, rfl⟩⟩⟩⟩

theorem connectFirst_iff_runTask : ∃ t : TcpConnection Unit,
    (tcpConnection Unit).run (runTask 4) (start 0 fun _ => 0) = some t ∧
      (ConnectedFirst t ↔
        (tcpConnection Unit).AllSteps ConnectsFirst (runTask 4) (start 0 fun _ => 0)) := by
  have hrun : ((tcpConnection Unit).run (runTask 4) (start 0 fun _ => 0)).isSome = true := rfl
  have ht := (Option.some_get hrun).symm
  have hne : (((tcpConnection Unit).run (runTask 4) (start 0 fun _ => 0)).get hrun).delivered =
    [(.onConnect, true)] := rfl
  exact ⟨_, ht, connectFirst_iff 0 (fun _ => 0) (runTask 4) ht (by rw [hne]; simp)⟩

end

end TcpConnection

end Lizlib
