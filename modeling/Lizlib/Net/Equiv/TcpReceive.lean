import Lizlib.Net.Equiv.WriteInterest
import Lizlib.Net.TcpReceive

/-!
# Bytes left behind in the receive queue

`handleRead` reads once per event.  `drained_of_readsOut`: nothing is left in the receive queue of a
connected connection without an event to come, if no read leaves bytes behind that no further event
is due for (`ReadsOut`).
-/

namespace Lizlib

open Events

namespace TcpConnection

variable {T : Type*}

/-- The task runs `handleRead`. -/
def reads : TcpTask T → Bool
  | .handleEvents events => .read ∈ SocketChannel.handleEvents events
  | _ => false

/-- A read event has been reported, and is not being handled yet. -/
def ReadDue (s : TcpConnection T) : Prop :=
  (∃ events ∈ s.collected, .read ∈ SocketChannel.handleEvents events) ∨
    ∃ task ∈ s.queue, reads task = true

/-- A read event is on its way to `handleRead`. -/
def ReadInFlight (s : TcpConnection T) : Prop := s.ReadDue ∨ .handleRead ∈ s.stack none

/-- The callback of `Start` asks for `EPOLLIN` after the transition, and nothing drops it. -/
structure Reading (s : TcpConnection T) : Prop where
  connected : s.state_ = .kConnected →
    contains s.events_ ReceiveEvents.kReadable = true ∨ .setReadable true ∈ s.stack none
  kept : Stacks.All (fun _ a => a ≠ .setReadable false) s.stack

theorem handleRead_mem_acts {task : TcpTask T} :
    (.handleRead : TcpAct T) ∈ task.acts ↔ reads task = true := by
  cases task with
  | handleEvents events =>
    unfold reads TcpTask.acts
    rw [List.mem_map, decide_eq_true_iff]
    constructor
    · rintro ⟨handler, hmem, heq⟩
      cases handler with
      | read => exact hmem
      | _ => cases heq
    · exact fun hmem => ⟨.read, hmem, rfl⟩
  | _ => simp [TcpTask.acts, reads]

theorem setReadable_false_not_mem_next {s : TcpConnection T} {w : Option T} {env : TcpEnv}
    {a : TcpAct T} {new : List (TcpAct T)} (h : Next s w env a new) : .setReadable false ∉ new := by
  cases h <;> simp

theorem setReadable_false_not_mem_acts (task : TcpTask T) : .setReadable false ∉ task.acts := by
  intro hmem
  cases begins_of_mem_acts hmem

/-! ### The read interest -/

section Step

variable [DecidableEq T] {l : TcpLabel T} {s t : TcpConnection T}

omit [DecidableEq T] in
/-- Only the callback of `Start` makes the transition to `kConnected`. -/
theorem connected_of_stores {a : TcpAct T} {state : TcpState} (ha : a ≠ .connect)
    (h : a.stores state = .kConnected) : state = .kConnected := by
  cases a with
  | call api =>
    cases api with
    | close | shutdown =>
      simp only [TcpAct.stores] at h
      split_ifs at h
      exact h
    | _ => exact h
  | connect => exact absurd rfl ha
  | storeDisconnected | storeDisconnecting => cases h
  | _ => exact h

omit [DecidableEq T] in
/-- No act drops the read interest but `SetReadable(false)`. -/
theorem contains_kReadable_masks {a : TcpAct T} {events : EventMask} (ha : a ≠ .setReadable false)
    (h : contains events ReceiveEvents.kReadable = true) :
    contains (a.masks events) ReceiveEvents.kReadable = true := by
  cases a with
  | setReadable on =>
    cases on with
    | true => exact contains_kReadable_setReadable events
    | false => exact absurd rfl ha
  | setWritable on => exact (contains_kReadable_setWritable events on).trans h
  | _ => exact h

theorem reading_act {w : Option T} {env : TcpEnv} {a : TcpAct T} {rest : List (TcpAct T)}
    (hs : Shaped s) (hr : Reading s) (hw : s.stack w = a :: rest)
    (hstate : (s.act w env a).1.state_ = .kConnected) :
    contains (s.act w env a).1.events_ ReceiveEvents.kReadable = true ∨
      .setReadable true ∈ Function.update s.stack w ((s.act w env a).2 ++ rest) none := by
  have heff := act_effect s w env a
  have ha : a ≠ .setReadable false := hr.kept.head hw
  rw [heff.state_] at hstate
  rw [heff.events_]
  by_cases hconnect : a = .connect
  · -- the transition, or none: the read interest follows
    subst hconnect
    obtain rfl : w = none := hs.admissible.head hw
    rw [Function.update_self]
    by_cases hs' : s.state_ = .kConnecting
    · exact .inr (by simp [act, hs'])
    · have hstate : s.state_ = .kConnected := by simpa [TcpAct.stores, hs'] using hstate
      rcases hr.connected hstate with h | h
      · exact .inl h
      · rw [hw, List.mem_cons] at h
        exact .inr (List.mem_append_right _ (h.resolve_left (by simp)))
  · rcases hr.connected (connected_of_stores hconnect hstate) with h | h
    · exact .inl (contains_kReadable_masks ha h)
    · by_cases hset : a = .setReadable true
      · subst hset
        exact .inl (contains_kReadable_setReadable _)
      · refine .inr ?_
        by_cases hloop : w = none
        · subst hloop
          rw [Function.update_self]
          rw [hw, List.mem_cons] at h
          exact List.mem_append_right _ (h.resolve_left (Ne.symm hset))
        · rwa [Function.update_of_ne (Ne.symm hloop)]

theorem reading_step (hs : Shaped s) (hr : Reading s) (h : step l s = some t) : Reading t := by
  refine ⟨fun hstate => ?_, ?_⟩
  · obtain ⟨-, hmoves⟩ := moves_of_step h
    cases hmoves with
    | call hidle => simpa using hr.connected hstate
    | act hw => exact reading_act hs hr hw hstate
    | task hidle hq =>
      rcases hr.connected hstate with h | h
      · exact .inl h
      · simp [hidle] at h
    | collect => exact hr.connected hstate
    | dispatch => exact hr.connected hstate
  · refine all_step hr.kept (fun _ _ _ => by simp) ?_ ?_ h
    · rintro w env a new - - - hnext b hb rfl
      exact setReadable_false_not_mem_next hnext hb
    · rintro task - b hb rfl
      exact setReadable_false_not_mem_acts task hb

theorem reading_of_reachable (h : (tcpConnection T).Reachable s) :
    Shaped s ∧ Synced s ∧ Reading s := by
  refine h.invariant (I := fun s => Shaped s ∧ Synced s ∧ Reading s) ?_ ?_
  · rintro s ⟨addr, cells, rfl⟩
    refine ⟨shaped_start addr cells, fun _ => rfl, fun h => ?_, ?_⟩
    · cases h
    · intro w a ha
      cases ha
  · rintro l s t ⟨hshaped, hsynced, hreading⟩ - ht
    exact ⟨shaped_step hshaped ht, synced_step hshaped hsynced ht,
      reading_step hshaped hreading ht⟩

/-! ### Read events in flight -/

omit [DecidableEq T] in
theorem readDue_of_queue {c : TcpConnection T} (hs : ∃ task ∈ s.queue, reads task = true)
    (hq : ∀ task ∈ s.queue, task ∈ c.queue) : c.ReadDue := by
  obtain ⟨task, hmem, hreads⟩ := hs
  exact .inr ⟨task, hq task hmem, hreads⟩

/-- An act reports no event and drops none. -/
theorem readDue_act (w : Option T) (env : TcpEnv) (a : TcpAct T) (hs : s.ReadDue) :
    (s.act w env a).1.ReadDue := by
  have heff := act_effect s w env a
  rcases hs with hs | hs
  · refine .inl ?_
    rwa [heff.collected]
  · apply readDue_of_queue hs
    intro task hmem
    rw [heff.queue]
    exact List.mem_append_left _ hmem

/-- A read event stays in flight until `handleRead` is executed. -/
theorem readInFlight_step (hs : s.ReadInFlight) (hl : current l s ≠ some .handleRead)
    (h : step l s = some t) : t.ReadInFlight := by
  obtain ⟨-, hmoves⟩ := moves_of_step h
  cases hmoves with
  | call hidle =>
    apply hs.imp id
    intro h
    simpa using h
  | @act w env a rest hw =>
    apply hs.imp (fun h => readDue_act w env a h)
    intro hmem
    by_cases hloop : w = none
    · subst hloop
      rw [hw, List.mem_cons] at hmem
      show .handleRead ∈ Function.update s.stack none _ none
      rw [Function.update_self]
      -- it is not the act that is executed, so it stays on the stack
      refine List.mem_append_right _ (hmem.resolve_left ?_)
      rintro rfl
      exact hl (current_of_stack hw)
    · show .handleRead ∈ Function.update s.stack w _ none
      rwa [Function.update_of_ne (Ne.symm hloop)]
  | @task task queue hidle hq =>
    rcases hs with (hs | ⟨task', hmem, hreads⟩) | hs
    · exact .inl (.inl hs)
    · rw [hq, List.mem_cons] at hmem
      rcases hmem with rfl | hmem
      · refine .inr ?_
        show .handleRead ∈ Function.update s.stack none _ none
        rw [Function.update_self]
        exact handleRead_mem_acts.mpr hreads
      · exact .inl (.inr ⟨task', hmem, hreads⟩)
    · simp [hidle] at hs
  | @collect m events hr hc he =>
    rcases hs with (⟨events, hmem, -⟩ | hs) | hs
    · simp [hc] at hmem
    · exact .inl (.inr hs)
    · exact .inr hs
  | @dispatch events hc =>
    -- the collected event becomes a task
    rcases hs with (⟨events', hmem, hreads⟩ | hs) | hs
    · rw [hc, Option.mem_some] at hmem
      subst hmem
      refine .inl (.inr ⟨.handleEvents events, by simp, ?_⟩)
      simpa [reads] using hreads
    · exact .inl (readDue_of_queue hs fun task hmem => List.mem_append_left _ hmem)
    · exact .inr hs

/-- What the act of a step does to the registration, and to the events that are due. -/
theorem registered_of_act {w : Option T} {env : TcpEnv} {a : TcpAct T} {rest : List (TcpAct T)}
    (hw : s.stack w = a :: rest) (h : step (.act w env) s = some t) :
    t.registered = a.registers s.registered ∧ (s.ReadDue → t.ReadDue) := by
  obtain ⟨-, hmoves⟩ := moves_of_step h
  cases hmoves with
  | @act w env b rest' hw' =>
    rw [hw, List.cons.injEq] at hw'
    obtain ⟨rfl, rfl⟩ := hw'
    exact ⟨(act_effect s w env a).registered, readDue_act w env a⟩

/-- Only an act touches the registration. -/
theorem registered_step (hl : ∀ w env, l ≠ .act w env) (h : step l s = some t) :
    t.registered = s.registered := by
  obtain ⟨-, hmoves⟩ := moves_of_step h
  cases hmoves with
  | act => exact absurd rfl (hl _ _)
  | call | task | collect | dispatch => rfl

end Step

end TcpConnection

namespace TcpReceiver

open TcpConnection

variable {T : Type*} [DecidableEq T]

omit [DecidableEq T] in
/-- On a connected connection with no read event in epoll, on its way or being handled, the receive
queue is empty. -/
def Drained (s : TcpReceiver T) : Prop :=
  s.conn.fatal = none → s.conn.state_ = .kConnected → s.conn.stack none = [] →
    s.conn.collected = none → (∀ events, .handleEvents events ∉ s.conn.queue) →
    s.pending = false → s.received = []

omit [DecidableEq T] in
/-- A read takes all there is, or another event is due: more bytes have arrived, the channel is
registered level-triggered, or the event has been reported. -/
def ReadsOut (l : ReceiverLabel T) (s : TcpReceiver T) : Prop :=
  match l with
  | .conn l => current l s.conn = some .handleRead →
      s.received.length ≤ kTcpRwUnit ∨ s.ready = true ∨ edge s.conn = false ∨ s.conn.ReadDue
  | .arrive _ => True

omit [DecidableEq T] in
/-- There is nothing to read, or an event for it, or the channel is not registered for any yet. -/
def Covered (s : TcpReceiver T) : Prop :=
  s.received = [] ∨ s.ready = true ∨ interested s.conn = false ∨ edge s.conn = false ∨
    s.conn.ReadInFlight

/-- What holds along every run. -/
structure Inv (s : TcpReceiver T) : Prop where
  shaped : s.conn.Shaped
  synced : s.conn.Synced
  reading : s.conn.Reading

/-! ### Steps -/

/-- One step from `s`, by its label. -/
inductive Moves (s : TcpReceiver T) : ReceiverLabel T → TcpReceiver T → Prop
  | arrive {bytes : List UInt8} : Moves s (.arrive bytes) { s with
      received := s.received ++ bytes
      ready := s.ready || interested s.conn }
  | act {w : Option T} {env env' : TcpEnv} {a : TcpAct T} {rest : List (TcpAct T)}
      {c : TcpConnection T} {received : List UInt8} (hw : s.conn.stack w = a :: rest)
      (hreceived : received =
        if a = .handleRead then s.received.drop kTcpRwUnit else s.received)
      (h : s.conn.step (.act w env') = some c) :
      Moves s (.conn (.act w env)) { s with
        conn := c
        received := received
        ready := s.ready || (ctl s.conn a && interested c && received ≠ []) }
  | collect {events : EventMask} {c : TcpConnection T} (h : s.conn.step (.collect events) = some c) :
      Moves s (.conn (.collect events)) { s with
        conn := c
        ready := s.ready && !contains events ReceiveEvents.kReadable }
  | other {l : TcpLabel T} {c : TcpConnection T} (hl : ∀ w env, l ≠ .act w env)
      (h : s.conn.step l = some c) : Moves s (.conn l) { s with conn := c }

/-- **Inversion of a step**. -/
theorem moves_of_step {l : ReceiverLabel T} {s t : TcpReceiver T} (h : step l s = some t) :
    Moves s l t := by
  cases l with
  | arrive bytes =>
    simp only [step, Option.ite_none_left_eq_some, Option.some.injEq] at h
    obtain ⟨-, rfl⟩ := h
    exact .arrive
  | conn l =>
    cases l with
    | act w env =>
      simp only [step] at h
      split at h
      · cases h
      · rename_i hw
        obtain ⟨c, hc, rfl⟩ := Option.map_eq_some_iff.mp h
        exact .act hw rfl hc
    | collect events =>
      simp only [step, Option.ite_none_left_eq_some] at h
      obtain ⟨c, hc, rfl⟩ := Option.map_eq_some_iff.mp h.2
      exact .collect hc
    | call | task | dispatch =>
      obtain ⟨c, hc, rfl⟩ := Option.map_eq_some_iff.mp h
      exact .other (by simp) hc

/-- **The connection of a receiver is a connection**: the receive queue answers its reads, and bytes
that arrive leave it alone. -/
def simulation : Simulation (tcpReceiver T) (tcpConnection T) where
  inv _ := True
  abs s := s.conn
  obs l s :=
    match l with
    | .arrive _ => none
    | .conn (.act w env) => some (.act w { env with read := s.read })
    | .conn l => some l
  inv_init _ _ := trivial
  inv_step _ _ _ _ _ := trivial
  abs_init := by
    rintro s ⟨addr, cells, rfl⟩
    exact ⟨addr, cells, rfl⟩
  abs_step := by
    intro l s t _ h
    change step l s = some t at h
    cases l with
    | arrive bytes =>
      simp only [step, Option.ite_none_left_eq_some, Option.some.injEq] at h
      exact h.2 ▸ rfl
    | conn l =>
      cases l with
      | act w env =>
        simp only [step] at h
        split at h
        · cases h
        · obtain ⟨c, hc, rfl⟩ := Option.map_eq_some_iff.mp h
          exact hc
      | collect events =>
        simp only [step, Option.ite_none_left_eq_some] at h
        obtain ⟨c, hc, rfl⟩ := Option.map_eq_some_iff.mp h.2
        exact hc
      | call | task | dispatch =>
        obtain ⟨c, hc, rfl⟩ := Option.map_eq_some_iff.mp h
        exact hc

theorem inv_of_reachable {s : TcpReceiver T} (h : (tcpReceiver T).Reachable s) : s.Inv := by
  obtain ⟨hshaped, hsynced, hreading⟩ := reading_of_reachable (simulation.reachable h)
  exact ⟨hshaped, hsynced, hreading⟩

section Step

variable {l : ReceiverLabel T} {s t : TcpReceiver T}

omit [DecidableEq T] in
/-- With the same registration, what covers the bytes still does. -/
theorem Covered.congr (hs : s.Covered) (hreg : t.conn.registered = s.conn.registered)
    (hreceived : s.received = [] → t.received = []) (hready : s.ready = true → t.ready = true)
    (hflight : s.conn.ReadInFlight → t.conn.ReadInFlight) : t.Covered := by
  have hinterested : interested t.conn = interested s.conn := by unfold interested; rw [hreg]
  have hedge : edge t.conn = edge s.conn := by unfold edge; rw [hreg]
  rcases hs with hs | hs | hs | hs | hs
  · exact .inl (hreceived hs)
  · exact .inr (.inl (hready hs))
  · exact .inr (.inr (.inl (hinterested.trans hs)))
  · exact .inr (.inr (.inr (.inl (hedge.trans hs))))
  · exact .inr (.inr (.inr (.inr (hflight hs))))

omit [DecidableEq T] in
/-- After an `epoll_ctl` that finds bytes, `EPOLLIN` is reported. -/
theorem covered_of_ctl (hctl : t.ready = (s.ready || (true && interested t.conn && t.received ≠ []))) :
    t.Covered := by
  by_cases hreceived : t.received = []
  · exact .inl hreceived
  · cases hinterested : interested t.conn with
    | false => exact .inr (.inr (.inl hinterested))
    | true => exact .inr (.inl (by simp [hctl, hinterested, hreceived]))

theorem covered_step (hs : s.Covered) (hg : ReadsOut l s) (h : step l s = some t) :
    t.Covered := by
  cases moves_of_step h with
  | arrive =>
    cases hinterested : interested s.conn with
    | false => exact .inr (.inr (.inl hinterested))
    | true => exact .inr (.inl (by simp))
  | @collect events c hc =>
    have hreg : c.registered = s.conn.registered := registered_step (by simp) hc
    by_cases hin : contains events ReceiveEvents.kReadable = true
    · -- the event is on its way
      refine .inr (.inr (.inr (.inr (.inl (.inl ⟨events, ?_, read_mem_handleEvents hin⟩)))))
      obtain ⟨-, hmoves⟩ := TcpConnection.moves_of_step hc
      cases hmoves
      exact Option.mem_some_self _
    · exact hs.congr hreg id (by simp [hin])
        fun hflight => readInFlight_step hflight (by simp [current]) hc
  | @other l c hl hc =>
    refine hs.congr (registered_step hl hc) id id fun hflight => readInFlight_step hflight ?_ hc
    cases l <;> simp_all [current]
  | @act w env env' a rest c received hw hreceived hc =>
    have hcur : ∀ e, current (.act w e) s.conn = some a := fun e => current_of_stack hw
    obtain ⟨hreg, hdue⟩ := registered_of_act hw hc
    by_cases hread : a = .handleRead
    · subst hread
      rw [if_pos rfl] at hreceived
      -- one of the reasons for which the rest is not forgotten
      rcases hg (hcur env) with hle | hready | hedge | hstill
      · refine .inl (hreceived.trans ?_)
        exact List.drop_eq_nil_of_le hle
      · exact .inr (.inl (by simp [hready]))
      · refine .inr (.inr (.inr (.inl ?_)))
        unfold edge at hedge ⊢
        rwa [show c.registered = s.conn.registered from hreg]
      · exact .inr (.inr (.inr (.inr (.inl (hdue hstill)))))
    · rw [if_neg hread] at hreceived
      -- an `epoll_ctl` that succeeds makes the queued bytes an event again
      have hkeep : c.registered = s.conn.registered → Covered { s with
          conn := c
          received := received
          ready := s.ready || (ctl s.conn a && interested c && received ≠ []) } := fun heq =>
        hs.congr heq (fun h => hreceived.trans h) (fun h => by simp [h])
          fun hflight => readInFlight_step hflight (by rw [hcur]; simpa using hread) hc
      cases a with
      | addChannel =>
        cases hr : s.conn.registered with
        | none => exact covered_of_ctl (s := s) (by simp [ctl, hr])
        | some m => exact hkeep (by rw [hreg, hr]; rfl)
      | update events =>
        cases hr : s.conn.registered with
        | none => exact hkeep (by rw [hreg, hr]; rfl)
        | some m => exact covered_of_ctl (s := s) (by simp [ctl, hr])
      | _ => exact hkeep hreg

/-! ### Main theorem -/

omit [DecidableEq T] in
theorem drained_of_covered (hinv : s.Inv) (hs : s.Covered) : s.Drained := by
  intro hfatal hstate hstack hcollected hqueue hpending
  have hevents : contains s.conn.events_ ReceiveEvents.kReadable = true := by
    rcases hinv.reading.connected hstate with h | h
    · exact h
    · simp [hstack] at h
  have hinterest : s.conn.interest = s.conn.events_ :=
    (nextInterest_eq (by simp [hstack])).symm.trans (hinv.synced hfatal)
  have hinterested : interested s.conn = true := by
    rw [← hinterest, TcpConnection.interest] at hevents
    unfold interested
    cases hr : s.conn.registered with
    | none => rw [hr] at hevents; exact absurd hevents (by decide)
    | some m => simpa [hr] using hevents
  have hidle : ¬ s.conn.ReadInFlight := by
    rintro ((⟨events, hmem, -⟩ | ⟨task, hmem, hreads⟩) | hmem)
    · simp [hcollected] at hmem
    · cases task with
      | handleEvents events => exact hqueue events hmem
      | _ => cases hreads
    · simp [hstack] at hmem
  rcases hs with hs | hs | hs | hs | hs
  · exact hs
  · simpa [pending, hinterested, hs] using hpending
  · simp [hinterested] at hs
  · simpa [pending, hinterested, hs] using hpending
  · exact absurd hs hidle

end Step

/-- **No byte is left behind**: on a connection that is connected, if every read takes all there is
or leaves another event due, nothing is left in the receive queue without an event to come. -/
theorem drained_of_readsOut (addr : Nat) (cells : Nat → UInt8) (ls : List (ReceiverLabel T))
    (h : (tcpReceiver T).AllSteps ReadsOut ls (start addr cells)) :
    (tcpReceiver T).AllStates Drained ls (start addr cells) :=
  h.allStates (I := fun s => (tcpReceiver T).Reachable s ∧ s.Covered)
    (fun _ _ _ hs hg ht => ⟨.step hs.1 trivial ht, covered_step hs.2 hg ht⟩)
    (fun _ hs => drained_of_covered (inv_of_reachable hs.1) hs.2)
    ⟨.init ⟨addr, cells, rfl⟩, .inl rfl⟩

instance (c : TcpConnection T) : Decidable c.ReadDue :=
  inferInstanceAs (Decidable (_ ∨ _))

instance (l : ReceiverLabel T) (s : TcpReceiver T) : Decidable (ReadsOut l s) :=
  match l with
  | .conn _ => inferInstanceAs (Decidable (_ → _))
  | .arrive _ => isTrue trivial

/-- The connection starts, bytes arrive, and their one event is handled. -/
def oneArrival (bytes : List UInt8) : List (ReceiverLabel Unit) :=
  (runTask 5).map .conn ++ .arrive bytes :: ([TcpLabel.collect EPOLLIN, .dispatch] ++ runTask 2).map .conn

/-- The state it leads to; what one read leaves behind is still queued. -/
theorem run_oneArrival (b : UInt8) (l : List UInt8) : ∃ t,
    (tcpReceiver Unit).run (oneArrival (b :: l)) (start 0 fun _ => 0) = some t ∧
      t.conn.fatal = none ∧ t.conn.state_ = .kConnected ∧ t.conn.stack none = [] ∧
      t.conn.collected = none ∧ t.conn.queue = [] ∧ t.pending = false ∧
      t.received = (b :: l).drop kTcpRwUnit :=
  ⟨_, rfl, rfl, rfl, rfl, rfl, rfl, rfl, rfl⟩

/-- One read takes the byte that has arrived. -/
theorem drained_oneByte :
    (tcpReceiver Unit).AllStates Drained (oneArrival [7]) (start 0 fun _ => 0) :=
  drained_of_readsOut 0 _ _ (by decide +kernel)

/-- One byte more than one read takes stays in the receive queue. -/
theorem largeArrival_not_drained : ¬ (tcpReceiver Unit).AllStates Drained
    (oneArrival (List.replicate 16385 0)) (start 0 fun _ => 0) := by
  intro h
  obtain ⟨t, ht, hfatal, hstate, hstack, hcollected, hqueue, hpending, hreceived⟩ :=
    run_oneArrival 0 (List.replicate 16384 0)
  rw [← List.replicate_succ] at ht hreceived
  have hempty := h.last ht hfatal hstate hstack hcollected (by simp [hqueue]) hpending
  have hlength := congrArg List.length (hreceived.symm.trans hempty)
  rw [List.length_drop, List.length_replicate] at hlength
  exact absurd hlength (by decide)

end TcpReceiver

end Lizlib
