import Lizlib.Net.Equiv.Close
import Lizlib.Net.TcpInput

/-!
# A hang-up

`HandleEvents` closes a connection that has hung up only where the mask has no `EPOLLIN`; where it
has, the read is to find the end of the stream.  `hungUp_iff` says when neither happens: the read
fails, and the connection stays half-open unless the handler closes it.
-/

namespace Lizlib

variable {T : Type*}

/-- The act neither removes the connection, nor delivers bytes, nor leads to an act that does;
`ForceClose` aside. -/
def TcpAct.plain : TcpAct T → Bool
  | .submit .handleRemove | .storeDisconnected | .handleRead | .handleClose | .callback (.onRead _) =>
    false
  | _ => true

namespace TcpConnection

/-- Between `s` and `t` the hang-up has been dealt with: the connection is disconnected and
`handleRemove` submitted, or `OnRead` has been given bytes. -/
def HungUp (s t : TcpConnection T) : Prop :=
  t.state_ = .kDisconnected ∧ .handleRemove ∈ t.queue.drop s.queue.length ∨
    ∃ x ∈ t.delivered.drop s.delivered.length, x.1.handed ≠ []

/-- The read callback runs, and its read returns bytes or the end of the stream. -/
def ReadReturns (events : EventMask) (envs : List TcpEnv) : Prop :=
  .read ∈ SocketChannel.handleEvents events ∧ ∃ env ∈ envs.head?, ∃ l, env.read = .data l

/-- A `ForceClose` that finds the connection open. -/
def ForceCloses (l : TcpLabel T) (s : TcpConnection T) : Prop :=
  current l s = some (.call .forceClose) ∧ s.state_ ≠ .kDisconnected

/-- A `Close` that finds the connection connected. -/
def Closes (l : TcpLabel T) (s : TcpConnection T) : Prop :=
  current l s = some (.call .close) ∧ s.state_ = .kConnected

/-! ### The loop's own thread -/

/-- `t` is what an act of the loop's own thread makes of `s`: `a` is executed, and followed by
`new`. -/
structure Executes (s : TcpConnection T) (env : TcpEnv) (a : TcpAct T) (new rest : List (TcpAct T))
    (t : TcpConnection T) : Prop where
  head : s.stack none = a :: rest
  next : Next s none env a new
  stack : t.stack none = new ++ rest
  state_ : t.state_ = a.stores s.state_
  queue : t.queue = s.queue ++ a.submits
  delivered : t.delivered = s.delivered ++ a.delivers s.conn_

variable [DecidableEq T] {s t u : TcpConnection T} {env : TcpEnv} {envs : List TcpEnv}
  {a : TcpAct T} {new rest : List (TcpAct T)}

theorem executes_of_step (h : step (.act none env) s = some t) :
    ∃ a rest, Executes s env a (s.act none env a).2 rest t := by
  obtain ⟨-, hmoves⟩ := moves_of_step h
  cases hmoves with
  | @act _ _ a rest hw =>
    have heff := act_effect s none env a
    refine ⟨a, rest, hw, act_next s none env a, ?_, heff.state_, heff.queue, heff.delivered⟩
    exact Function.update_self none _ s.stack

/-- A run of the loop's own thread, from its first act on. -/
theorem executes_of_run (h : (tcpConnection T).run ((env :: envs).map (.act none)) s = some t) :
    ∃ u a rest, step (.act none env) s = some u ∧ Executes s env a (s.act none env a).2 rest u ∧
      (tcpConnection T).run (envs.map (.act none)) u = some t := by
  obtain ⟨u, hu, hrun⟩ := Option.bind_eq_some_iff.mp h
  obtain ⟨a, rest, hex⟩ := executes_of_step hu
  exact ⟨u, a, rest, hu, hex, hrun⟩

/-- A run that ends with the stack empty begins with the first act on it. -/
theorem executes_of_stack (hstack : s.stack none = a :: rest)
    (h : (tcpConnection T).run (envs.map (.act none)) s = some t) (hdone : t.stack none = []) :
    ∃ env envs' u, envs = env :: envs' ∧ step (.act none env) s = some u ∧
      Executes s env a (s.act none env a).2 rest u ∧
      (tcpConnection T).run (envs'.map (.act none)) u = some t := by
  cases envs with
  | nil =>
    obtain rfl := Option.some.inj h
    simp [hdone] at hstack
  | cons env envs =>
    obtain ⟨u, b, rest', hu, hex, hrun⟩ := executes_of_run h
    obtain ⟨rfl, rfl⟩ := List.cons.inj (hex.head.symm.trans hstack)
    exact ⟨env, envs, u, rfl, hu, hex, hrun⟩

/-- By the time its stack is empty, the loop's own thread has executed all that was on it. -/
theorem all_executed (h : (tcpConnection T).run (envs.map (.act none)) s = some t)
    (hdone : t.stack none = []) :
    ∃ q d, t.queue = s.queue ++ q ∧ t.delivered = s.delivered ++ d ∧
      ∀ a ∈ s.stack none, a.submits ⊆ q ∧ ∃ conn, a.delivers conn ⊆ d := by
  induction envs generalizing s with
  | nil =>
    obtain rfl := Option.some.inj h
    exact ⟨[], [], (List.append_nil _).symm, (List.append_nil _).symm, by simp [hdone]⟩
  | cons env envs ih =>
    obtain ⟨u, a, rest, -, hex, hrun⟩ := executes_of_run h
    obtain ⟨q, d, hq, hd, hall⟩ := ih hrun
    refine ⟨a.submits ++ q, a.delivers s.conn_ ++ d, ?_, ?_, ?_⟩
    · rw [hq, hex.queue, List.append_assoc]
    · rw [hd, hex.delivered, List.append_assoc]
    intro b hb
    rw [hex.head, List.mem_cons] at hb
    rcases hb with rfl | hb
    · exact ⟨List.subset_append_left _ _, _, List.subset_append_left _ _⟩
    · obtain ⟨hsub, conn, hdel⟩ := hall b (hex.stack ▸ List.mem_append_right _ hb)
      exact ⟨List.subset_append_of_subset_right _ hsub, conn,
        List.subset_append_of_subset_right _ hdel⟩

omit [DecidableEq T] in
theorem hungUp_of_grown {q : List (TcpTask T)} {d : List (Callback × Bool)}
    (hq : t.queue = s.queue ++ q) (hd : t.delivered = s.delivered ++ d) :
    HungUp s t ↔ t.state_ = .kDisconnected ∧ .handleRemove ∈ q ∨ ∃ x ∈ d, x.1.handed ≠ [] := by
  unfold HungUp
  rw [hq, hd, List.drop_left, List.drop_left]

/-- An act that submits no `handleRemove` and delivers no bytes leaves it to the rest of the run. -/
theorem hungUp_congr (hex : Executes s env a new rest u) (hsub : .handleRemove ∉ a.submits)
    (hdel : ∀ x ∈ a.delivers s.conn_, x.1.handed = [])
    (h : (tcpConnection T).run (envs.map (.act none)) u = some t) (hdone : t.stack none = []) :
    HungUp s t ↔ HungUp u t := by
  obtain ⟨q, d, hq, hd, -⟩ := all_executed h hdone
  have hqs : t.queue = s.queue ++ (a.submits ++ q) := by
    rw [hq, hex.queue, List.append_assoc]
  have hds : t.delivered = s.delivered ++ (a.delivers s.conn_ ++ d) := by
    rw [hd, hex.delivered, List.append_assoc]
  rw [hungUp_of_grown hq hd, hungUp_of_grown hqs hds]
  have hx : (∃ x ∈ a.delivers s.conn_ ++ d, x.1.handed ≠ []) ↔ ∃ x ∈ d, x.1.handed ≠ [] := by
    constructor
    · rintro ⟨x, hx, hne⟩
      rcases List.mem_append.mp hx with hx | hx
      · exact absurd (hdel x hx) hne
      · exact ⟨x, hx, hne⟩
    · rintro ⟨x, hx, hne⟩
      exact ⟨x, List.mem_append_right _ hx, hne⟩
  rw [hx, List.mem_append, or_iff_right hsub]

/-! ### Disconnected -/

omit [DecidableEq T] in
/-- The connection is disconnected, and the loop's own thread does not take that back. -/
structure Final (s : TcpConnection T) : Prop where
  state_ : s.state_ = .kDisconnected
  stack : .storeDisconnecting ∉ s.stack none

omit [DecidableEq T] in
theorem Next.storeDisconnecting_mem {w : Option T} (h : Next s w env a new)
    (hmem : .storeDisconnecting ∈ new) : a = .call .forceShutdown ∧ s.state_ ≠ .kDisconnected := by
  cases h with
  | forceShutdown hs => exact ⟨rfl, hs⟩
  | _ => simp at hmem

theorem final_step (hs : Final s) (h : step (.act none env) s = some t) : Final t := by
  obtain ⟨a, rest, hex⟩ := executes_of_step h
  have hmem := hs.stack
  rw [hex.head, List.mem_cons, not_or] at hmem
  constructor
  · rw [hex.state_, hs.state_]
    exact stores_kDisconnected (Ne.symm hmem.1)
  · rw [hex.stack, List.mem_append, not_or]
    exact ⟨fun hnew => (hex.next.storeDisconnecting_mem hnew).2 hs.state_, hmem.2⟩

/-- A label of the loop's own thread. -/
def OnLoop : TcpLabel T → Prop
  | .act w _ => w = none
  | _ => False

omit [DecidableEq T] in
theorem onLoop_of_mem : ∀ l ∈ envs.map (TcpLabel.act (none : Option T)), OnLoop l := by
  intro l hl
  obtain ⟨env, -, rfl⟩ := List.mem_map.mp hl
  rfl

theorem final_of_onLoop (l : TcpLabel T) (s t : TcpConnection T) (hs : Final s) (hl : OnLoop l)
    (h : (tcpConnection T).step l s = some t) : Final t := by
  cases l with
  | act w env =>
    obtain rfl : w = none := hl
    exact final_step hs h
  | _ => exact hl.elim

theorem final_run (hs : Final s) (h : (tcpConnection T).run (envs.map (.act none)) s = some t) :
    Final t :=
  ((System.AllSteps.of_labels onLoop_of_mem s).allStates final_of_onLoop (fun _ => id) hs).last h

/-- Neither `Close` nor `ForceClose` does anything once the connection is disconnected. -/
theorem Final.not_closes (hs : Final s) :
    ¬ (tcpConnection T).SomeStep Closes (envs.map (.act none)) s := by
  refine System.not_someStep final_of_onLoop (fun l s hs hc => ?_) onLoop_of_mem hs
  have hstate := hc.2
  rw [hs.state_] at hstate
  cases hstate

/-- Once `state_ = kDisconnected` is next, the connection is removed. -/
theorem hungUp_of_storeDisconnected (hstack : s.stack none = .storeDisconnected :: rest)
    (hrest : .storeDisconnecting ∉ rest)
    (h : (tcpConnection T).run (envs.map (.act none)) s = some t) (hdone : t.stack none = []) :
    HungUp s t ∧ ¬ (tcpConnection T).SomeStep Closes (envs.map (.act none)) s := by
  obtain ⟨env, envs, u, rfl, hu, hex, hrun⟩ := executes_of_stack hstack h hdone
  have hstacku : u.stack none = .submit .handleRemove :: rest := hex.stack
  have hfinal : Final u := by
    refine ⟨hex.state_, ?_⟩
    rw [hstacku]
    simpa using hrest
  have hcurrent : current (.act none env) s = some .storeDisconnected := current_of_stack hstack
  constructor
  · obtain ⟨q, d, hq, hd, hall⟩ := all_executed hrun hdone
    have hmem : .handleRemove ∈ q :=
      (hall _ (hstacku ▸ List.mem_cons_self)).1 (List.mem_singleton_self _)
    apply (hungUp_congr hex (by simp [TcpAct.submits]) (by simp [TcpAct.delivers]) hrun hdone).mpr
    exact (hungUp_of_grown hq hd).mpr (.inl ⟨(final_run hfinal hrun).state_, hmem⟩)
  · rw [List.map_cons, System.someStep_cons hu, not_or]
    exact ⟨by simp [Closes, hcurrent], hfinal.not_closes⟩

/-- A `handleClose` or a `ForceClose` that finds the connection open removes it. -/
theorem hungUp_of_removes (hstack : s.stack none = a :: rest)
    (ha : a = .handleClose ∨ a = .call .forceClose) (hs : s.state_ ≠ .kDisconnected)
    (hrest : .storeDisconnecting ∉ rest)
    (h : (tcpConnection T).run (envs.map (.act none)) s = some t) (hdone : t.stack none = []) :
    HungUp s t ∧ ¬ (tcpConnection T).SomeStep Closes (envs.map (.act none)) s := by
  obtain ⟨env, envs, u, rfl, hu, hex, hrun⟩ := executes_of_stack hstack h hdone
  have hcurrent : current (.act none env) s = some a := current_of_stack hstack
  have hstacku : u.stack none = .storeDisconnected :: rest := by
    rw [hex.stack]
    rcases ha with rfl | rfl <;> simp [act, call, hs]
  have hcloses : ¬ Closes (.act none env) s := by
    rw [Closes, hcurrent]
    rcases ha with rfl | rfl <;> simp
  obtain ⟨hup, hnot⟩ := hungUp_of_storeDisconnected hstacku hrest hrun hdone
  constructor
  · apply (hungUp_congr hex ?_ ?_ hrun hdone).mpr hup
    · rcases ha with rfl | rfl <;> simp [TcpAct.submits]
    · rcases ha with rfl | rfl <;> simp [TcpAct.delivers]
  · rw [List.map_cons, System.someStep_cons hu, not_or]
    exact ⟨hcloses, hnot⟩

/-! ### After the read -/

omit [DecidableEq T] in
/-- The loop's own thread has only `handleClose` and the calls of the handler left that may close
the connection. -/
structure Plain (s : TcpConnection T) : Prop where
  stack : ∀ a ∈ s.stack none, a.plain = true ∨ a = .handleClose
  tail : .storeDisconnecting ∉ (s.stack none).tail
  disconnected : s.state_ = .kDisconnected → .storeDisconnecting ∉ s.stack none

omit [DecidableEq T] in
theorem Next.plain {w : Option T} (h : Next s w env a new) (ha : a.plain = true ∨ a = .handleClose)
    (hs : s.state_ ≠ .kDisconnected → a ≠ .handleClose ∧ a ≠ .call .forceClose) :
    ∀ b ∈ new, b.plain = true := by
  cases h with
  | callback =>
    intro b hb
    obtain ⟨api, -, rfl⟩ := List.mem_map.mp hb
    rfl
  | handleClose hne => exact absurd rfl (hs hne).1
  | forceClose hne => exact absurd rfl (hs hne).2
  | storeDisconnected | readFailed | readEnd | readData => simp [TcpAct.plain] at ha
  | _ => simp [TcpAct.plain]

omit [DecidableEq T] in
theorem Next.storeDisconnecting_not_mem_tail {w : Option T} (h : Next s w env a new) :
    .storeDisconnecting ∉ new.tail := by
  cases h with
  | callback =>
    intro hb
    obtain ⟨api, -, heq⟩ := List.mem_map.mp (List.mem_of_mem_tail hb)
    cases heq
  | _ => simp

omit [DecidableEq T] in
theorem plain_step (hs : Plain s) (hex : Executes s env a new rest u)
    (hopen : s.state_ ≠ .kDisconnected → a ≠ .handleClose ∧ a ≠ .call .forceClose) : Plain u := by
  have hrest : .storeDisconnecting ∉ rest := by simpa [hex.head] using hs.tail
  constructor
  · intro b hb
    rw [hex.stack, List.mem_append] at hb
    rcases hb with hb | hb
    · exact .inl (hex.next.plain (hs.stack a (hex.head ▸ List.mem_cons_self)) hopen b hb)
    · exact hs.stack b (hex.head ▸ List.mem_cons_of_mem a hb)
  · rw [hex.stack]
    have htail := hex.next.storeDisconnecting_not_mem_tail
    cases new with
    | nil => exact fun hmem => hrest (List.mem_of_mem_tail hmem)
    | cons b new => simpa [hrest] using htail
  · intro hstate
    rw [hex.stack, List.mem_append, not_or]
    refine ⟨fun hmem => ?_, hrest⟩
    obtain ⟨rfl, hne⟩ := hex.next.storeDisconnecting_mem hmem
    exact hne (hex.state_.symm.trans hstate)

omit [DecidableEq T] in
/-- What disconnects an open connection, besides `handleClose` and `ForceClose`. -/
theorem stores_eq_kDisconnected {state : TcpState} (ha : a.plain = true)
    (hs : state ≠ .kDisconnected) :
    a.stores state = .kDisconnected ↔ a = .call .close ∧ state = .kConnected := by
  cases a with
  | call api =>
    cases api with
    | close | shutdown =>
      simp only [TcpAct.stores]
      split_ifs with hconn <;> simp [hs, hconn]
    | _ => simp [TcpAct.stores, hs]
  | storeDisconnected => cases ha
  | connect =>
    simp only [TcpAct.stores]
    split_ifs <;> simp [hs]
  | _ => simp [TcpAct.stores, hs]

omit [DecidableEq T] in
theorem plain_submits (ha : a.plain = true ∨ a = .handleClose) : .handleRemove ∉ a.submits := by
  rcases ha with ha | rfl
  · intro hmem
    obtain rfl := mem_submits hmem
    cases ha
  · simp [TcpAct.submits]

omit [DecidableEq T] in
theorem plain_delivers {conn : Bool} (ha : a.plain = true ∨ a = .handleClose) :
    ∀ x ∈ a.delivers conn, x.1.handed = [] := by
  rcases ha with ha | rfl
  · cases a with
    | callback cb =>
      intro x hx
      obtain rfl := List.mem_singleton.mp hx
      cases cb with
      | onRead => cases ha
      | _ => rfl
    | _ => simp [TcpAct.delivers]
  · simp [TcpAct.delivers]

/-- After the read, a hang-up is dealt with by a `ForceClose`, or by the close callback, unless a
`Close` comes before it. -/
theorem hungUp_of_plain (hs : Plain s)
    (h : (tcpConnection T).run (envs.map (.act none)) s = some t) (hdone : t.stack none = []) :
    HungUp s t ↔ (tcpConnection T).SomeStep ForceCloses (envs.map (.act none)) s ∨
      (.handleClose ∈ s.stack none ∧ s.state_ ≠ .kDisconnected) ∧
        ¬ (tcpConnection T).SomeStep Closes (envs.map (.act none)) s := by
  induction envs generalizing s with
  | nil =>
    obtain rfl := Option.some.inj h
    simp [HungUp, System.SomeStep, hdone]
  | cons env envs ih =>
    obtain ⟨u, a, rest, hu, hex, hrun⟩ := executes_of_run h
    have ha : a.plain = true ∨ a = .handleClose := hs.stack a (hex.head ▸ List.mem_cons_self)
    have hcurrent : current (.act none env) s = some a := current_of_stack hex.head
    by_cases hremoves : (a = .handleClose ∨ a = .call .forceClose) ∧ s.state_ ≠ .kDisconnected
    · obtain ⟨hhead, hopen⟩ := hremoves
      have hrest : .storeDisconnecting ∉ rest := by simpa [hex.head] using hs.tail
      obtain ⟨hup, hnot⟩ := hungUp_of_removes hex.head hhead hopen hrest h hdone
      refine iff_of_true hup ?_
      rcases hhead with rfl | rfl
      · exact .inr ⟨⟨hex.head ▸ List.mem_cons_self, hopen⟩, hnot⟩
      · exact .inl ⟨u, hu, .inl ⟨hcurrent, hopen⟩⟩
    · have hopen : s.state_ ≠ .kDisconnected → a ≠ .handleClose ∧ a ≠ .call .forceClose := by
        intro hne
        exact not_or.mp fun hhead => hremoves ⟨hhead, hne⟩
      have hforce : ¬ ForceCloses (.act none env) s := by
        rintro ⟨hc, hne⟩
        exact (hopen hne).2 (Option.some.inj (hcurrent.symm.trans hc))
      rw [hungUp_congr hex (plain_submits ha) (plain_delivers ha) hrun hdone,
        ih (plain_step hs hex hopen) hrun, List.map_cons, System.someStep_cons hu,
        System.someStep_cons hu, or_iff_right hforce]
      apply or_congr_right
      by_cases hstate : s.state_ = .kDisconnected
      -- what is disconnected stays so
      · have hne : a ≠ .storeDisconnecting := by
          rintro rfl
          exact hs.disconnected hstate (hex.head ▸ List.mem_cons_self)
        have hstateu : u.state_ = .kDisconnected := by
          rw [hex.state_, hstate, stores_kDisconnected hne]
        simp [hstate, hstateu]
      · obtain ⟨hclose, hfc⟩ := hopen hstate
        have hplain : a.plain = true := ha.resolve_right hclose
        have hmem : .handleClose ∈ u.stack none ↔ .handleClose ∈ s.stack none := by
          rw [hex.stack, hex.head, List.mem_append, List.mem_cons, or_iff_right, or_iff_right]
          · exact Ne.symm hclose
          · intro hnew
            cases hex.next.plain ha hopen _ hnew
        have hcloses : Closes (.act none env) s ↔ u.state_ = .kDisconnected := by
          rw [hex.state_, stores_eq_kDisconnected hplain hstate, Closes, hcurrent,
            Option.some.injEq]
        rw [hmem, hcloses, not_or]
        tauto

/-! ### The acts of `HandleEvents` -/

omit [DecidableEq T] in
/-- The read comes first, if it comes at all. -/
theorem acts_of_read {events : EventMask} (h : .read ∈ SocketChannel.handleEvents events) :
    ∃ rest, (TcpTask.handleEvents events : TcpTask T).acts = .handleRead :: rest ∧
      .handleRead ∉ rest := by
  have hcons : ∃ l, SocketChannel.handleEvents events = .read :: l ∧ .read ∉ l := by
    unfold SocketChannel.handleEvents at h ⊢
    split_ifs at h ⊢ <;> simp_all
  obtain ⟨l, hl, hread⟩ := hcons
  refine ⟨_, by rw [TcpTask.acts, hl, List.map_cons], fun hmem => hread ?_⟩
  obtain ⟨handler, hhandler, heq⟩ := List.mem_map.mp hmem
  cases handler with
  | read => exact hhandler
  | _ => cases heq

omit [DecidableEq T] in
theorem read_of_mem_acts {events : EventMask}
    (h : .handleRead ∈ (TcpTask.handleEvents events : TcpTask T).acts) :
    .read ∈ SocketChannel.handleEvents events := by
  obtain ⟨handler, hmem, heq⟩ := List.mem_map.mp h
  cases handler with
  | read => exact hmem
  | _ => cases heq

omit [DecidableEq T] in
/-- The close callback runs on a hang-up without `EPOLLIN`. -/
theorem handleClose_mem_acts {events : EventMask}
    (hup : Events.contains events ReceiveEvents.kHangUp = true) :
    .handleClose ∈ (TcpTask.handleEvents events : TcpTask T).acts ↔
      Events.contains events ReceiveEvents.kReadable = false := by
  have hclose : .close ∈ SocketChannel.handleEvents events ↔
      Events.contains events ReceiveEvents.kReadable = false := by
    unfold SocketChannel.handleEvents
    simp only [List.mem_append, hup]
    split_ifs <;> simp_all
  rw [← hclose]
  constructor
  · intro hmem
    obtain ⟨handler, hhandler, heq⟩ := List.mem_map.mp hmem
    cases handler with
    | close => exact hhandler
    | _ => cases heq
  · exact fun hmem => List.mem_map_of_mem hmem

omit [DecidableEq T] in
/-- Without the read, or after it, only `handleClose` is left that may close the connection. -/
theorem plain_of_acts {events : EventMask} (hs : s.state_ ≠ .kDisconnected)
    (hstack : s.stack none = new ++ rest) (hnew : new.length ≤ 1)
    (hplain : ∀ b ∈ new, b.plain = true) (hrest : .handleRead ∉ rest)
    (hacts : ∀ b ∈ rest, b ∈ (TcpTask.handleEvents events : TcpTask T).acts) : Plain s := by
  have hkinds : ∀ b ∈ rest, b = .handleWrite ∨ b = .handleError ∨ b = .handleClose := by
    intro b hb
    apply (mem_acts_handleEvents (hacts b hb)).resolve_left
    rintro rfl
    exact hrest hb
  constructor
  · intro b hb
    rw [hstack, List.mem_append] at hb
    rcases hb with hb | hb
    · exact .inl (hplain b hb)
    · rcases hkinds b hb with rfl | rfl | rfl
      · exact .inl rfl
      · exact .inl rfl
      · exact .inr rfl
  · intro hmem
    have htail : .storeDisconnecting ∈ rest := by
      rw [hstack] at hmem
      match new, hnew with
      | [], _ => exact List.mem_of_mem_tail hmem
      | [b], _ => exact hmem
    rcases hkinds _ htail with heq | heq | heq <;> cases heq
  · exact fun hstate => absurd hstate hs

/-! ### Main theorem -/

/-- A read that returns bytes, or the end of the stream, deals with the hang-up. -/
theorem hungUp_of_data {l : List UInt8} (hs : s.state_ = .kConnected)
    (hstack : s.stack none = .handleRead :: rest) (hrest : .storeDisconnecting ∉ rest)
    (hread : env.read = .data l)
    (h : (tcpConnection T).run ((env :: envs).map (.act none)) s = some t)
    (hdone : t.stack none = []) : HungUp s t := by
  obtain ⟨env', envs', u, heq, -, hex, hrun⟩ := executes_of_stack hstack h hdone
  obtain ⟨rfl, rfl⟩ := List.cons.inj heq
  have hstate : u.state_ = .kConnected := hex.state_.trans hs
  apply (hungUp_congr hex (by simp [TcpAct.submits]) (by simp [TcpAct.delivers]) hrun hdone).mpr
  have hstacku := hex.stack
  cases l with
  | nil =>
    simp only [act, hread, List.singleton_append] at hstacku
    exact (hungUp_of_removes hstacku (.inl rfl) (by simp [hstate]) hrest hrun hdone).1
  | cons b l =>
    simp only [act, hread, List.singleton_append] at hstacku
    obtain ⟨q, d, hq, hd, hall⟩ := all_executed hrun hdone
    obtain ⟨-, conn, hdel⟩ := hall _ (hstacku ▸ List.mem_cons_self)
    have hmem : (.onRead (b :: l), conn) ∈ d := hdel (List.mem_singleton_self _)
    exact (hungUp_of_grown hq hd).mpr (.inr ⟨_, hmem, by simp [Callback.handed]⟩)

/-- A read that fails leaves it to what follows. -/
theorem hungUp_of_failed {events : EventMask} (hs : s.state_ = .kConnected)
    (hstack : s.stack none = .handleRead :: rest) (hrest : .handleRead ∉ rest)
    (hacts : ∀ b ∈ rest, b ∈ (TcpTask.handleEvents events : TcpTask T).acts)
    (hread : ∀ l, env.read ≠ .data l)
    (h : (tcpConnection T).run ((env :: envs).map (.act none)) s = some t)
    (hdone : t.stack none = []) :
    HungUp s t ↔ (tcpConnection T).SomeStep ForceCloses ((env :: envs).map (.act none)) s ∨
      .handleClose ∈ s.stack none ∧
        ¬ (tcpConnection T).SomeStep Closes ((env :: envs).map (.act none)) s := by
  obtain ⟨env', envs', u, heq, hu, hex, hrun⟩ := executes_of_stack hstack h hdone
  obtain ⟨rfl, rfl⟩ := List.cons.inj heq
  have hstate : u.state_ = .kConnected := hex.state_.trans hs
  have hcurrent : current (.act none env) s = some .handleRead := current_of_stack hstack
  have hforce : ¬ ForceCloses (.act none env) s := by simp [ForceCloses, hcurrent]
  have hcloses : ¬ Closes (.act none env) s := by simp [Closes, hcurrent]
  -- at most `OnError` is called before the other callbacks
  have hnew : (s.act none env .handleRead).2 = [] ∨ (s.act none env .handleRead).2 = [.handleError] := by
    cases hcase : env.read with
    | again => simp [act, hcase]
    | error => simp [act, hcase]
    | data l => exact absurd hcase (hread l)
  have hplain : Plain u := by
    apply plain_of_acts (by simp [hstate]) hex.stack _ _ hrest hacts
    · rcases hnew with hnew | hnew <;> simp [hnew]
    · rcases hnew with hnew | hnew <;> simp [hnew, TcpAct.plain]
  have hmem : .handleClose ∈ u.stack none ↔ .handleClose ∈ s.stack none := by
    rw [hex.stack, hstack]
    rcases hnew with hnew | hnew <;> simp [hnew]
  rw [hungUp_congr hex (by simp [TcpAct.submits]) (by simp [TcpAct.delivers]) hrun hdone,
    hungUp_of_plain hplain hrun hdone, List.map_cons, System.someStep_cons hu,
    System.someStep_cons hu, or_iff_right hforce, or_iff_right hcloses, hmem, hstate]
  simp

/-- **A hang-up**: `HandleEvents` leaves a connected connection whose mask has `EPOLLHUP`
disconnected and about to be removed, or delivers bytes, exactly when its read returns (bytes or the
end of the stream), the handler calls `ForceClose` on it, or the mask has no `EPOLLIN` and the
handler does not call `Close` before the close callback. -/
theorem hungUp_iff {events : EventMask} (hs : s.state_ = .kConnected)
    (hup : Events.contains events ReceiveEvents.kHangUp = true)
    (hstack : s.stack none = (TcpTask.handleEvents events).acts)
    (h : (tcpConnection T).run (envs.map (.act none)) s = some t) (hdone : t.stack none = []) :
    HungUp s t ↔ ReadReturns events envs ∨
      (tcpConnection T).SomeStep ForceCloses (envs.map (.act none)) s ∨
      Events.contains events ReceiveEvents.kReadable = false ∧
        ¬ (tcpConnection T).SomeStep Closes (envs.map (.act none)) s := by
  rw [← handleClose_mem_acts (T := T) hup, ← hstack]
  by_cases hread : .read ∈ SocketChannel.handleEvents events
  · obtain ⟨rest, hacts, hnot⟩ := acts_of_read (T := T) hread
    have hrest : ∀ b ∈ rest, b ∈ (TcpTask.handleEvents events : TcpTask T).acts := by
      intro b hb
      rw [hacts]
      exact List.mem_cons_of_mem _ hb
    rw [hacts] at hstack
    obtain ⟨env, envs, -, rfl, -⟩ := executes_of_stack hstack h hdone
    by_cases hdata : ∃ l, env.read = .data l
    · obtain ⟨l, hl⟩ := hdata
      have hstore : .storeDisconnecting ∉ rest := by
        intro hmem
        rcases mem_acts_handleEvents (hrest _ hmem) with heq | heq | heq | heq <;> cases heq
      exact iff_of_true (hungUp_of_data hs hstack hstore hl h hdone)
        (.inl ⟨hread, env, rfl, l, hl⟩)
    · have hreturns : ¬ ReadReturns events (env :: envs) := by
        rintro ⟨-, env', henv, hl⟩
        obtain rfl := Option.some.inj henv
        exact hdata hl
      rw [or_iff_right hreturns]
      exact hungUp_of_failed hs hstack hnot hrest (not_exists.mp hdata) h hdone
  · have hreturns : ¬ ReadReturns events envs := fun hreturns => hread hreturns.1
    have hplain : Plain s := by
      have hnil : s.stack none = [] ++ (TcpTask.handleEvents events).acts := hstack
      apply plain_of_acts (by simp [hs]) hnil (by simp) (by simp) _ fun _ => id
      exact fun hmem => hread (read_of_mem_acts hmem)
    rw [or_iff_right hreturns, hungUp_of_plain hplain h hdone]
    simp [hs]

instance (s t : TcpConnection T) : Decidable (HungUp s t) := inferInstanceAs (Decidable (_ ∨ _))

/-- A connection is started, its channel reports `events`, and the loop begins to handle them. -/
def reported (events : EventMask) : List (TcpLabel Unit) :=
  runTask 5 ++ [.collect events, .dispatch, .task]

/-- The connection before and after `HandleEvents(events)`, which ends after `n` acts. -/
def handled (events : EventMask) (env : TcpEnv) (n : Nat) :
    Option (TcpConnection Unit × TcpConnection Unit) := do
  let s ← (tcpConnection Unit).run (reported events) (start 0 fun _ => 0)
  let t ← (tcpConnection Unit).run ((List.replicate n env).map (.act none)) s
  return (s, t)

/-- What a concrete run shows. -/
theorem exists_handled (events : EventMask) (env : TcpEnv) (n : Nat)
    (p : TcpConnection Unit → TcpConnection Unit → Prop) [∀ s t, Decidable (p s t)]
    (h : (handled events env n).any fun x => decide (p x.1 x.2)) : ∃ s t : TcpConnection Unit,
      (tcpConnection Unit).Reachable s ∧
      (tcpConnection Unit).run ((List.replicate n env).map (.act none)) s = some t ∧ p s t := by
  obtain ⟨x, hx, hp⟩ := (Option.any_eq_true _ _).mp h
  obtain ⟨s, hs, hx⟩ := Option.bind_eq_some_iff.mp hx
  obtain ⟨t, ht, hx⟩ := Option.bind_eq_some_iff.mp hx
  obtain rfl := Option.some.inj hx
  exact ⟨s, t, System.reachable_of_run ⟨0, _, rfl⟩ hs, ht, of_decide_eq_true hp⟩

/-- The peer is gone and there is nothing to read. -/
theorem hungUp_iff_handled : ∃ s t : TcpConnection Unit, HungUp s t ∧
    (HungUp s t ↔ ReadReturns Events.EPOLLHUP (List.replicate 3 quiet) ∨
      (tcpConnection Unit).SomeStep ForceCloses ((List.replicate 3 quiet).map (.act none)) s ∨
      Events.contains Events.EPOLLHUP ReceiveEvents.kReadable = false ∧
        ¬ (tcpConnection Unit).SomeStep Closes ((List.replicate 3 quiet).map (.act none)) s) := by
  obtain ⟨s, t, -, hrun, hstate, hstack, hdone, hup⟩ :=
    exists_handled Events.EPOLLHUP quiet 3
      (fun s t => s.state_ = .kConnected ∧
        s.stack none = (TcpTask.handleEvents Events.EPOLLHUP).acts ∧ t.stack none = [] ∧
        HungUp s t) (by decide +kernel)
  exact ⟨s, t, hup, hungUp_iff hstate (by decide) hstack hrun hdone⟩

/-- The peer has reset the connection: the mask has `EPOLLIN`, and the read fails. -/
def reset : EventMask := Events.EPOLLIN ||| Events.EPOLLERR ||| Events.EPOLLHUP

/-- The connection stays connected. -/
theorem reset_not_hungUp : ∃ s t : TcpConnection Unit, (tcpConnection Unit).Reachable s ∧
    (tcpConnection Unit).run
      ((List.replicate 5 { quiet with read := .error }).map (.act none)) s = some t ∧
    s.state_ = .kConnected ∧ s.stack none = (TcpTask.handleEvents reset).acts ∧
    t.stack none = [] ∧ t.state_ = .kConnected ∧ ¬ HungUp s t :=
  exists_handled reset _ _ _ (by decide +kernel)

end TcpConnection

end Lizlib
