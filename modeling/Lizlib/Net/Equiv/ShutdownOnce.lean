import Mathlib.Data.Fintype.Option
import Lizlib.Net.Equiv.PendingOutput

/-!
# One shutdown, as asked

Both the task of `Shutdown` and the end of `handleWrite` call `channel_->Shutdown`, and only the task
knows the argument.  `shutdown_once`: the channel is shut down at most once, as asked and with
`output_` empty, if `handleWrite` only comes to it after the task, for an argument `false`, and finds
`output_` still empty after `OnWriteComplete`.
-/

namespace Lizlib

variable {T : Type*}

/-- The argument of a `channel_->Shutdown` the task is to call. -/
def TcpTask.asks : TcpTask T → List Bool
  | .shutdown close_read => [close_read]
  | _ => []

/-- The argument of a `channel_->Shutdown` the act leads to. -/
def TcpAct.asks : TcpAct T → List Bool
  | .submit task => task.asks
  | .shutdownTask close_read | .channelShutdown close_read => [close_read]
  | _ => []

/-- The act may lead the loop's own thread to a `channel_->Shutdown`. -/
def TcpAct.ends : TcpAct T → Bool
  | .handleWrite | .checkDisconnecting | .shutdownTask _ => true
  | _ => false

namespace TcpConnection

/-- The task of `Shutdown` has yet to run. -/
def ShutdownQueued (s : TcpConnection T) : Prop :=
  ∃ close_read, .shutdown close_read ∈ s.queue ∨
    ∃ w, .submit (.shutdown close_read) ∈ s.stack w

/-- A `Shutdown` that changes `state_` has the argument `close_read`. -/
def Asks (close_read : Bool) (l : TcpLabel T) (s : TcpConnection T) : Prop :=
  ∀ c, current l s = some (.call (.shutdown c)) → s.state_ = .kConnected → c = close_read

/-- Where `handleWrite` finds `kDisconnecting`, the argument was `false`, the task of `Shutdown` has
run, and `output_` is empty. -/
def DrainsLast (close_read : Bool) (l : TcpLabel T) (s : TcpConnection T) : Prop :=
  current l s = some .checkDisconnecting → s.state_ = .kDisconnecting →
    close_read = false ∧ ¬ s.ShutdownQueued ∧ s.output_.readableBytes = 0

/-- `channel_->Shutdown` is called with the argument `close_read`, for the first time, and while
`output_` is empty. -/
def AsAsked (close_read : Bool) (l : TcpLabel T) (s : TcpConnection T) : Prop :=
  ∀ c, current l s = some (.channelShutdown c) →
    c = close_read ∧ s.shutdowns = [] ∧ s.output_.readableBytes = 0

/-! ### What leads to a shutdown -/

theorem asks_acts {task : TcpTask T} (h : task ≠ .forceShutdown) :
    task.acts.flatMap TcpAct.asks = task.asks := by
  cases task with
  | handleEvents events =>
    apply List.flatMap_eq_nil_iff.mpr
    intro a ha
    rcases mem_acts_handleEvents ha with rfl | rfl | rfl | rfl <;> rfl
  | forceShutdown => exact absurd rfl h
  | _ => rfl

theorem asks_of_not_shutsDown {a : TcpAct T} (ha : a.shutsDown = false) : a.asks = [] := by
  cases a with
  | submit task => cases task <;> first | rfl | cases ha
  | shutdownTask | channelShutdown => cases ha
  | _ => rfl

section Next

variable {s : TcpConnection T} {w : Option T} {env : TcpEnv} {a : TcpAct T} {new : List (TcpAct T)}

/-- What an act leads to it led to before, or it is the `Shutdown` that changes `state_`, or the end
of a `handleWrite` after that. -/
theorem Next.asks (h : Next s w env a new) (hf : a.forces = false) :
    (new.flatMap TcpAct.asks ++ a.submits.flatMap TcpTask.asks ++ a.shuts).Sublist a.asks ∨
      (∃ c, a = .call (.shutdown c) ∧ s.state_ = .kConnected ∧ new = [.submit (.shutdown c)]) ∨
      a = .checkDisconnecting ∧ s.state_ = .kDisconnecting ∧ new = [.channelShutdown false] := by
  cases h with
  | shutdown hs => exact .inr (.inl ⟨_, rfl, hs, rfl⟩)
  | checkDisconnecting hs => exact .inr (.inr ⟨rfl, hs, rfl⟩)
  | storeDisconnecting => cases hf
  | callback =>
    have hnil : (env.calls.map TcpAct.call).flatMap (TcpAct.asks (T := T)) = [] := by
      apply List.flatMap_eq_nil_iff.mpr
      intro b hb
      obtain ⟨api, -, rfl⟩ := List.mem_map.mp hb
      rfl
    left
    rw [hnil]
    exact List.nil_sublist _
  | nil =>
    left
    cases a with
    | submit task => simp [TcpAct.submits, TcpAct.shuts, TcpAct.asks]
    | channelShutdown c => simp [TcpAct.submits, TcpAct.shuts, TcpAct.asks]
    | _ => exact List.nil_sublist _
  | shutdownTask => exact .inl (List.Sublist.refl _)
  | _ => exact .inl (List.nil_sublist _)

/-- At most one act of those that may lead to a shutdown takes the place of another. -/
theorem Next.ends (h : Next s w env a new) :
    new.countP TcpAct.ends ≤ [a].countP TcpAct.ends := by
  cases h with
  | callback =>
    have hzero : (env.calls.map TcpAct.call).countP (TcpAct.ends (T := T)) = 0 := by
      apply List.countP_eq_zero.mpr
      intro b hb
      obtain ⟨api, -, rfl⟩ := List.mem_map.mp hb
      simp [TcpAct.ends]
    rw [hzero]
    exact Nat.zero_le _
  | _ => simp [List.countP_cons, TcpAct.ends]

theorem Next.append_mem {p : Payload T} (h : Next s w env a new) (hmem : .append p ∈ new) :
    s.state_ = .kConnected := by
  cases h with
  | handleSend hs => exact hs
  | _ => simp at hmem

theorem Next.channelShutdown_mem {c : Bool} (h : Next s w env a new)
    (hmem : .channelShutdown c ∈ new) :
    a = .checkDisconnecting ∧ s.state_ = .kDisconnecting ∨
      ∃ c', a = .shutdownTask c' ∧ s.output_.readableBytes = 0 := by
  cases h with
  | checkDisconnecting hs => exact .inl ⟨rfl, hs⟩
  | shutdownTask hz => exact .inr ⟨_, rfl, hz⟩
  | _ => simp at hmem

end Next

theorem ends_acts (task : TcpTask T) : task.acts.countP TcpAct.ends ≤ 1 := by
  cases task with
  | handleEvents events =>
    show ((SocketChannel.handleEvents events).map _).countP _ ≤ 1
    unfold SocketChannel.handleEvents
    split_ifs <;> simp [List.countP_cons, TcpAct.ends]
  | _ => simp [TcpTask.acts, TcpAct.ends, List.countP_cons]

/-! ### At most one -/

/-- The calls of `channel_->Shutdown` that are made or led to, on the stacks of some threads. -/
def shots (F : Finset (Option T)) (s : TcpConnection T) : Nat :=
  Stacks.weight F (fun a => a.asks.length) s.stack + (s.queue.flatMap TcpTask.asks).length +
    s.shutdowns.length

theorem shots_eq_zero {s : TcpConnection T} (hstack : Stacks.All (fun _ a => a.asks = []) s.stack)
    (hqueue : ∀ c, .shutdown c ∉ s.queue) (hshut : s.shutdowns = []) (F : Finset (Option T)) :
    s.shots F = 0 := by
  have hweight : Stacks.weight F (fun a : TcpAct T => a.asks.length) s.stack = 0 :=
    Stacks.weight_eq_zero F fun w a ha => List.length_eq_zero_iff.mpr (hstack w a ha)
  have hnil : s.queue.flatMap TcpTask.asks = [] := by
    apply List.flatMap_eq_nil_iff.mpr
    intro task htask
    cases task with
    | shutdown c => exact absurd htask (hqueue c)
    | _ => rfl
  rw [shots, hweight, hnil, hshut]
  rfl

/-- Nothing more is written or appended, and no `handleWrite` is about to end. -/
structure Spent (s : TcpConnection T) : Prop where
  output_ : s.output_.readableBytes = 0
  check : .checkDisconnecting ∉ s.stack none
  append : ∀ p, .append p ∉ s.stack none

/-- `Shutdown(close_read)` has changed `state_`: all calls of `channel_->Shutdown` have its argument,
there is at most one, and nothing leads to another. -/
structure Once (close_read : Bool) (s : TcpConnection T) : Prop where
  connected : s.state_ ≠ .kConnected
  connecting : s.state_ ≠ .kConnecting
  asked : Stacks.All (fun _ a => ∀ c ∈ a.asks, c = close_read) s.stack
  queued : ∀ c, .shutdown c ∈ s.queue → c = close_read
  le_one : ∀ F, s.shots F ≤ 1
  spent : s.shutdowns ≠ [] ∨ (∃ c, .channelShutdown c ∈ s.stack none) → s.Spent

variable [DecidableEq T]

section Step

variable {l : TcpLabel T} {s t : TcpConnection T}

omit [DecidableEq T] in
theorem length_asks (l : List (TcpAct T)) :
    (l.map fun a => a.asks.length).sum = (l.flatMap TcpAct.asks).length :=
  List.length_flatMap.symm

/-- A step leads to no further call of `channel_->Shutdown`, unless it is the `Shutdown` that
changes `state_`, or the end of a `handleWrite` after that. -/
theorem shots_step (hf : Forceless s) (h : step l s = some t) (F : Finset (Option T)) :
    ∃ F', t.shots F ≤ s.shots F' ∨ t.shots F ≤ s.shots F' + 1 ∧
      ((∃ c, current l s = some (.call (.shutdown c))) ∧ s.state_ = .kConnected ∨
        current l s = some .checkDisconnecting ∧ s.state_ = .kDisconnecting) := by
  obtain ⟨-, hmoves⟩ := moves_of_step h
  cases hmoves with
  | @call u api hidle =>
    have hweight := Stacks.weight_begin F (fun a : TcpAct T => a.asks.length) [.call api] hidle
    have hnone : ([TcpAct.call api].map fun a : TcpAct T => a.asks.length).sum = 0 := rfl
    refine ⟨insert (some u) F, .inl ?_⟩
    simp only [shots]
    omega
  | @act w env a rest hw =>
    have heff := act_effect s w env a
    have hcur : current (.act w env) s = some a := current_of_stack hw
    have hweight := Stacks.weight_advance F (fun a : TcpAct T => a.asks.length)
      (s.act w env a).2 hw
    rw [length_asks] at hweight
    refine ⟨insert w F, ?_⟩
    simp only [shots, heff.queue, heff.shutdowns, List.flatMap_append, List.length_append, hcur,
      Option.some.injEq]
    rcases (act_next s w env a).asks (hf.stack.head hw) with hsub | ⟨c, rfl, hs, hnew⟩ |
      ⟨rfl, hs, hnew⟩
    · left
      have hlength := hsub.length_le
      simp only [List.length_append] at hlength
      omega
    · refine .inr ⟨?_, .inl ⟨⟨c, rfl⟩, hs⟩⟩
      simp only [hnew, List.flatMap_cons, List.flatMap_nil, TcpAct.asks, TcpTask.asks,
        TcpAct.submits, TcpAct.shuts, List.length_append, List.length_cons, List.length_nil]
        at hweight ⊢
      omega
    · refine .inr ⟨?_, .inr ⟨rfl, hs⟩⟩
      simp only [hnew, List.flatMap_cons, List.flatMap_nil, TcpAct.asks, TcpAct.submits,
        TcpAct.shuts, List.length_append, List.length_cons, List.length_nil] at hweight ⊢
      omega
  | @task task queue hidle hq =>
    have hne : task ≠ .forceShutdown := by
      rintro rfl
      exact hf.queue (hq ▸ List.mem_cons_self)
    have hweight := Stacks.weight_begin F (fun a : TcpAct T => a.asks.length) task.acts hidle
    rw [length_asks, asks_acts hne] at hweight
    refine ⟨insert none F, .inl ?_⟩
    simp only [shots, hq, List.flatMap_cons, List.length_append]
    omega
  | collect => exact ⟨F, .inl (Nat.le_refl _)⟩
  | dispatch hc =>
    refine ⟨F, .inl ?_⟩
    simp [shots, TcpTask.asks]

/-- The loop's own thread has at most one act to do that may lead to a `channel_->Shutdown`. -/
theorem ends_step (hs : (s.stack none).countP TcpAct.ends ≤ 1) (h : step l s = some t) :
    (t.stack none).countP TcpAct.ends ≤ 1 := by
  obtain ⟨-, hmoves⟩ := moves_of_step h
  cases hmoves with
  | call hidle => simpa using hs
  | @act w env a rest hw =>
    by_cases hloop : w = none
    · subst hloop
      have hle := (act_next s none env a).ends
      have hcount : [a].countP TcpAct.ends + rest.countP TcpAct.ends ≤ 1 := by
        rw [← List.countP_append, List.singleton_append, ← hw]
        exact hs
      dsimp only
      rw [Function.update_self, List.countP_append]
      omega
    · dsimp only
      rwa [Function.update_of_ne (Ne.symm hloop)]
  | task =>
    dsimp only
    rw [Function.update_self]
    exact ends_acts _
  | collect => exact hs
  | dispatch => exact hs

omit [DecidableEq T] in
/-- Nothing that may lead to a `channel_->Shutdown` is below an act that may. -/
theorem not_ends_of_head {a : TcpAct T} {rest : List (TcpAct T)}
    (hs : (s.stack none).countP TcpAct.ends ≤ 1) (hw : s.stack none = a :: rest)
    (ha : a.ends = true) : ∀ b ∈ rest, b.ends = false := by
  rw [hw, List.countP_cons_of_pos ha] at hs
  have hzero : rest.countP TcpAct.ends = 0 := by omega
  intro b hb
  exact Bool.eq_false_iff.mpr (List.countP_eq_zero.mp hzero b hb)

/-! ### After the `Shutdown` -/

omit [DecidableEq T] in
/-- Where `output_` is empty, `handleWrite` finds no write interest. -/
theorem handleWrite_of_spent (env : TcpEnv) {rest : List (TcpAct T)} (hi : Interested s)
    (hfatal : s.fatal = none) (hw : s.stack none = .handleWrite :: rest)
    (hz : s.output_.readableBytes = 0) :
    s.handleWrite env = ({ s with fatal := some .notWritable }, []) := by
  have hinterest := hi.interest hfatal
  rw [hw] at hinterest
  have hnot : SocketChannel.writable s.events_ = false := by
    rw [Bool.eq_false_iff]
    exact fun hyes => hinterest.mp hyes hz
  rw [handleWrite, if_pos hnot]

theorem spent_act {env : TcpEnv} {a : TcpAct T} {rest : List (TcpAct T)} (hi : Interested s)
    (hfatal : s.fatal = none) (hc : s.state_ ≠ .kConnected) (hs : s.Spent)
    (hw : s.stack none = a :: rest) :
    Spent { (s.act none env a).1 with
      stack := Function.update s.stack none ((s.act none env a).2 ++ rest) } := by
  have hnext := act_next s none env a
  have happend : ∀ p, a ≠ .append p := by
    rintro p rfl
    exact hs.append p (hw ▸ List.mem_cons_self)
  constructor
  · show (s.act none env a).1.output_.readableBytes = 0
    by_cases hwrite : a = .handleWrite
    · subst hwrite
      rw [act, handleWrite_of_spent env hi hfatal hw hs.output_]
      exact hs.output_
    · rw [output_act happend hwrite]
      exact hs.output_
  · dsimp only
    rw [Function.update_self, List.mem_append, not_or]
    refine ⟨fun hnew => ?_, fun hrest => hs.check (hw ▸ List.mem_cons_of_mem a hrest)⟩
    obtain ⟨rfl, -⟩ := hnext.checkDisconnecting_mem hnew
    rw [act, handleWrite_of_spent env hi hfatal hw hs.output_] at hnew
    cases hnew
  · intro p
    dsimp only
    rw [Function.update_self, List.mem_append, not_or]
    exact ⟨fun hnew => hc (hnext.append_mem hnew),
      fun hrest => hs.append p (hw ▸ List.mem_cons_of_mem a hrest)⟩

/-- What leads to a call of `channel_->Shutdown` finds `output_` empty, and is the last to do so. -/
theorem spent_of_leads {env : TcpEnv} {a : TcpAct T} {rest : List (TcpAct T)} (hs : Shaped s)
    (hends : (s.stack none).countP TcpAct.ends ≤ 1) (hw : s.stack none = a :: rest)
    (ha : a = .checkDisconnecting ∨ ∃ c, a = .shutdownTask c)
    (hz : s.output_.readableBytes = 0) :
    Spent { (s.act none env a).1 with
      stack := Function.update s.stack none ((s.act none env a).2 ++ rest) } := by
  have hnext := act_next s none env a
  have hend : a.ends = true := by rcases ha with rfl | ⟨c, rfl⟩ <;> rfl
  have hrest := not_ends_of_head hends hw hend
  have himmediate : ∀ b ∈ rest, b.immediate = false := by simpa [hw] using hs.immediate none
  constructor
  · show (s.act none env a).1.output_.readableBytes = 0
    rw [output_act]
    · exact hz
    · rcases ha with rfl | ⟨c, rfl⟩ <;> simp
    · rcases ha with rfl | ⟨c, rfl⟩ <;> simp
  · dsimp only
    rw [Function.update_self, List.mem_append, not_or]
    refine ⟨fun hnew => ?_, fun hmem => ?_⟩
    · obtain ⟨rfl, -⟩ := hnext.checkDisconnecting_mem hnew
      rcases ha with ha | ⟨c, ha⟩ <;> cases ha
    · cases hrest _ hmem
  · intro p
    dsimp only
    rw [Function.update_self, List.mem_append, not_or]
    refine ⟨fun hnew => ?_, fun hmem => ?_⟩
    · generalize (s.act none env a).2 = new at hnext hnew
      rcases ha with rfl | ⟨c, rfl⟩ <;> cases hnext <;> simp at hnew
    · cases himmediate _ hmem

omit [DecidableEq T] in
/-- Before the end of a `handleWrite` that finds `kDisconnecting` after the task of `Shutdown` has
run, nothing leads to a call of `channel_->Shutdown`. -/
theorem shots_of_drains {c : Bool} {rest : List (TcpAct T)} (hs : Shaped s)
    (hends : (s.stack none).countP TcpAct.ends ≤ 1) (ho : Once c s)
    (hw : s.stack none = .checkDisconnecting :: rest) (hq : ¬ s.ShutdownQueued)
    (F : Finset (Option T)) : s.shots F = 0 := by
  have hcheck : .checkDisconnecting ∈ s.stack none := hw ▸ List.mem_cons_self
  have hnot : ¬ (s.shutdowns ≠ [] ∨ ∃ c, .channelShutdown c ∈ s.stack none) :=
    fun hshut => (ho.spent hshut).check hcheck
  -- the end of the `handleWrite` is the only act left that could lead to a call
  have hrest := not_ends_of_head hends hw rfl
  apply shots_eq_zero
  · intro w a ha
    cases a with
    | submit task =>
      cases task with
      | shutdown c => exact absurd ⟨c, .inr ⟨w, ha⟩⟩ hq
      | _ => rfl
    | shutdownTask c =>
      obtain rfl : w = none := hs.admissible _ _ ha
      rw [hw, List.mem_cons] at ha
      rcases ha with heq | ha
      · cases heq
      · cases hrest _ ha
    | channelShutdown c =>
      obtain rfl : w = none := hs.admissible _ _ ha
      exact absurd (.inr ⟨c, ha⟩) hnot
    | _ => rfl
  · exact fun c hmem => hq ⟨c, .inl hmem⟩
  · by_contra hne
    exact hnot (.inl hne)

omit [DecidableEq T] in
theorem Spent.congr (hs : s.Spent) (hout : t.output_ = s.output_)
    (hstack : t.stack none = s.stack none) : t.Spent :=
  ⟨hout ▸ hs.output_, hstack ▸ hs.check, fun p => hstack ▸ hs.append p⟩

/-- What a thread other than the loop's leaves alone. -/
theorem spent_caller {w : Option T} {env : TcpEnv} {a : TcpAct T} {new : List (TcpAct T)}
    (ha : a.Admissible w) (hloop : w ≠ none) (hs : s.Spent) :
    Spent { (s.act w env a).1 with stack := Function.update s.stack w new } := by
  refine hs.congr (output_act ?_ ?_) (Function.update_of_ne (Ne.symm hloop) _ _)
  · rintro p rfl
    exact hloop ha
  · rintro rfl
    exact hloop ha

theorem spent_task {task : TcpTask T} {queue : List (TcpTask T)} (hs : s.Spent) :
    Spent { s with queue := queue, stack := Function.update s.stack none task.acts } := by
  refine ⟨hs.output_, ?_, fun p => ?_⟩
  · dsimp only
    rw [Function.update_self]
    exact checkDisconnecting_not_mem_acts task
  · dsimp only
    rw [Function.update_self]
    exact append_not_mem_acts task p

theorem spent_step {c : Bool} (hs : Shaped s) (hf : Forceless s) (hi : Interested s)
    (hends : (s.stack none).countP TcpAct.ends ≤ 1) (ho : Once c s) (hg : DrainsLast c l s)
    (h : step l s = some t)
    (hshut : t.shutdowns ≠ [] ∨ ∃ c, .channelShutdown c ∈ t.stack none) : t.Spent := by
  obtain ⟨hfatal, hmoves⟩ := moves_of_step h
  cases hmoves with
  | @call u api hidle =>
    have hstack : Function.update s.stack (some u) [.call api] none = s.stack none :=
      Function.update_of_ne (Option.some_ne_none u).symm _ _
    dsimp only at hshut
    rw [hstack] at hshut
    exact (ho.spent hshut).congr rfl hstack
  | @act w env a rest hw =>
    have hadm := hs.admissible.head hw
    by_cases hbefore : s.shutdowns ≠ [] ∨ ∃ c, .channelShutdown c ∈ s.stack none
    · have hspent := ho.spent hbefore
      by_cases hloop : w = none
      · subst hloop
        exact spent_act hi hfatal ho.connected hspent hw
      · exact spent_caller hadm hloop hspent
    · -- the act has just led to the call
      have hnone : w = none := by
        by_contra hloop
        apply hbefore
        dsimp only at hshut
        rw [Function.update_of_ne (Ne.symm hloop), (act_effect s w env a).shutdowns] at hshut
        cases a with
        | channelShutdown => exact absurd hadm hloop
        | _ => simpa [TcpAct.shuts] using hshut
      subst hnone
      obtain ⟨c', hmem⟩ : ∃ c, .channelShutdown c ∈ (s.act none env a).2 := by
        dsimp only at hshut
        rw [Function.update_self, (act_effect s none env a).shutdowns] at hshut
        rcases hshut with hshut | ⟨c', hmem⟩
        · cases a with
          | channelShutdown c' => exact absurd (.inr ⟨c', hw ▸ List.mem_cons_self⟩) hbefore
          | _ => exact absurd (.inl (by simpa [TcpAct.shuts] using hshut)) hbefore
        · rcases List.mem_append.mp hmem with hmem | hmem
          · exact ⟨c', hmem⟩
          · exact absurd (.inr ⟨c', hw ▸ List.mem_cons_of_mem a hmem⟩) hbefore
      rcases (act_next s none env a).channelShutdown_mem hmem with ⟨rfl, hstate⟩ | ⟨c'', rfl, hz⟩
      · obtain ⟨-, -, hz⟩ := hg (current_of_stack hw) hstate
        exact spent_of_leads hs hends hw (.inl rfl) hz
      · exact spent_of_leads hs hends hw (.inr ⟨c'', rfl⟩) hz
  | @task task queue hidle hq =>
    apply spent_task
    apply ho.spent
    dsimp only at hshut
    rw [Function.update_self] at hshut
    rcases hshut with hshut | ⟨c', hmem⟩
    · exact .inl hshut
    · obtain rfl := channelShutdown_mem_acts hmem
      exact absurd (hq ▸ List.mem_cons_self) hf.queue
  | collect => exact (ho.spent hshut).congr rfl rfl
  | dispatch => exact (ho.spent hshut).congr rfl rfl

/-- What is asked for stays as it is. -/
theorem asked_step {c : Bool} (hf : Forceless s) (ho : Once c s) (hg : DrainsLast c l s)
    (h : step l s = some t) : Stacks.All (fun _ a => ∀ c' ∈ a.asks, c' = c) t.stack := by
  apply all_step ho.asked (fun u api _ => by simp [TcpAct.asks]) _ _ h
  · rintro w env a new rfl hcurrent ha hnext b hb c' hc'
    have hmem : c' ∈ new.flatMap TcpAct.asks := List.mem_flatMap.mpr ⟨b, hb, hc'⟩
    rcases hnext.asks (hf.stack w a (List.mem_of_head? hcurrent)) with hsub | ⟨_, -, hs, -⟩ |
      ⟨rfl, hs, rfl⟩
    · exact ha c' (hsub.subset (List.mem_append_left _ (List.mem_append_left _ hmem)))
    · exact absurd hs ho.connected
    · obtain ⟨rfl, -⟩ := hg hcurrent hs
      exact List.mem_singleton.mp hmem
  · intro task htask b hb c' hc'
    have hne : task ≠ .forceShutdown := by
      rintro rfl
      exact hf.queue htask
    have hmem : c' ∈ task.asks := asks_acts hne ▸ List.mem_flatMap.mpr ⟨b, hb, hc'⟩
    cases task with
    | shutdown c'' =>
      obtain rfl := List.mem_singleton.mp hmem
      exact ho.queued c' htask
    | _ => cases hmem

theorem once_step {c : Bool} (hs : Shaped s) (hf : Forceless s) (hi : Interested s)
    (hends : (s.stack none).countP TcpAct.ends ≤ 1) (ho : Once c s) (hg : DrainsLast c l s)
    (h : step l s = some t) : Once c t := by
  have hstate : t.state_ ≠ .kConnected ∧ t.state_ ≠ .kConnecting := by
    obtain ⟨-, hmoves⟩ := moves_of_step h
    cases hmoves with
    | @act w env a rest hw =>
      show (s.act w env a).1.state_ ≠ _ ∧ (s.act w env a).1.state_ ≠ _
      rw [(act_effect s w env a).state_]
      exact stores_ne_connected ho.connected ho.connecting
    | _ => exact ⟨ho.connected, ho.connecting⟩
  refine ⟨hstate.1, hstate.2, asked_step hf ho hg h, ?_, ?_, spent_step hs hf hi hends ho hg h⟩
  · intro c' hmem
    rcases mem_queue_step h hmem with hmem | ⟨w, a, ha, -, hmem⟩ | ⟨events, -, heq⟩
    · exact ho.queued c' hmem
    · obtain rfl := mem_submits hmem
      exact ho.asked w _ ha c' (List.mem_singleton_self c')
    · cases heq
  · intro F
    obtain ⟨F', hle | ⟨hle, ⟨-, hconn⟩ | ⟨hcheck, hdisc⟩⟩⟩ := shots_step hf h F
    · exact Nat.le_trans hle (ho.le_one F')
    · exact absurd hconn ho.connected
    · -- the end of a `handleWrite` leads to the first call
      obtain ⟨-, hq, -⟩ := hg hcheck hdisc
      obtain ⟨w, env, rest, -, hw, -⟩ := act_of_current h hcheck
      obtain rfl : w = none := hs.admissible.head hw
      have hzero : s.shots F' = 0 := shots_of_drains hs hends ho hw hq F'
      omega

/-- The `Shutdown` that changes `state_`. -/
theorem once_of_wins {c c' : Bool} (hf : Forceless s) (hn : NotShut s) (h : step l s = some t)
    (hcurrent : current l s = some (.call (.shutdown c'))) (hconn : s.state_ = .kConnected)
    (hg : Asks c l s) : Once c t := by
  obtain rfl := hg c' hcurrent hconn
  -- nothing has been asked for before, and one call is asked for now
  have hzero : ∀ F, s.shots F = 0 :=
    shots_eq_zero (fun w a ha => asks_of_not_shutsDown (hn.stack w a ha)) hn.queue hn.shutdowns
  have hle : ∀ F, t.shots F ≤ 1 := by
    intro F
    obtain ⟨F', hle⟩ := shots_step hf h F
    rw [hzero F'] at hle
    omega
  obtain ⟨w, env, rest, -, hw, rfl⟩ := act_of_current h hcurrent
  have hact : s.act w env (.call (.shutdown c')) = ({ s with
      state_ := .kDisconnecting, winner := some (w, owed w s.calls) },
      [.submit (.shutdown c')]) := by simp [act, call, hconn]
  rw [hact] at hle ⊢
  have hstack : Stacks.All (fun _ a => (∀ d ∈ a.asks, d = c') ∧ ∀ d, a ≠ .channelShutdown d)
      (Function.update s.stack w ([.submit (.shutdown c')] ++ rest)) := by
    refine Stacks.all_advance (fun v b hb => ?_) hw fun b hb => ?_
    · have hnot := hn.stack v b hb
      refine ⟨by simp [asks_of_not_shutsDown hnot], ?_⟩
      rintro d rfl
      cases hnot
    · obtain rfl := List.mem_singleton.mp hb
      exact ⟨fun d hd => List.mem_singleton.mp hd, by simp⟩
  refine ⟨by simp, by simp, fun v b hb => (hstack v b hb).1, ?_, hle, ?_⟩
  · exact fun d hd => absurd hd (hn.queue d)
  · rintro (hshut | ⟨d, hd⟩)
    · exact absurd hn.shutdowns hshut
    · exact absurd rfl ((hstack none _ hd).2 d)

end Step

/-! ### Every run -/

/-- What holds along the runs in which `handleWrite` drains last. -/
structure Orderly (close_read : Bool) (s : TcpConnection T) : Prop where
  shaped : Shaped s
  streamed : Streamed s
  forceless : Forceless s
  interested : Interested s
  ends : (s.stack none).countP TcpAct.ends ≤ 1
  notShut : s.winner = none → NotShut s
  once : s.winner ≠ none → Once close_read s

theorem orderly_step {c : Bool} {l : TcpLabel T} {s t : TcpConnection T} (hs : Orderly c s)
    (hu : Unforced l) (ha : Asks c l s) (hg : DrainsLast c l s) (h : step l s = some t) :
    Orderly c t where
  shaped := shaped_step hs.shaped h
  streamed := streamed_step hs.streamed h
  forceless := forceless_step hs.forceless hu h
  interested := interested_step hs.shaped hs.streamed hs.forceless hs.interested h
  ends := ends_step hs.ends h
  notShut := fun hnone =>
    notShut_step hs.forceless (hs.notShut (winner_of_none h hnone)) h hnone
  once := by
    intro hwon
    by_cases hbefore : s.winner = none
    · -- the step has won the transition
      have hn := hs.notShut hbefore
      have hwins : ∃ c', current l s = some (.call (.shutdown c')) ∧ s.state_ = .kConnected := by
        obtain ⟨-, hmoves⟩ := moves_of_step h
        cases hmoves with
        | @act w env a rest hw =>
          rcases winner_act s w env a with ⟨hsame, -⟩ | ⟨⟨c', rfl⟩, hconn, -⟩
          · exact absurd (hsame.trans hbefore) hwon
          · exact ⟨c', current_of_stack hw, hconn⟩
        | _ => exact absurd hbefore hwon
      obtain ⟨c', hcurrent, hconn⟩ := hwins
      exact once_of_wins hs.forceless hn h hcurrent hconn ha
    · exact once_step hs.shaped hs.forceless hs.interested hs.ends (hs.once hbefore) hg h

omit [DecidableEq T] in
theorem orderly_start (c : Bool) (addr : Nat) (cells : Nat → UInt8) :
    Orderly c (start addr cells : TcpConnection T) where
  shaped := shaped_start addr cells
  streamed := streamed_start addr cells
  forceless := ⟨by simp [Stacks.All, start], by simp [start]⟩
  interested := interested_start addr cells
  ends := by simp [start]
  notShut := fun _ => notShut_start addr cells
  once := by simp [start]

/-- What is called is what has been asked for. -/
theorem asAsked_of_orderly {c : Bool} {l : TcpLabel T} {s t : TcpConnection T} (hs : Orderly c s)
    (h : step l s = some t) : AsAsked c l s := by
  intro c' hcurrent
  obtain ⟨w, env, rest, -, hw, -⟩ := act_of_current h hcurrent
  obtain rfl : w = none := hs.shaped.admissible.head hw
  have hmem : .channelShutdown c' ∈ s.stack none := hw ▸ List.mem_cons_self
  have hwon : s.winner ≠ none := by
    intro hnone
    cases (hs.notShut hnone).stack none _ hmem
  have ho := hs.once hwon
  refine ⟨ho.asked none _ hmem c' (List.mem_singleton_self c'), ?_,
    (ho.spent (.inr ⟨c', hmem⟩)).output_⟩
  -- the call counts for one already
  have hle := ho.le_one {none}
  have hone := Stacks.le_weight (fun a : TcpAct T => a.asks.length) hw
  have hlength : (TcpAct.channelShutdown c' : TcpAct T).asks.length = 1 := rfl
  rw [hlength] at hone
  rw [shots] at hle
  apply List.length_eq_zero_iff.mp
  omega

/-- **One shutdown, as asked**: along every schedule without `ForceShutdown` in which the `Shutdown`
that changes `state_` has the argument `close_read`, `channel_->Shutdown` is called at most once, with
that argument and while `output_` is empty, if a `handleWrite` that finds `kDisconnecting` when it
ends only does so for the argument `false`, after the task of `Shutdown`, and with `output_` empty. -/
theorem shutdown_once (close_read : Bool) (addr : Nat) (cells : Nat → UInt8)
    (ls : List (TcpLabel T))
    (h : (tcpConnection T).AllSteps
      (fun l s => Unforced l ∧ Asks close_read l s ∧ DrainsLast close_read l s) ls
      (start addr cells)) :
    (tcpConnection T).AllSteps (AsAsked close_read) ls (start addr cells) :=
  h.imp (I := Orderly close_read) (fun _ _ _ hs hg ht => orderly_step hs hg.1 hg.2.1 hg.2.2 ht)
    (fun _ _ _ hs _ ht => asAsked_of_orderly hs ht) (orderly_start close_read addr cells)

instance [Fintype T] (s : TcpConnection T) : Decidable s.ShutdownQueued :=
  inferInstanceAs (Decidable (∃ _, _ ∨ ∃ _, _))

instance (close_read : Bool) (l : TcpLabel T) (s : TcpConnection T) :
    Decidable (Asks close_read l s) := inferInstanceAs (Decidable (∀ _, _ → _ → _))

instance [Fintype T] (close_read : Bool) (l : TcpLabel T) (s : TcpConnection T) :
    Decidable (DrainsLast close_read l s) := inferInstanceAs (Decidable (_ → _ → _))

instance (close_read : Bool) (l : TcpLabel T) (s : TcpConnection T) :
    Decidable (AsAsked close_read l s) := inferInstanceAs (Decidable (∀ _, _ → _))

/-- `Shutdown` while two bytes are queued for writing, its task, and the write afterwards. -/
def drainAfterTask (close_read : Bool) : List (TcpLabel Unit) :=
  runTask 5 ++ runCall () (.send twoBytes) 2 ++ runTask 4 ++ runCall () (.shutdown close_read) 2 ++
    runTask 1 ++ [.collect Events.EPOLLOUT, .dispatch] ++ runTask 6

theorem shutdown_once_drainAfterTask :
    (tcpConnection Unit).AllSteps (AsAsked false) (drainAfterTask false) (start 0 fun _ => 0) :=
  shutdown_once false 0 _ (drainAfterTask false) (by decide +kernel)

/-- The write comes before the task of `Shutdown`. -/
def drainBeforeTask (close_read : Bool) : List (TcpLabel Unit) :=
  runTask 5 ++ runCall () (.send twoBytes) 2 ++ runTask 4 ++ [.collect Events.EPOLLOUT, .dispatch] ++
    runCall () (.shutdown close_read) 2 ++ runTask 6 ++ runTask 3

/-- `Shutdown(true)` leaves the reading side open, and `Shutdown(false)` is carried out twice. -/
theorem drain_not_asAsked :
    ¬ (tcpConnection Unit).AllSteps (AsAsked true) (drainAfterTask true) (start 0 fun _ => 0) ∧
      ¬ (tcpConnection Unit).AllSteps (AsAsked false) (drainBeforeTask false)
        (start 0 fun _ => 0) := by
  decide +kernel

end TcpConnection

end Lizlib
