import Lizlib.Net.Equiv.OutputStream

/-!
# Shutting a connection down

`Shutdown` changes `state_` at once, and `handleSend` gives up on what it finds queued afterwards:
what has been sent before is written before `channel_->Shutdown` only if `handleSend` has already
passed its check for all of it (`flushedFirst`).
-/

namespace Lizlib

variable {T : Type*}

/-- The act belongs to `ForceShutdown`. -/
def TcpAct.forces : TcpAct T → Bool
  | .call .forceShutdown | .storeDisconnecting | .submit .forceShutdown => true
  | _ => false

/-- The act shuts the channel down, or goes back to a `Shutdown` that has changed `state_`. -/
def TcpAct.shutsDown : TcpAct T → Bool
  | .submit (.shutdown _) | .shutdownTask _ | .channelShutdown _ => true
  | _ => false

/-- The payload that has passed the check of `handleSend`. -/
def TcpAct.appends : TcpAct T → List (Payload T)
  | .append p => [p]
  | _ => []

namespace TcpConnection

/-- The payload that has passed the check of `handleSend` and is being appended. -/
def appending (s : TcpConnection T) : List (Payload T) := (s.stack none).flatMap TcpAct.appends

variable [DecidableEq T]

/-- The payloads `xs` of thread `w` have been accepted, and written to their last byte. -/
def Flushed (w : Option T) (xs : List (Payload T)) (s : TcpConnection T) : Prop :=
  ∃ l m, s.accepted = l ++ m ∧ owed w l = xs ∧ payloadBytes l <+: s.written

/-- `channel_->Shutdown` is called after a `Shutdown`, and after what its caller had sent on the
connected connection has been written. -/
def FlushedFirst (s : TcpConnection T) : Prop :=
  s.shutdowns ≠ [] → ∃ w xs, s.winner = some (w, xs) ∧ Flushed w xs s

omit [DecidableEq T] in
/-- Nobody calls `ForceShutdown`. -/
def Unforced : TcpLabel T → Prop
  | .call _ api => api ≠ .forceShutdown
  | .act _ env => .forceShutdown ∉ env.calls
  | _ => True

/-- A `Shutdown` that changes `state_` finds all `Send`s of its caller past the check of
`handleSend`; one from inside `OnWriteComplete` finds `output_` empty. -/
def SendsFirst : TcpLabel T → TcpConnection T → Prop
  | .act w _, s => ∀ close_read, (s.stack w).head? = some (.call (.shutdown close_read)) →
      s.state_ = .kConnected →
      owed w (s.accepted ++ s.appending) = owed w s.calls ∧
        (w = none → .checkDisconnecting ∈ s.stack none → s.output_.readableBytes = 0)
  | _, _ => True

/-! ### Without `ForceShutdown` -/

omit [DecidableEq T] in
/-- No thread and no task is about to execute a part of `ForceShutdown`. -/
structure Forceless (s : TcpConnection T) : Prop where
  stack : Stacks.All (fun _ a => a.forces = false) s.stack
  queue : .forceShutdown ∉ s.queue

omit [DecidableEq T] in
theorem Next.forces {s : TcpConnection T} {w : Option T} {env : TcpEnv} {a : TcpAct T}
    {new : List (TcpAct T)} (h : Next s w env a new) (ha : a.forces = false)
    (hcalls : .forceShutdown ∉ env.calls) : ∀ b ∈ new, b.forces = false := by
  cases h with
  | forceShutdown | storeDisconnecting => cases ha
  | callback =>
    intro b hb
    obtain ⟨api, hapi, rfl⟩ := List.mem_map.mp hb
    cases api with
    | forceShutdown => exact absurd hapi hcalls
    | _ => rfl
  | _ => simp [TcpAct.forces]

omit [DecidableEq T] in
theorem forces_acts (task : TcpTask T) : ∀ a ∈ task.acts, a.forces = false := by
  intro a ha
  have hbegins := begins_of_mem_acts ha
  cases a with
  | call | submit | storeDisconnecting => cases hbegins
  | _ => rfl

section Step

variable {l : TcpLabel T} {s t : TcpConnection T}

theorem forceless_step (hf : Forceless s) (hg : Unforced l) (h : step l s = some t) :
    Forceless t := by
  constructor
  · apply all_step hf.stack _ _ (fun task _ => forces_acts task) h
    · rintro u api rfl
      cases api with
      | forceShutdown => exact absurd rfl hg
      | _ => rfl
    · rintro w env a new rfl - ha hnext
      exact hnext.forces ha hg
  · intro hmem
    rcases mem_queue_step h hmem with hmem | ⟨w, a, ha, -, hmem⟩ | ⟨events, -, heq⟩
    · exact hf.queue hmem
    · have hforces : a.forces = false := hf.stack w a ha
      rw [mem_submits hmem] at hforces
      cases hforces
    · cases heq

/-! ### Before a `Shutdown` -/

omit [DecidableEq T] in
/-- Nothing shuts the channel down. -/
structure NotShut (s : TcpConnection T) : Prop where
  state_ : s.state_ ≠ .kDisconnecting
  stack : Stacks.All (fun _ a => a.shutsDown = false) s.stack
  queue : ∀ close_read, .shutdown close_read ∉ s.queue
  shutdowns : s.shutdowns = []

omit [DecidableEq T] in
theorem wins_iff {state : TcpState} {a : TcpAct T} :
    a.wins state = true ↔ (∃ c, a = .call (.shutdown c)) ∧ state = .kConnected := by
  cases a with
  | call api => cases api <;> simp [TcpAct.wins]
  | _ => simp [TcpAct.wins]

/-- Who wins the transition of `Shutdown`. -/
theorem winner_act (s : TcpConnection T) (w : Option T) (env : TcpEnv) (a : TcpAct T) :
    (s.act w env a).1.winner = s.winner ∧
        ((∃ c, a = .call (.shutdown c)) → s.state_ ≠ .kConnected) ∨
      (∃ c, a = .call (.shutdown c)) ∧ s.state_ = .kConnected ∧
        (s.act w env a).1.winner = some (w, owed w s.calls) := by
  have hwinner := (act_effect s w env a).winner
  by_cases hwins : a.wins s.state_ = true
  · rw [if_pos hwins] at hwinner
    obtain ⟨ha, hs⟩ := wins_iff.mp hwins
    exact .inr ⟨ha, hs, hwinner⟩
  · rw [if_neg hwins] at hwinner
    refine .inl ⟨hwinner, fun ha hs => ?_⟩
    exact hwins (wins_iff.mpr ⟨ha, hs⟩)

omit [DecidableEq T] in
theorem Next.shutsDown {w : Option T} {env : TcpEnv} {a : TcpAct T} {new : List (TcpAct T)}
    (h : Next s w env a new) (hn : NotShut s) (ha : a.shutsDown = false) (hf : a.forces = false)
    (hc : (∃ c, a = .call (.shutdown c)) → s.state_ ≠ .kConnected) :
    ∀ b ∈ new, b.shutsDown = false := by
  cases h with
  | shutdown hs => exact absurd hs (hc ⟨_, rfl⟩)
  | checkDisconnecting hs => exact absurd hs hn.state_
  | storeDisconnecting => cases hf
  | shutdownTask => cases ha
  | callback =>
    intro b hb
    obtain ⟨api, -, rfl⟩ := List.mem_map.mp hb
    rfl
  | _ => simp [TcpAct.shutsDown]

omit [DecidableEq T] in
theorem stores_ne_kDisconnecting {a : TcpAct T} {state : TcpState} (hs : state ≠ .kDisconnecting)
    (hf : a.forces = false) (hc : (∃ c, a = .call (.shutdown c)) → state ≠ .kConnected) :
    a.stores state ≠ .kDisconnecting := by
  cases a with
  | call api =>
    cases api with
    | close =>
      simp only [TcpAct.stores]
      split_ifs <;> simp [hs]
    | shutdown c =>
      simp only [TcpAct.stores, hc ⟨c, rfl⟩, if_false]
      exact hs
    | _ => exact hs
  | storeDisconnected => simp [TcpAct.stores]
  | storeDisconnecting => cases hf
  | connect =>
    simp only [TcpAct.stores]
    split_ifs <;> simp [hs]
  | _ => exact hs

omit [DecidableEq T] in
theorem shutsDown_acts {task : TcpTask T} (hs : ∀ c, task ≠ .shutdown c) (hf : task ≠ .forceShutdown) :
    ∀ a ∈ task.acts, a.shutsDown = false := by
  cases task with
  | handleEvents events =>
    intro a ha
    rcases mem_acts_handleEvents ha with rfl | rfl | rfl | rfl <;> rfl
  | shutdown c => exact absurd rfl (hs c)
  | forceShutdown => exact absurd rfl hf
  | _ => simp [TcpTask.acts, TcpAct.shutsDown]

/-- As long as nobody has won, the act is no `Shutdown` that changes `state_`. -/
theorem not_connected_of_winner {w : Option T} {env : TcpEnv} (h : step (.act w env) s = some t)
    (hnone : t.winner = none) {a : TcpAct T} (ha : current (.act w env) s = some a) :
    (∃ c, a = .call (.shutdown c)) → s.state_ ≠ .kConnected := by
  obtain ⟨v, env', rest, -, -, rfl⟩ := act_of_current h ha
  rcases winner_act s v env' a with ⟨-, hc⟩ | ⟨-, -, hsome⟩
  · exact hc
  -- otherwise the step has a winner
  · rw [hsome] at hnone
    cases hnone

theorem notShut_step (hf : Forceless s) (hn : NotShut s) (h : step l s = some t)
    (hnone : t.winner = none) : NotShut t := by
  obtain ⟨-, hmoves⟩ := moves_of_step h
  constructor
  case state_ =>
    cases hmoves with
    | @act w env a rest hw =>
      show (s.act w env a).1.state_ ≠ _
      rw [(act_effect s w env a).state_]
      apply stores_ne_kDisconnecting hn.state_ (hf.stack.head hw)
      exact not_connected_of_winner h hnone (current_of_stack hw)
    | _ => exact hn.state_
  case stack =>
    apply all_step hn.stack (fun _ _ _ => rfl) _ _ h
    · rintro w env a new rfl hcurrent ha hnext
      have hforces : a.forces = false := hf.stack w a (List.mem_of_head? hcurrent)
      exact hnext.shutsDown hn ha hforces (not_connected_of_winner h hnone hcurrent)
    · intro task htask
      apply shutsDown_acts
      · rintro c rfl
        exact hn.queue c htask
      · rintro rfl
        exact hf.queue htask
  case queue =>
    intro c hmem
    rcases mem_queue_step h hmem with hmem | ⟨w, a, ha, -, hmem⟩ | ⟨events, -, heq⟩
    · exact hn.queue c hmem
    · have hshuts : a.shutsDown = false := hn.stack w a ha
      rw [mem_submits hmem] at hshuts
      cases hshuts
    · cases heq
  case shutdowns =>
    cases hmoves with
    | @act w env a rest hw =>
      show (s.act w env a).1.shutdowns = []
      rw [(act_effect s w env a).shutdowns, hn.shutdowns]
      have ha := hn.stack.head hw
      cases a with
      | channelShutdown => cases ha
      | _ => rfl
    | _ => exact hn.shutdowns

/-! ### Inside `OnWriteComplete` -/

omit [DecidableEq T] in
/-- A payload of another thread is handled in a task of its own. -/
def Alone (s : TcpConnection T) : Prop :=
  ∀ a rest, s.stack none = a :: rest → ∀ p ∈ a.payloads, p.caller = none ∨ rest = []

omit [DecidableEq T] in
/-- As long as `handleWrite` has not finished, what has been accepted since it found `output_` empty
comes from the loop's own thread. -/
def Drained (s : TcpConnection T) : Prop :=
  .checkDisconnecting ∈ s.stack none →
    ∃ l m, s.accepted = l ++ m ∧ payloadBytes l <+: s.written ∧ ∀ p ∈ m, p.caller = none

omit [DecidableEq T] in
theorem payloads_of_immediate {a : TcpAct T} (ha : a.immediate = false) : a.payloads = [] := by
  cases a <;> first | rfl | cases ha

omit [DecidableEq T] in
/-- The loop's own thread hands on the payload it has, or one of its own. -/
theorem Next.caller {env : TcpEnv} {a : TcpAct T} {new : List (TcpAct T)}
    (h : Next s none env a new) :
    ∀ b ∈ new, ∀ p ∈ b.payloads, p.caller = none ∨ p ∈ a.payloads ∧ new.tail = [] := by
  cases h with
  | send hne => exact absurd rfl hne
  | sendOnLoop _ hcaller => simp [TcpAct.payloads, hcaller]
  | callback =>
    intro b hb p hp
    obtain ⟨api, -, rfl⟩ := List.mem_map.mp hb
    cases hp
  | _ => simp [TcpAct.payloads]

theorem alone_step (hs : Shaped s) (ha : Alone s) (h : step l s = some t) : Alone t := by
  obtain ⟨-, hmoves⟩ := moves_of_step h
  cases hmoves with
  | call hidle => simpa [Alone] using ha
  | @act w env a rest hw =>
    by_cases hloop : w = none
    · subst hloop
      have hrest : ∀ b ∈ rest, b.immediate = false := by simpa [hw] using hs.immediate none
      have hcaller := (act_next s none env a).caller
      intro b rest' hstack p hp
      dsimp only at hstack
      rw [Function.update_self] at hstack
      cases hnew : (s.act none env a).2 with
      | nil =>
        rw [hnew, List.nil_append] at hstack
        rw [payloads_of_immediate (hrest b (hstack ▸ List.mem_cons_self))] at hp
        cases hp
      | cons c new =>
        rw [hnew] at hstack hcaller
        obtain ⟨rfl, rfl⟩ := List.cons.inj hstack
        apply (hcaller c List.mem_cons_self p hp).elim .inl
        rintro ⟨hmem, rfl : new = []⟩
        exact ha _ _ hw p hmem
    · simpa [Alone, Function.update_of_ne (Ne.symm hloop)] using ha
  | @task task queue hidle hq =>
    intro a rest hstack p hp
    dsimp only at hstack
    rw [Function.update_self] at hstack
    cases task with
    | handleSend q => exact .inr (List.cons.inj hstack).2.symm
    | handleEvents events =>
      have hmem : a ∈ (TcpTask.handleEvents events : TcpTask T).acts := hstack ▸ List.mem_cons_self
      rcases mem_acts_handleEvents hmem with rfl | rfl | rfl | rfl <;> cases hp
    | _ =>
      obtain ⟨rfl, -⟩ := List.cons.inj hstack
      cases hp
  | collect => exact ha
  | dispatch => exact ha

omit [DecidableEq T] in
theorem Next.checkDisconnecting_mem {w : Option T} {env : TcpEnv} {a : TcpAct T}
    {new : List (TcpAct T)} (h : Next s w env a new) (hmem : .checkDisconnecting ∈ new) :
    a = .handleWrite ∧ (s.handleWrite env).1.output_.readableBytes = 0 := by
  cases h with
  | drained hz => exact ⟨rfl, hz⟩
  | _ => simp at hmem

omit [DecidableEq T] in
theorem checkDisconnecting_not_mem_acts (task : TcpTask T) : .checkDisconnecting ∉ task.acts := by
  intro hmem
  cases begins_of_mem_acts hmem

omit [DecidableEq T] in
/-- Where `output_` is empty everything has been written. -/
theorem Streamed.written_eq (h : Streamed s) (hz : s.output_.readableBytes = 0) :
    s.written = payloadBytes s.accepted := by
  have hnil : s.output_.readable = [] := List.length_eq_zero_iff.mp (h.readableBytes_eq ▸ hz)
  rw [← h.bytes, hnil, List.append_nil]

/-- An act accepts at most the payload it appends, and takes back nothing it has written. -/
theorem act_progress (s : TcpConnection T) (w : Option T) (env : TcpEnv) (a : TcpAct T) :
    ∃ acc l, (s.act w env a).1.accepted = s.accepted ++ acc ∧
      (s.act w env a).1.written = s.written ++ l ∧ ∀ p ∈ acc, a = .append p := by
  have heff := act_effect s w env a
  obtain ⟨acc, hacc, hfrom⟩ := heff.accepted
  obtain ⟨l, hl⟩ := heff.written
  exact ⟨acc, l, hacc, hl, hfrom⟩

theorem drained_step (hs : Shaped s) (hst : Streamed s) (ha : Alone s) (hd : Drained s)
    (h : step l s = some t) : Drained t := by
  have hstreamed := streamed_step hst h
  obtain ⟨-, hmoves⟩ := moves_of_step h
  cases hmoves with
  | call hidle => simpa [Drained] using hd
  | @act w env a rest hw =>
    intro hmem
    dsimp only at hmem ⊢
    obtain ⟨acc, l', hacc, hwritten, hfrom⟩ := act_progress s w env a
    -- what was there before is there still, and what is new comes from the loop's thread
    have hkeep : .checkDisconnecting ∈ s.stack none → (∀ p, a = .append p → p.caller = none) →
        ∃ l m, (s.act w env a).1.accepted = l ++ m ∧
          payloadBytes l <+: (s.act w env a).1.written ∧ ∀ p ∈ m, p.caller = none := by
      intro hmem hcaller
      obtain ⟨l, m, heq, hprefix, hcallers⟩ := hd hmem
      refine ⟨l, m ++ acc, by rw [hacc, heq, List.append_assoc], ?_, fun p hp => ?_⟩
      · rw [hwritten]
        exact hprefix.trans (List.prefix_append _ _)
      · exact (List.mem_append.mp hp).elim (hcallers p) fun hp => hcaller p (hfrom p hp)
    by_cases hloop : w = none
    · subst hloop
      rw [Function.update_self, List.mem_append] at hmem
      rcases hmem with hmem | hmem
      · obtain ⟨rfl, hz⟩ := (act_next s none env a).checkDisconnecting_mem hmem
        exact ⟨_, [], (List.append_nil _).symm, (hstreamed.written_eq hz) ▸ List.prefix_refl _,
          by simp⟩
      · apply hkeep (hw ▸ List.mem_cons_of_mem a hmem)
        rintro p rfl
        apply (ha _ _ hw p (List.mem_singleton_self p)).resolve_right
        rintro rfl
        cases hmem
    · rw [Function.update_of_ne (Ne.symm hloop)] at hmem
      apply hkeep hmem
      rintro p rfl
      exact absurd (hs.admissible.head hw) hloop
  | @task task queue hidle hq =>
    intro hmem
    dsimp only at hmem
    rw [Function.update_self] at hmem
    exact absurd hmem (checkDisconnecting_not_mem_acts task)
  | collect => exact hd
  | dispatch => exact hd

/-! ### After a `Shutdown` -/

omit [DecidableEq T] in
/-- `channel_->Shutdown` has been called, or nothing but `state_` can keep it from being called. -/
def Due (s : TcpConnection T) : Prop :=
  .checkDisconnecting ∈ s.stack none ∨ (∃ c, .channelShutdown c ∈ s.stack none) ∨ s.shutdowns ≠ []

/-- Thread `w` has won, `xs` have passed the check of `handleSend`, and they are written before the
channel is shut down. -/
structure Won (w : Option T) (xs : List (Payload T)) (s : TcpConnection T) : Prop where
  connected : s.state_ ≠ .kConnected
  connecting : s.state_ ≠ .kConnecting
  accepted : s.fatal = none → owed w (s.accepted ++ s.appending) = xs
  flushed : Due s → Flushed w xs s

@[simp] theorem owed_append (w : Option T) (l m : List (Payload T)) :
    owed w (l ++ m) = owed w l ++ owed w m := List.filter_append ..

omit [DecidableEq T] in
theorem stores_ne_connected {a : TcpAct T} {state : TcpState} (hs : state ≠ .kConnected)
    (hs' : state ≠ .kConnecting) :
    a.stores state ≠ .kConnected ∧ a.stores state ≠ .kConnecting := by
  cases a with
  | call api => cases api <;> simp [TcpAct.stores, hs, hs']
  | _ => simp [TcpAct.stores, hs, hs']

omit [DecidableEq T] in
theorem appends_eq_nil {l : List (TcpAct T)} (h : ∀ a ∈ l, a.immediate = false) :
    l.flatMap TcpAct.appends = [] := by
  apply List.flatMap_eq_nil_iff.mpr
  intro a ha
  have := h a ha
  cases a <;> first | rfl | cases this

/-- The channel is due to be shut down because it was before, or because `output_` is empty. -/
theorem due_act {env : TcpEnv} {a : TcpAct T} {rest : List (TcpAct T)}
    (hw : s.stack none = a :: rest) (hdue : Due { (s.act none env a).1 with
      stack := Function.update s.stack none ((s.act none env a).2 ++ rest) }) :
    Due s ∨ (∀ p, a ≠ .append p) ∧ (s.act none env a).1.output_.readableBytes = 0 := by
  have hnext := act_next s none env a
  have hrest : ∀ b ∈ rest, b ∈ s.stack none := fun b hb => hw ▸ List.mem_cons_of_mem a hb
  have hhead : a ∈ s.stack none := hw ▸ List.mem_cons_self
  unfold Due at hdue
  dsimp only at hdue
  simp only [Function.update_self, List.mem_append, (act_effect s none env a).shutdowns] at hdue
  rcases hdue with (hnew | hold) | ⟨c, hnew | hold⟩ | hshut
  · obtain ⟨rfl, hz⟩ := hnext.checkDisconnecting_mem hnew
    exact .inr ⟨by simp, hz⟩
  · exact .inl (.inl (hrest _ hold))
  · generalize hres : (s.act none env a).2 = new at hnext hnew
    cases hnext with
    | checkDisconnecting => exact .inl (.inl hhead)
    | shutdownTask hz => exact .inr ⟨by simp, hz⟩
    | _ => simp at hnew
  · exact .inl (.inr (.inl ⟨c, hrest _ hold⟩))
  · cases a with
    | channelShutdown c => exact .inl (.inr (.inl ⟨c, hhead⟩))
    | _ => exact .inl (.inr (.inr (by simpa [TcpAct.shuts] using hshut)))

/-- A thread other than the loop's does not shut the channel down. -/
theorem due_caller {v : Option T} {env : TcpEnv} {a : TcpAct T} {new : List (TcpAct T)}
    (ha : a.Admissible v) (hv : v ≠ none) (hdue : Due { (s.act v env a).1 with
      stack := Function.update s.stack v new }) : Due s := by
  unfold Due at hdue ⊢
  dsimp only at hdue
  rw [Function.update_of_ne (Ne.symm hv), (act_effect s v env a).shutdowns] at hdue
  cases a with
  | channelShutdown => exact absurd ha hv
  | _ => simpa [TcpAct.shuts] using hdue

omit [DecidableEq T] in
/-- After the check of `handleSend` has begun to fail nothing more is appended. -/
theorem Next.appends {w : Option T} {env : TcpEnv} {a : TcpAct T} {new : List (TcpAct T)}
    (h : Next s w env a new) (hs : s.state_ ≠ .kConnected) :
    new.flatMap TcpAct.appends = [] := by
  cases h with
  | handleSend hc => exact absurd hc hs
  | callback =>
    apply List.flatMap_eq_nil_iff.mpr
    intro b hb
    obtain ⟨api, -, rfl⟩ := List.mem_map.mp hb
    rfl
  | _ => rfl

/-- What has passed the check of `handleSend` is accepted, unless the process ends. -/
theorem appending_act {v : Option T} {env : TcpEnv} {a : TcpAct T} {rest : List (TcpAct T)}
    (hs : Shaped s) (hc : s.state_ ≠ .kConnected) (hv : s.stack v = a :: rest)
    (hf : (s.act v env a).1.fatal = none) :
    (s.act v env a).1.accepted ++
        (Function.update s.stack v ((s.act v env a).2 ++ rest) none).flatMap TcpAct.appends =
      s.accepted ++ s.appending := by
  have hrest : ∀ b ∈ rest, b.immediate = false := by simpa [hv] using hs.immediate v
  have hnext := (act_next s v env a).appends hc
  by_cases ha : ∃ p, a = .append p
  · obtain ⟨p, rfl⟩ := ha
    have hloop : v = none := hs.admissible.head hv
    subst hloop
    have hcases := append_cases s p env
    simp only [act] at hf ⊢
    generalize s.append p env = r at hcases hf ⊢
    cases hcases with
    | accepted => simp [appending, hv, appends_eq_nil hrest, TcpAct.appends]
    | _ => cases hf
  · obtain ⟨acc, -, hacc, -, hfrom⟩ := act_progress s v env a
    obtain rfl : acc = [] :=
      List.eq_nil_iff_forall_not_mem.mpr fun p hp => ha ⟨p, hfrom p hp⟩
    rw [hacc, List.append_nil]
    by_cases hloop : v = none
    · subst hloop
      have hhead : a.appends = [] := by
        cases a with
        | append p => exact absurd ⟨p, rfl⟩ ha
        | _ => rfl
      simp [appending, hv, hnext, hhead, appends_eq_nil hrest]
    · rw [Function.update_of_ne (Ne.symm hloop)]
      rfl

theorem won_act {v : Option T} {env : TcpEnv} {a : TcpAct T} {rest : List (TcpAct T)}
    {w : Option T} {xs : List (Payload T)} (hs : Shaped s) (hst : Streamed (s.act v env a).1)
    (hf : s.fatal = none) (hwon : Won w xs s) (hv : s.stack v = a :: rest) :
    Won w xs { (s.act v env a).1 with
      stack := Function.update s.stack v ((s.act v env a).2 ++ rest) } := by
  have heff := act_effect s v env a
  obtain ⟨acc, l', hacc, hwritten, hfrom⟩ := act_progress s v env a
  have hstate := stores_ne_connected (a := a) hwon.connected hwon.connecting
  rw [← heff.state_] at hstate
  have hkeep : Due s → Flushed w xs { (s.act v env a).1 with
      stack := Function.update s.stack v ((s.act v env a).2 ++ rest) } := by
    intro hdue
    obtain ⟨l, m, heq, howed, hprefix⟩ := hwon.flushed hdue
    refine ⟨l, m ++ acc, ?_, howed, ?_⟩
    · dsimp only
      rw [hacc, heq, List.append_assoc]
    · dsimp only
      rw [hwritten]
      exact hprefix.trans (List.prefix_append _ _)
  refine ⟨hstate.1, hstate.2, fun hf' => ?_, fun hdue => ?_⟩
  · rw [← hwon.accepted hf, ← appending_act hs hwon.connected hv hf']
    rfl
  · by_cases hloop : v = none
    · subst hloop
      rcases due_act hv hdue with hdue | ⟨ha, hz⟩
      · exact hkeep hdue
      · -- everything accepted has been written, and nothing is being appended
        have hrest : ∀ b ∈ rest, b.immediate = false := by simpa [hv] using hs.immediate none
        obtain rfl : acc = [] :=
          List.eq_nil_iff_forall_not_mem.mpr fun p hp => ha p (hfrom p hp)
        have hhead : a.appends = [] := by
          cases a with
          | append p => exact absurd rfl (ha p)
          | _ => rfl
        have howed := hwon.accepted hf
        rw [appending, hv, List.flatMap_cons, hhead, appends_eq_nil hrest, List.append_nil,
          List.append_nil] at howed
        refine ⟨_, [], (List.append_nil _).symm, ?_, hst.written_eq hz ▸ List.prefix_refl _⟩
        dsimp only
        rw [hacc, List.append_nil]
        exact howed
    · exact hkeep (due_caller (hs.admissible.head hv) hloop hdue)

omit [DecidableEq T] in
/-- What is being appended while `handleWrite` has not finished comes from the loop's own thread. -/
theorem caller_of_appending (hs : Shaped s) (ha : Alone s)
    (hcheck : .checkDisconnecting ∈ s.stack none) : ∀ p ∈ s.appending, p.caller = none := by
  intro p hp
  obtain ⟨a, hmem, hpa⟩ := List.mem_flatMap.mp hp
  cases a with
  | append q =>
    obtain rfl := List.mem_singleton.mp hpa
    cases hw : s.stack none with
    | nil => simp [hw] at hmem
    | cons b rest =>
      have hrest : ∀ c ∈ rest, c.immediate = false := by simpa [hw] using hs.immediate none
      rw [hw] at hmem hcheck
      rcases List.mem_cons.mp hmem with rfl | hmem
      · apply (ha _ _ hw p (List.mem_singleton_self p)).resolve_right
        rintro rfl
        simp at hcheck
      · cases hrest _ hmem
  | _ => cases hpa

/-- The `Shutdown` that changes `state_`. -/
theorem won_shutdown {v : Option T} {env : TcpEnv} {c : Bool} {rest : List (TcpAct T)}
    (hs : Shaped s) (hst : Streamed s) (ha : Alone s) (hd : Drained s) (hn : NotShut s)
    (hg : SendsFirst (.act v env) s) (hc : s.state_ = .kConnected)
    (hv : s.stack v = .call (.shutdown c) :: rest) :
    Won v (owed v s.calls) { (s.act v env (.call (.shutdown c))).1 with
      stack := Function.update s.stack v
        ((s.act v env (.call (.shutdown c))).2 ++ rest) } := by
  obtain ⟨hsent, hinside⟩ := hg c (by simp [hv]) hc
  have hrest : ∀ b ∈ rest, b.immediate = false := by simpa [hv] using hs.immediate v
  have hact : s.act v env (.call (.shutdown c)) = ({ s with
      state_ := .kDisconnecting, winner := some (v, owed v s.calls) },
      [.submit (.shutdown c)]) := by simp [act, call, hc]
  rw [hact]
  have happending : (Function.update s.stack v ([.submit (.shutdown c)] ++ rest) none).flatMap
      TcpAct.appends = s.appending := by
    by_cases hloop : v = none
    · subst hloop
      simp [appending, hv, TcpAct.appends]
    · rw [Function.update_of_ne (Ne.symm hloop)]
      rfl
  refine ⟨by simp, by simp, fun _ => ?_, fun hdue => ?_⟩
  · rw [← hsent, ← happending]
    rfl
  · -- only the end of a `handleWrite` can shut the channel down now
    have hcheck : .checkDisconnecting ∈ s.stack none := by
      have hnot : ∀ c', .channelShutdown c' ∉ s.stack none := fun c' hmem =>
        absurd (hn.stack none _ hmem) (by simp [TcpAct.shutsDown])
      have hsame : ∀ b, b ∈ Function.update s.stack v ([.submit (.shutdown c)] ++ rest) none →
          b = .submit (.shutdown c) ∨ b ∈ s.stack none := by
        intro b hb
        by_cases hloop : v = none
        · subst hloop
          rw [Function.update_self, List.mem_append, List.mem_singleton] at hb
          exact hb.imp_right fun hb => hv ▸ List.mem_cons_of_mem _ hb
        · rw [Function.update_of_ne (Ne.symm hloop)] at hb
          exact .inr hb
      rcases hdue with hmem | ⟨c', hmem⟩ | hshut
      · exact (hsame _ hmem).resolve_left (by simp)
      · exact absurd ((hsame _ hmem).resolve_left (by simp)) (hnot c')
      · exact absurd hn.shutdowns hshut
    by_cases hloop : v = none
    · subst hloop
      have hnone : s.appending = [] := by
        simp [appending, hv, appends_eq_nil hrest, TcpAct.appends]
      rw [hnone, List.append_nil] at hsent
      exact ⟨_, [], (List.append_nil _).symm, hsent,
        hst.written_eq (hinside rfl hcheck) ▸ List.prefix_refl _⟩
    · obtain ⟨l, m, heq, hprefix, hcallers⟩ := hd hcheck
      have howed : ∀ k : List (Payload T), (∀ p ∈ k, p.caller = none) → owed v k = [] := by
        intro k hk
        apply List.filter_eq_nil_iff.mpr
        intro p hp
        simp [hk p hp, Ne.symm hloop]
      have hnone := caller_of_appending hs ha hcheck
      refine ⟨l, m, heq, ?_, hprefix⟩
      rw [← hsent, heq, owed_append, owed_append, howed m hcallers, howed _ hnone, List.append_nil,
        List.append_nil]

/-! ### Every run -/

/-- What holds along the runs in which the `Send`s come first. -/
structure Graceful (s : TcpConnection T) : Prop where
  shaped : Shaped s
  streamed : Streamed s
  forceless : Forceless s
  alone : Alone s
  drained : Drained s
  notShut : s.winner = none → NotShut s
  won : ∀ w xs, s.winner = some (w, xs) → Won w xs s

omit [DecidableEq T] in
/-- A task is past the check of `handleSend` only after its first act. -/
theorem appends_acts (task : TcpTask T) : task.acts.flatMap TcpAct.appends = [] := by
  apply List.flatMap_eq_nil_iff.mpr
  intro a ha
  have hbegins := begins_of_mem_acts ha
  cases a with
  | append => cases hbegins
  | _ => rfl

omit [DecidableEq T] in
theorem channelShutdown_mem_acts {task : TcpTask T} {c : Bool}
    (h : .channelShutdown c ∈ task.acts) : task = .forceShutdown := by
  cases task with
  | forceShutdown => rfl
  | handleEvents events => rcases mem_acts_handleEvents h with h | h | h | h <;> cases h
  | _ => simp [TcpTask.acts] at h

/-- Nobody gives the transition back. -/
theorem winner_of_none (h : step l s = some t) (hnone : t.winner = none) : s.winner = none := by
  obtain ⟨-, hmoves⟩ := moves_of_step h
  cases hmoves with
  | @act w env a rest hw =>
    dsimp only at hnone
    rcases winner_act s w env a with ⟨hsame, -⟩ | ⟨-, -, hwin⟩
    · rw [← hsame, hnone]
    · rw [hwin] at hnone
      cases hnone
  | _ => exact hnone

theorem won_step (hs : Graceful s) (hg : SendsFirst l s) (h : step l s = some t) {w : Option T}
    {xs : List (Payload T)} (hw : t.winner = some (w, xs)) : Won w xs t := by
  have hstreamed := streamed_step hs.streamed h
  obtain ⟨hfatal, hmoves⟩ := moves_of_step h
  cases hmoves with
  | call hidle =>
    have hwon := hs.won w xs hw
    refine ⟨hwon.connected, hwon.connecting, ?_, ?_⟩
    · simpa [appending] using hwon.accepted
    · simpa [Due, Flushed] using hwon.flushed
  | @act v env a rest hv =>
    rcases winner_act s v env a with ⟨hsame, -⟩ | ⟨⟨c, rfl⟩, hc, hwin⟩
    · refine won_act hs.shaped ?_ hfatal (hs.won w xs (hsame ▸ hw)) hv
      exact ⟨hstreamed.wellFormed, hstreamed.r_idx_, hstreamed.length_lt, hstreamed.bytes,
        hstreamed.fault⟩
    · have hnone : s.winner = none := by
        by_contra hne
        obtain ⟨⟨w', xs'⟩, hw'⟩ := Option.ne_none_iff_exists'.mp hne
        exact (hs.won w' xs' hw').connected hc
      obtain ⟨rfl, rfl⟩ : v = w ∧ owed v s.calls = xs := by simpa [hwin] using hw
      exact won_shutdown hs.shaped hs.streamed hs.alone hs.drained (hs.notShut hnone) hg hc hv
  | @task task queue hidle hq =>
    -- no task that is queued shuts the channel down without checking `output_` first
    have hwon := hs.won w xs hw
    refine ⟨hwon.connected, hwon.connecting, fun hf => ?_, fun hdue => hwon.flushed ?_⟩
    · have howed := hwon.accepted hfatal
      simpa [appending, hidle, appends_acts task] using howed
    · unfold Due at hdue
      dsimp only at hdue
      rw [Function.update_self] at hdue
      rcases hdue with hmem | ⟨c, hmem⟩ | hshut
      · exact absurd hmem (checkDisconnecting_not_mem_acts task)
      · obtain rfl := channelShutdown_mem_acts hmem
        exact absurd (hq ▸ List.mem_cons_self) hs.forceless.queue
      · exact .inr (.inr hshut)
  | collect =>
    have hwon := hs.won w xs hw
    exact ⟨hwon.connected, hwon.connecting, hwon.accepted, hwon.flushed⟩
  | dispatch =>
    have hwon := hs.won w xs hw
    exact ⟨hwon.connected, hwon.connecting, hwon.accepted, hwon.flushed⟩

theorem graceful_step (hs : Graceful s) (hu : Unforced l) (hg : SendsFirst l s)
    (h : step l s = some t) : Graceful t where
  shaped := shaped_step hs.shaped h
  streamed := streamed_step hs.streamed h
  forceless := forceless_step hs.forceless hu h
  alone := alone_step hs.shaped hs.alone h
  drained := drained_step hs.shaped hs.streamed hs.alone hs.drained h
  notShut := fun hnone =>
    notShut_step hs.forceless (hs.notShut (winner_of_none h hnone)) h hnone
  won := fun _ _ => won_step hs hg h

end Step

omit [DecidableEq T] in
theorem notShut_start (addr : Nat) (cells : Nat → UInt8) :
    NotShut (start addr cells : TcpConnection T) := by
  refine ⟨by simp [start], ?_, by simp [start], rfl⟩
  simp [Stacks.All, start]

theorem graceful_start (addr : Nat) (cells : Nat → UInt8) :
    Graceful (start addr cells : TcpConnection T) where
  shaped := shaped_start addr cells
  streamed := streamed_start addr cells
  forceless := ⟨by simp [Stacks.All, start], by simp [start]⟩
  alone := by simp [Alone, start]
  drained := by simp [Drained, start]
  notShut := fun _ => notShut_start addr cells
  won := by simp [start]

/-- **Graceful shutdown**: without `ForceShutdown`, `channel_->Shutdown` is only called when all
that the caller of `Shutdown` had sent is written, if every `Shutdown` that changes `state_` finds
the `Send`s of its caller past the check of `handleSend` (and `output_` empty, if it comes from inside
`OnWriteComplete`). -/
theorem flushedFirst (addr : Nat) (cells : Nat → UInt8) (ls : List (TcpLabel T))
    (h : (tcpConnection T).AllSteps (fun l s => Unforced l ∧ SendsFirst l s) ls
      (start addr cells)) :
    (tcpConnection T).AllStates FlushedFirst ls (start addr cells) := by
  refine h.allStates (I := Graceful) (fun l s t hs hg ht => graceful_step hs hg.1 hg.2 ht) ?_
    (graceful_start addr cells)
  intro s hs hshut
  cases hw : s.winner with
  | none => exact absurd (hs.notShut hw).shutdowns hshut
  | some x => exact ⟨x.1, x.2, rfl, (hs.won x.1 x.2 hw).flushed (.inr (.inr hshut))⟩

instance (w : Option T) (xs : List (Payload T)) (s : TcpConnection T) : Decidable (Flushed w xs s) :=
  decidable_of_iff (∃ l ∈ s.accepted.inits, owed w l = xs ∧ payloadBytes l <+: s.written) <| by
    constructor
    · rintro ⟨l, hl, howed, hprefix⟩
      obtain ⟨m, hm⟩ := (List.mem_inits _ _).mp hl
      exact ⟨l, m, hm.symm, howed, hprefix⟩
    · rintro ⟨l, m, heq, howed, hprefix⟩
      exact ⟨l, (List.mem_inits _ _).mpr ⟨m, heq.symm⟩, howed, hprefix⟩

instance : DecidablePred (FlushedFirst (T := T)) := fun s =>
  decidable_of_iff (s.shutdowns = [] ∨ ∃ x ∈ s.winner, Flushed x.1 x.2 s) <| by
    rw [FlushedFirst, ← or_iff_not_imp_left]
    simp [Prod.exists]

omit [DecidableEq T] in
instance : DecidablePred (Unforced (T := T))
  | .call _ _ => inferInstanceAs (Decidable (_ ≠ _))
  | .act _ _ => inferInstanceAs (Decidable (_ ∉ _))
  | .task | .collect _ | .dispatch => .isTrue trivial

instance (l : TcpLabel T) (s : TcpConnection T) : Decidable (SendsFirst l s) :=
  match l with
  | .act _ _ => inferInstanceAs (Decidable (∀ _, _ → _ → _ ∧ (_ → _ → _)))
  | .call _ _ | .task | .collect _ | .dispatch => .isTrue trivial

/-- Two bytes are sent, handled and written, and then the connection is shut down. -/
def sendThenShutdown : List (TcpLabel Unit) :=
  runTask 5 ++ runCall () (.send twoBytes) 2 ++ runTask 4 ++
    runCall () (.shutdown true) 2 ++ runTask 1 ++ [.collect Events.EPOLLOUT, .dispatch] ++ runTask 6

theorem flushedFirst_sendThenShutdown :
    (tcpConnection Unit).AllStates FlushedFirst sendThenShutdown (start 0 fun _ => 0) :=
  flushedFirst 0 _ sendThenShutdown (by decide +kernel)

/-- A thread sends two bytes and shuts the connection down before the loop handles either. -/
def shutdownOvertakes : List (TcpLabel Unit) :=
  runTask 5 ++ runCall () (.send twoBytes) 2 ++ runCall () (.shutdown true) 2 ++
    runTask 1 ++ runTask 4

/-- The bytes are dropped, and the channel is shut down. -/
theorem shutdownOvertakes_not_flushed :
    ¬ (tcpConnection Unit).AllStates FlushedFirst shutdownOvertakes (start 0 fun _ => 0) := by
  decide +kernel

end TcpConnection

end Lizlib
