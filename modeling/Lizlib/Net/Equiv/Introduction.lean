import Lizlib.Net.Equiv.CallbackOrder

/-!
# How a connection is introduced

From its creation a connection passes through `Phase`s: the task of `Start` is queued, it runs up to
the compare-exchange, `OnConnect` runs (`Greeting`), and from then on nothing of `Start` is left.
It is not connected as long as the compare-exchange is to come (`Awaiting`), and it does not go back
(`Advance`).
-/

namespace Lizlib

/-- The acts that come from a call of the connection by its handler. -/
def TcpAct.nested {T : Type*} : TcpAct T → Bool
  | .call _ | .submit _ | .storeDisconnected | .storeDisconnecting | .handleSend _ | .append _
  | .setWritable _ | .update _ => true
  | .callback cb => cb = .onConnect
  | _ => false

/-- The acts of `Start` that come once. -/
def TcpAct.introduces {T : Type*} : TcpAct T → Bool
  | .connect => true
  | .setReadable on => on
  | _ => false

namespace TcpConnection

open Function (update)

variable {T : Type*}

/-- The compare-exchange of `Start` is to come. -/
def Awaiting (s : TcpConnection T) : Prop := .start ∈ s.queue ∨ .connect ∈ s.stack none

/-- The loop's thread is in `OnConnect`, or has just returned from it. -/
def Greeting (s : TcpConnection T) : Prop := .setReadable true ∈ s.stack none

/-- How far a connection has come. -/
inductive Phase (s : TcpConnection T) : Prop
  | queued {rest : List (TcpTask T)} (hstack : s.stack none = [])
      (hqueue : s.queue = .start :: rest) (hrest : .start ∉ rest) (hstate : s.state_ ≠ .kConnected)
  | adding (hstack : s.stack none = [.addChannel, .connect]) (hqueue : .start ∉ s.queue)
      (hstate : s.state_ ≠ .kConnected)
  | connecting (hstack : s.stack none = [.connect]) (hqueue : .start ∉ s.queue)
      (hstate : s.state_ ≠ .kConnected)
  | greeting {new : List (TcpAct T)} (hstack : s.stack none = new ++ [.setReadable true])
      (hnew : ∀ a ∈ new, a.nested = true) (hqueue : .start ∉ s.queue)
      (hopened : .callback .onConnect ∈ new ∨ Opened s)
  | settled (hstack : ∀ a ∈ s.stack none, a.introduces = false) (hqueue : .start ∉ s.queue)
      (hclear : .clearConn ∈ s.stack none → s.state_ ≠ .kConnected)

theorem phase_start (addr : Nat) (cells : Nat → UInt8) :
    Phase (start addr cells : TcpConnection T) :=
  .queued rfl rfl List.not_mem_nil (by simp [start])

section Phase

variable {s : TcpConnection T} (hp : Phase s)

include hp

/-- **Before the compare-exchange** the connection is not connected. -/
theorem Phase.awaiting (h : Awaiting s) :
    s.state_ ≠ .kConnected ∧ ¬ Greeting s ∧ .clearConn ∉ s.stack none := by
  cases hp with
  | queued hstack _ _ hstate => exact ⟨hstate, by simp [Greeting, hstack], by simp [hstack]⟩
  | adding hstack _ hstate => exact ⟨hstate, by simp [Greeting, hstack], by simp [hstack]⟩
  | connecting hstack _ hstate => exact ⟨hstate, by simp [Greeting, hstack], by simp [hstack]⟩
  | @greeting new hstack hnew hqueue =>
    rcases h with h | h
    · exact absurd h hqueue
    · rw [hstack, List.mem_append] at h
      rcases h with h | h
      · cases hnew _ h
      · cases List.mem_singleton.mp h
  | settled hstack hqueue =>
    rcases h with h | h
    · exact absurd h hqueue
    · cases hstack _ h

theorem Phase.greeting_inv (h : Greeting s) :
    ∃ new, s.stack none = new ++ [.setReadable true] ∧ (∀ a ∈ new, a.nested = true) ∧
      .start ∉ s.queue ∧ (.callback .onConnect ∈ new ∨ Opened s) := by
  cases hp with
  | queued hstack => simp [Greeting, hstack] at h
  | adding hstack => simp [Greeting, hstack] at h
  | connecting hstack => simp [Greeting, hstack] at h
  | greeting hstack hnew hqueue hopened => exact ⟨_, hstack, hnew, hqueue, hopened⟩
  | settled hstack => cases hstack _ h

/-- When `OnConnect` has returned, nothing else is on the stack. -/
theorem Phase.greeting_head (h : (s.stack none).head? = some (.setReadable true)) :
    s.stack none = [.setReadable true] ∧ Opened s := by
  obtain ⟨new, hstack, hnew, -, hopened⟩ := hp.greeting_inv (List.mem_of_mem_head? h)
  cases new with
  | nil => exact ⟨hstack, hopened.resolve_left List.not_mem_nil⟩
  | cons a new =>
    rw [hstack, List.cons_append, List.head?_cons, Option.some.injEq] at h
    have := hnew a List.mem_cons_self
    rw [h] at this
    cases this

/-- **`OnClose` comes later** than `OnConnect`, and to a connection that is not connected. -/
theorem Phase.clear (h : .clearConn ∈ s.stack none) : s.state_ ≠ .kConnected ∧ ¬ Greeting s := by
  cases hp with
  | queued hstack => simp [hstack] at h
  | adding hstack => simp [hstack] at h
  | connecting hstack => simp [hstack] at h
  | @greeting new hstack hnew =>
    rw [hstack, List.mem_append] at h
    rcases h with h | h
    · cases hnew _ h
    · cases List.mem_singleton.mp h
  | settled hstack _ hclear =>
    refine ⟨hclear h, fun hg => ?_⟩
    cases hstack _ hg

end Phase

/-! ### Steps -/

/-- What a step does to the phase. -/
structure Advance (l : TcpLabel T) (s t : TcpConnection T) : Prop where
  phase : Phase t
  awaiting : Awaiting t → Awaiting s
  greeting : Greeting t → Greeting s ∨ Awaiting s
  greeted : Greeting s → ¬ Greeting t →
    (∃ env, l = .act none env) ∧ s.stack none = [.setReadable true]
  connected : t.state_ = .kConnected → s.state_ = .kConnected ∨ Awaiting s ∧ Greeting t

theorem Next.nested {s : TcpConnection T} {w : Option T} {env : TcpEnv} {a : TcpAct T}
    {new : List (TcpAct T)} (h : Next s w env a new) (ha : a.nested = true) :
    ∀ b ∈ new, b.nested = true := by
  cases h with
  | callback =>
    intro b hb
    obtain ⟨api, -, rfl⟩ := List.mem_map.mp hb
    rfl
  | connect | setReadable | readFailed | readEnd | readData | writeFailed | drained | handleError
    | handleClose | handleRemove | checkDisconnecting | closeTask | shutdownTask => cases ha
  | _ => simp [TcpAct.nested]

theorem Next.introduces {s : TcpConnection T} {w : Option T} {env : TcpEnv} {a : TcpAct T}
    {new : List (TcpAct T)} (h : Next s w env a new) (ha : a.introduces = false) :
    ∀ b ∈ new, b.introduces = false := by
  cases h with
  | callback =>
    intro b hb
    obtain ⟨api, -, rfl⟩ := List.mem_map.mp hb
    rfl
  | connect => cases ha
  | _ => simp [TcpAct.introduces]

theorem introduces_acts {task : TcpTask T} (h : task ≠ .start) :
    ∀ a ∈ task.acts, a.introduces = false := by
  cases task with
  | start => exact absurd rfl h
  | handleEvents events =>
    intro a ha
    rcases mem_acts_handleEvents ha with rfl | rfl | rfl | rfl <;> rfl
  | _ => simp [TcpTask.acts, TcpAct.introduces]

theorem start_notMem_submits {a : TcpAct T} {w : Option T} (ha : a.Admissible w) :
    .start ∉ a.submits := by
  intro hmem
  rw [mem_submits hmem] at ha
  exact ha

theorem clearConn_of_next {s : TcpConnection T} {w : Option T} {env : TcpEnv} {a : TcpAct T}
    {new : List (TcpAct T)} (h : Next s w env a new) (hmem : .clearConn ∈ new) :
    a = .handleRemove ∧ s.state_ = .kDisconnected := by
  cases h with
  | handleRemove hs => exact ⟨rfl, hs⟩
  | callback =>
    obtain ⟨api, -, h⟩ := List.mem_map.mp hmem
    cases h
  | _ => simp at hmem

theorem clearConn_notMem_acts (task : TcpTask T) : .clearConn ∉ task.acts := by
  intro h
  have hbegins := begins_of_mem_acts h
  cases hbegins

/-- A step that leaves the loop's thread alone. -/
theorem Advance.frame {l : TcpLabel T} {s t : TcpConnection T} {tasks : List (TcpTask T)}
    (hp : Phase s) (hstack : t.stack none = s.stack none) (hqueue : t.queue = s.queue ++ tasks)
    (htasks : .start ∉ tasks) (hstate : t.state_ = .kConnected → s.state_ = .kConnected)
    (hopened : Opened s → Opened t) : Advance l s t := by
  have hgreeting : Greeting t ↔ Greeting s := by rw [Greeting, Greeting, hstack]
  have hstart : .start ∈ t.queue ↔ .start ∈ s.queue := by
    rw [hqueue, List.mem_append, or_iff_left htasks]
  have hstate' : s.state_ ≠ .kConnected → t.state_ ≠ .kConnected := fun hs ht => hs (hstate ht)
  refine ⟨?_, ?_, fun hg => .inl (hgreeting.mp hg), fun hs ht => absurd (hgreeting.mpr hs) ht,
    fun ht => .inl (hstate ht)⟩
  · cases hp with
    | @queued rest hs hq hrest hc =>
      refine .queued (hstack.trans hs) (?_ : _ = .start :: (rest ++ tasks)) ?_ (hstate' hc)
      · rw [hqueue, hq, List.cons_append]
      · rw [List.mem_append]
        exact not_or.mpr ⟨hrest, htasks⟩
    | adding hs hq hc => exact .adding (hstack.trans hs) (mt hstart.mp hq) (hstate' hc)
    | connecting hs hq hc => exact .connecting (hstack.trans hs) (mt hstart.mp hq) (hstate' hc)
    | greeting hs hnew hq hop =>
      exact .greeting (hstack.trans hs) hnew (mt hstart.mp hq) (hop.imp_right hopened)
    | settled hs hq hclear =>
      refine .settled ?_ (mt hstart.mp hq) ?_
      · rw [hstack]
        exact hs
      · rw [hstack]
        exact fun hmem => hstate' (hclear hmem)
  · rw [Awaiting, Awaiting, hstart, hstack]
    exact id

/-- Nothing of `Start` is left. -/
theorem Advance.settle {l : TcpLabel T} {s t : TcpConnection T}
    (hstack : ∀ b ∈ t.stack none, b.introduces = false) (hqueue : .start ∉ t.queue)
    (hclear : .clearConn ∈ t.stack none → t.state_ ≠ .kConnected)
    (hgreeted : Greeting s → (∃ env, l = .act none env) ∧ s.stack none = [.setReadable true])
    (hconnected : t.state_ = .kConnected → s.state_ = .kConnected) : Advance l s t := by
  refine ⟨.settled hstack hqueue hclear, ?_, ?_, fun hg _ => hgreeted hg,
    fun ht => .inl (hconnected ht)⟩
  · rintro (h | h)
    · exact absurd h hqueue
    · cases hstack _ h
  · intro hg
    cases hstack _ hg

section Act

variable {s t : TcpConnection T} {env : TcpEnv} {a : TcpAct T} {new rest : List (TcpAct T)}
  {conn : Bool} (hw : s.stack none = a :: rest) (hstack : t.stack none = new ++ rest)
  (hnext : Next s none env a new) (hqueue : .start ∈ t.queue ↔ .start ∈ s.queue)
  (hstate : t.state_ = a.stores s.state_)

include hw hstack hnext hqueue hstate

omit hnext hqueue hw hstack in
theorem connected_of_act (ha : a ≠ .connect) (ht : t.state_ = .kConnected) :
    s.state_ = .kConnected := by
  rw [hstate] at ht
  exact (stores_kConnected ht).resolve_right fun h => ha h.1

/-- **The compare-exchange** lets the connection in, unless somebody has stored to `state_`. -/
theorem advance_connect (ha : a = .connect) (hrest : rest = []) (hstart : .start ∉ s.queue)
    (hnew : s.state_ = .kConnecting → new = [.callback .onConnect, .setReadable true]) :
    Advance (.act none env) s t := by
  subst ha hrest
  have hawaiting : Awaiting s := .inr (by simp [hw])
  have hgreeted : ¬ Greeting s := by simp [Greeting, hw]
  rw [List.append_nil] at hstack
  by_cases hk : s.state_ = .kConnecting
  · rw [hnew hk] at hstack
    have hcalls : t.stack none = [.callback .onConnect] ++ [.setReadable true] := hstack
    refine ⟨.greeting hcalls (by simp [TcpAct.nested])
      (mt hqueue.mp hstart) (.inl List.mem_cons_self), fun _ => hawaiting, fun _ => .inr hawaiting,
      fun hg => absurd hg hgreeted, fun _ => .inr ⟨hawaiting, ?_⟩⟩
    simp [Greeting, hstack]
  · have hnil : new = [] := by
      cases hnext with
      | nil => rfl
      | connect hs => exact absurd hs hk
    rw [hnil] at hstack
    refine .settle (by simp [hstack]) (mt hqueue.mp hstart) (by simp [hstack])
      (fun hg => absurd hg hgreeted) fun ht => ?_
    rwa [hstate, TcpAct.stores, if_neg hk] at ht

/-- `OnConnect` has returned. -/
theorem advance_greeted (ha : a = .setReadable true) (hrest : rest = [])
    (hstart : .start ∉ s.queue) : Advance (.act none env) s t := by
  subst ha hrest
  rw [List.append_nil] at hstack
  refine .settle ?_ (mt hqueue.mp hstart) ?_ (fun _ => ⟨⟨env, rfl⟩, hw⟩) fun ht => ?_
  · rw [hstack]
    cases hnext with
    | nil => simp
    | setReadable => simp [TcpAct.introduces]
  · rw [hstack]
    intro hmem
    cases (clearConn_of_next hnext hmem).1
  · rwa [hstate] at ht

/-- A call from inside `OnConnect`. -/
theorem advance_greeting {calls : List (TcpAct T)} (hrest : rest = calls ++ [.setReadable true])
    (ha : a.nested = true) (hcalls : ∀ b ∈ calls, b.nested = true) (hstart : .start ∉ s.queue)
    (hopened : .callback .onConnect ∈ new ++ calls ∨ Opened t) : Advance (.act none env) s t := by
  subst hrest
  have hgreeting : Greeting s := by simp [Greeting, hw]
  have hne : a ≠ .connect := by
    rintro rfl
    cases ha
  have hnested : ∀ b ∈ new ++ calls, b.nested = true := by
    intro b hb
    rcases List.mem_append.mp hb with hb | hb
    · exact hnext.nested ha b hb
    · exact hcalls b hb
  rw [← List.append_assoc] at hstack
  refine ⟨.greeting hstack hnested (mt hqueue.mp hstart) hopened, ?_, fun _ => .inl hgreeting,
    fun _ hnot => absurd ?_ hnot, fun ht => .inl (connected_of_act hstate hne ht)⟩
  · rintro (h | h)
    · exact absurd (hqueue.mp h) hstart
    · rw [hstack] at h
      rcases List.mem_append.mp h with h | h
      · cases hnested _ h
      · cases List.mem_singleton.mp h
  · simp [Greeting, hstack]

/-- Nothing of `Start` comes back. -/
theorem advance_settled (hs : ∀ b ∈ s.stack none, b.introduces = false) (hstart : .start ∉ s.queue)
    (hclear : .clearConn ∈ s.stack none → s.state_ ≠ .kConnected) :
    Advance (.act none env) s t := by
  rw [hw] at hs hclear
  have ha := hs a List.mem_cons_self
  have hne : a ≠ .connect := by
    rintro rfl
    cases ha
  refine .settle ?_ (mt hqueue.mp hstart) ?_ (fun hg => ?_) (connected_of_act hstate hne)
  · rw [hstack]
    intro b hb
    rcases List.mem_append.mp hb with hb | hb
    · exact hnext.introduces ha b hb
    · exact hs b (List.mem_cons_of_mem a hb)
  · intro hmem ht
    have hconnected := connected_of_act hstate hne ht
    rw [hstack] at hmem
    rcases List.mem_append.mp hmem with hmem | hmem
    · cases (clearConn_of_next hnext hmem).2.symm.trans hconnected
    · exact hclear (List.mem_cons_of_mem a hmem) hconnected
  · rw [Greeting, hw] at hg
    cases hs _ hg

end Act

variable [DecidableEq T] {l : TcpLabel T} {s t : TcpConnection T}

/-- An act of the loop's thread. -/
theorem advance_act {env : TcpEnv} {a : TcpAct T} {rest : List (TcpAct T)} (hs : Shaped s)
    (hp : Phase s) (hw : s.stack none = a :: rest) :
    Advance (.act none env) s { (s.act none env a).1 with
      stack := update s.stack none ((s.act none env a).2 ++ rest) } := by
  have heff := act_effect s none env a
  have hnext := act_next s none env a
  have hsubmits := start_notMem_submits (hs.admissible.head hw)
  have hqueue : .start ∈ (s.act none env a).1.queue ↔ .start ∈ s.queue := by
    rw [heff.queue, List.mem_append, or_iff_left hsubmits]
  have hself := Function.update_self none ((s.act none env a).2 ++ rest) s.stack
  cases hp with
  | queued hstack =>
    rw [hw] at hstack
    cases hstack
  | adding hstack hstart hstate =>
    obtain ⟨rfl, rfl⟩ := List.cons.inj (hw.symm.trans hstack)
    refine ⟨.connecting hself hstart hstate, ?_, ?_, ?_, .inl⟩
    · exact fun _ => .inr (by simp [hw])
    · exact fun _ => .inr (.inr (by simp [hw]))
    · intro hg
      simp [Greeting, hw] at hg
  | connecting hstack hstart =>
    obtain ⟨ha, hrest⟩ := List.cons.inj (hw.symm.trans hstack)
    refine advance_connect hw hself hnext hqueue heff.state_ ha hrest hstart fun hk => ?_
    rw [ha, act, if_pos hk]
  | @greeting new hstack hnew hstart hopened =>
    cases new with
    | nil =>
      obtain ⟨ha, hrest⟩ := List.cons.inj (hw.symm.trans hstack)
      exact advance_greeted hw hself hnext hqueue heff.state_ ha hrest hstart
    | cons b new =>
      obtain ⟨rfl, hrest⟩ := List.cons.inj (hw.symm.trans hstack)
      refine advance_greeting hw hself hnext hqueue heff.state_ hrest
        (hnew a List.mem_cons_self) (fun b hb => hnew b (List.mem_cons_of_mem a hb)) hstart ?_
      rcases hopened with hmem | ⟨conn, hmem⟩
      · rcases List.mem_cons.mp hmem with rfl | hmem
        · exact .inr ⟨s.conn_, heff.delivered ▸ List.mem_append_right _ List.mem_cons_self⟩
        · exact .inl (List.mem_append_right _ hmem)
      · exact .inr ⟨conn, heff.delivered ▸ List.mem_append_left _ hmem⟩
  | settled hstack hstart hclear =>
    exact advance_settled hw hself hnext hqueue heff.state_ hstack hstart hclear

/-- **A step** leads from one phase to the next, or leaves the connection where it is. -/
theorem advance_step (hs : Shaped s) (hp : Phase s) (h : step l s = some t) : Advance l s t := by
  have hopened := fun ho : Opened s => opened_step ho h
  obtain ⟨-, hmoves⟩ := moves_of_step h
  cases hmoves with
  | @call u api hidle =>
    have hstack : update s.stack (some u) [.call api] none = s.stack none :=
      Function.update_of_ne (Option.some_ne_none u).symm _ _
    exact .frame hp hstack (List.append_nil _).symm List.not_mem_nil id hopened
  | @act w env a rest hw =>
    by_cases hnone : w = none
    · subst hnone
      exact advance_act hs hp hw
    · have heff := act_effect s w env a
      have hadm := hs.admissible.head hw
      refine .frame hp (Function.update_of_ne (Ne.symm hnone) _ _) heff.queue
        (start_notMem_submits hadm) (fun ht => ?_) hopened
      replace ht : (s.act w env a).1.state_ = .kConnected := ht
      rw [heff.state_] at ht
      refine (stores_kConnected ht).resolve_right ?_
      rintro ⟨rfl, -⟩
      exact hnone hadm
  | @task task queue hidle hq =>
    have hself := Function.update_self none task.acts s.stack
    cases hp with
    | queued _ hqueue hrest hstate =>
      obtain ⟨rfl, rfl⟩ := List.cons.inj (hq.symm.trans hqueue)
      have hawaiting : Awaiting s := .inl (hq ▸ List.mem_cons_self)
      refine ⟨.adding hself hrest hstate, fun _ => hawaiting, fun _ => .inr hawaiting, ?_, .inl⟩
      simp [Greeting, hidle]
    | adding hstack => simp [hidle] at hstack
    | connecting hstack => simp [hidle] at hstack
    | greeting hstack => simp [hidle] at hstack
    | settled hstack hqueue =>
      have htask : task ≠ .start := by
        rintro rfl
        exact hqueue (hq ▸ List.mem_cons_self)
      have hrest : .start ∉ queue := fun hmem => hqueue (hq ▸ List.mem_cons_of_mem _ hmem)
      refine .settle ?_ hrest ?_ ?_ id
      · show ∀ b ∈ update s.stack none task.acts none, _
        rw [hself]
        exact introduces_acts htask
      · show .clearConn ∈ update s.stack none task.acts none → _
        rw [hself]
        exact fun hmem => absurd hmem (clearConn_notMem_acts task)
      · simp [Greeting, hidle]
  | collect => exact .frame hp rfl (List.append_nil _).symm List.not_mem_nil id hopened
  | dispatch => exact .frame hp rfl rfl (by simp) id hopened

theorem introduced_of_reachable (h : (tcpConnection T).Reachable s) : Shaped s ∧ Phase s := by
  refine h.invariant (I := fun s => Shaped s ∧ Phase s) ?_ fun l s t hs _ ht =>
    ⟨shaped_step hs.1 ht, (advance_step hs.1 hs.2 ht).phase⟩
  rintro s ⟨addr, cells, rfl⟩
  exact ⟨shaped_start addr cells, phase_start addr cells⟩

omit [DecidableEq T] in
/-- **Between two tasks**, once the task of `Start` has run. -/
theorem Phase.idle (hp : Phase s) (hidle : s.stack none = [])
    (hqueue : s.queue.head? ≠ some .start) : ¬ Awaiting s ∧ ¬ Greeting s := by
  have hgreeting : ¬ Greeting s := by simp [Greeting, hidle]
  refine ⟨?_, hgreeting⟩
  cases hp with
  | queued _ hq => exact absurd (by rw [hq, List.head?_cons]) hqueue
  | adding hstack => simp [hidle] at hstack
  | connecting hstack => simp [hidle] at hstack
  | greeting hstack => simp [hidle] at hstack
  | settled _ hq => simp [Awaiting, hq, hidle]

theorem conn_act {w : Option T} {env : TcpEnv} {a : TcpAct T} (ha : a ≠ .clearConn) :
    (s.act w env a).1.conn_ = s.conn_ := by
  cases a with
  | clearConn => exact absurd rfl ha
  | call api =>
    obtain ⟨st, c, x, hcall⟩ := call_frame s w api
    rw [act, hcall]
  | append p =>
    have h := append_cases s p env
    rw [act]
    generalize s.append p env = r at h ⊢
    cases h <;> rfl
  | handleWrite =>
    have h := handleWrite_cases s env
    rw [act]
    generalize s.handleWrite env = r at h ⊢
    cases h <;> rfl
  | _ =>
    rw [act]
    repeat' split
    all_goals rfl

/-- Only the end of `handleRemove` takes the connection out of its context. -/
theorem conn_of_step (hs : Shaped s) (h : step l s = some t) :
    t.conn_ = s.conn_ ∨
      (∃ env, l = .act none env) ∧ (s.stack none).head? = some .clearConn := by
  obtain ⟨-, hmoves⟩ := moves_of_step h
  cases hmoves with
  | @act w env a rest hw =>
    by_cases ha : a = .clearConn
    · subst ha
      obtain rfl : w = none := hs.admissible.head hw
      exact .inr ⟨⟨env, rfl⟩, by rw [hw, List.head?_cons]⟩
    · exact .inl (conn_act ha)
  | _ => exact .inl rfl

end TcpConnection

end Lizlib
