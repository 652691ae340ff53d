import Lizlib.Common.Equiv.BufferFile
import Lizlib.Net.Equiv.TcpConnection

/-!
# The output stream of a connection

* `streamed_step`: the bytes written to the socket, followed by the readable bytes of `output_`,
  are the bytes `handleSend` has accepted, and they stay at the front of the block.
* `ordered_step`: what a thread has sent is accepted in the order of its calls.
* `outputStream`: both along every schedule, and that what `handleSend` finds the connection
  connected for is accepted as long as there is memory.
-/

namespace Lizlib

variable {T : Type*}

/-- What an act has yet to hand to `handleSend`, or to append. -/
def TcpAct.payloads : TcpAct T → List (Payload T)
  | .submit (.handleSend p) | .handleSend p | .append p => [p]
  | _ => []

/-- What a queued task has yet to hand to `handleSend`. -/
def TcpTask.payloads : TcpTask T → List (Payload T)
  | .handleSend p => [p]
  | _ => []

/-! ### The bytes -/

@[simp] theorem payloadBytes_append (l m : List (Payload T)) :
    payloadBytes (l ++ m) = payloadBytes l ++ payloadBytes m := List.flatMap_append

@[simp] theorem payloadBytes_singleton (p : Payload T) : payloadBytes [p] = p.buffer.1 := by
  simp [payloadBytes]

namespace TcpConnection

/-- The bytes written and the readable bytes of `output_` are the accepted ones, and the readable
bytes are at the front of the block. -/
structure Streamed (s : TcpConnection T) : Prop where
  wellFormed : s.output_.WellFormed
  r_idx_ : s.output_.r_idx_ = 0
  length_lt : s.output_.length_ < 2 ^ 63
  bytes : s.written ++ s.output_.readable = payloadBytes s.accepted
  fault : ∀ f, s.fatal = some (.output f) → f = .diverge

theorem Streamed.readableBytes_eq {s : TcpConnection T} (h : Streamed s) :
    s.output_.readableBytes = s.output_.readable.length := by
  rw [h.wellFormed.readableBytes_eq, h.wellFormed.length_readable]

theorem streamed_handleWrite {s : TcpConnection T} (h : Streamed s) (env : TcpEnv) :
    Streamed (s.handleWrite env).1 := by
  have hcases := handleWrite_cases s env
  generalize s.handleWrite env = r at hcases ⊢
  cases hcases with
  | notWritable => exact ⟨h.wellFormed, h.r_idx_, h.length_lt, h.bytes, by simp⟩
  | failed | empty => exact h
  | noLoad hn hl =>
    rw [h.readableBytes_eq] at hn
    cases (h.wellFormed.load_front hn).symm.trans hl
  | noRetrieve hn hb =>
    rw [h.readableBytes_eq] at hn
    obtain ⟨c, hc, -⟩ := h.wellFormed.retrieve_spec hn true
    cases hc.symm.trans hb
  | wrote hn hl hb =>
    rw [h.readableBytes_eq] at hn
    obtain ⟨c, hc, hwf, hread, hzero, hlen⟩ := h.wellFormed.retrieve_spec hn true
    obtain rfl := Except.ok.inj (hc.symm.trans hb)
    obtain rfl := Except.ok.inj ((h.wellFormed.load_front hn).symm.trans hl)
    refine ⟨hwf, hzero rfl, hlen ▸ h.length_lt, ?_, h.fault⟩
    dsimp only
    rw [hread, List.append_assoc, List.take_append_drop]
    exact h.bytes

theorem streamed_append {s : TcpConnection T} (h : Streamed s) (p : Payload T) (env : TcpEnv) :
    Streamed (s.append p env).1 := by
  have hfront := h.wellFormed.append_front h.r_idx_ h.length_lt p.buffer.2 env.memory.2
  have hcases := append_cases s p env
  generalize s.append p env = r at hcases ⊢
  cases hcases with
  | fault hf =>
    rw [hf] at hfront
    cases hfront
    exact ⟨h.wellFormed, h.r_idx_, h.length_lt, h.bytes, by simp⟩
  | full hf hret =>
    rw [hf] at hfront
    cases hfront with
    | noMemory => exact ⟨h.wellFormed, h.r_idx_, h.length_lt, h.bytes, by simp⟩
    | appended => exact absurd rfl hret
  | accepted hf =>
    rw [hf] at hfront
    cases hfront with
    | appended hwf hzero hlen hread =>
      refine ⟨hwf, hzero, hlen, ?_, h.fault⟩
      dsimp only
      rw [hread, ← List.append_assoc, h.bytes, payloadBytes_append, payloadBytes_singleton]

variable [DecidableEq T]

theorem streamed_step {l : TcpLabel T} {s t : TcpConnection T} (hs : Streamed s)
    (h : step l s = some t) : Streamed t := by
  obtain ⟨hfatal, hmoves⟩ := moves_of_step h
  cases hmoves with
  | @act w env a rest hw =>
    suffices hact : Streamed (s.act w env a).1 from
      ⟨hact.wellFormed, hact.r_idx_, hact.length_lt, hact.bytes, hact.fault⟩
    cases a with
    | handleWrite => exact streamed_handleWrite hs env
    | append p => exact streamed_append hs p env
    | call api =>
      obtain ⟨st, c, x, hcall⟩ := call_frame s w api
      simp only [act, hcall]
      exact ⟨hs.wellFormed, hs.r_idx_, hs.length_lt, hs.bytes, hs.fault⟩
    | _ =>
      simp only [act, setEvents]
      repeat' split
      all_goals exact ⟨hs.wellFormed, hs.r_idx_, hs.length_lt, hs.bytes, by simp [hfatal]⟩
  | _ => exact ⟨hs.wellFormed, hs.r_idx_, hs.length_lt, hs.bytes, hs.fault⟩

/-! ### The order -/

/-- What thread `w` has sent, as far as it has been accepted or still can be: in `output_`, with the
loop's thread, on the queue, and with `w` itself. -/
def lane (w : Option T) (s : TcpConnection T) : List (Payload T) :=
  sentBy w (s.accepted ++ (s.stack none).flatMap TcpAct.payloads ++
    s.queue.flatMap TcpTask.payloads ++
    if w = none then [] else (s.stack w).flatMap TcpAct.payloads)

/-- What a thread has sent is in the order of its calls. -/
def Ordered (s : TcpConnection T) : Prop := ∀ w, (lane w s).Sublist (sentBy w s.calls)

@[simp] theorem sentBy_append (w : Option T) (l m : List (Payload T)) :
    sentBy w (l ++ m) = sentBy w l ++ sentBy w m := List.filter_append ..

@[simp] theorem sentBy_nil (w : Option T) : sentBy w [] = [] := rfl

theorem sentBy_eq_nil {w : Option T} {l : List (Payload T)} (h : ∀ p ∈ l, p.caller ≠ w) :
    sentBy w l = [] := by
  simpa [sentBy] using h

omit [DecidableEq T] in
theorem payloads_eq_nil {l : List (TcpAct T)} (h : ∀ a ∈ l, a.immediate = false) :
    l.flatMap TcpAct.payloads = [] := by
  apply List.flatMap_eq_nil_iff.mpr
  intro a ha
  have := h a ha
  cases a <;> first | rfl | cases this

omit [DecidableEq T] in
theorem payloads_acts (task : TcpTask T) : task.acts.flatMap TcpAct.payloads = task.payloads := by
  cases task with
  | handleEvents events =>
    apply List.flatMap_eq_nil_iff.mpr
    intro a ha
    rcases mem_acts_handleEvents ha with rfl | rfl | rfl | rfl <;> rfl
  | _ => rfl

omit [DecidableEq T] in
/-- What follows from an act other than a call of `Send` has no other payload. -/
theorem Next.payloads {s : TcpConnection T} {w : Option T} {env : TcpEnv} {a : TcpAct T}
    {new : List (TcpAct T)} (h : Next s w env a new) (ha : ∀ buffer, a ≠ .call (.send buffer)) :
    (a.submits.flatMap TcpTask.payloads ++ new.flatMap TcpAct.payloads).Sublist a.payloads := by
  cases h with
  | nil =>
    cases a with
    | submit task => cases task <;> exact List.Sublist.refl _
    | _ => exact List.nil_sublist _
  | send | sendOnLoop => exact absurd rfl (ha _)
  | callback =>
    rw [payloads_eq_nil]
    · exact List.nil_sublist _
    · intro b hb
      obtain ⟨api, -, rfl⟩ := List.mem_map.mp hb
      rfl
  | handleSend => exact List.Sublist.refl _
  | _ => exact List.nil_sublist _

omit [DecidableEq T] in
theorem caller_of_sends (w : Option T) (state : TcpState) (a : TcpAct T) :
    ∀ p ∈ a.sends w state, p.caller = w := by
  intro p hp
  cases a with
  | call api =>
    cases api with
    | send buffer => rw [List.mem_singleton.mp hp]
    | _ => cases hp
  | _ => cases hp

omit [DecidableEq T] in
theorem sends_eq_nil {w : Option T} {state : TcpState} {a : TcpAct T}
    (ha : ∀ buffer, a ≠ .call (.send buffer)) : a.sends w state = [] := by
  cases a with
  | call api =>
    cases api with
    | send buffer => exact absurd rfl (ha buffer)
    | _ => rfl
  | _ => rfl

/-- An act hands its payload on or drops it; a call of `Send` adds one. -/
theorem act_payloads (s : TcpConnection T) (w : Option T) (env : TcpEnv) (a : TcpAct T) :
    ∃ acc new, (s.act w env a).1.accepted = s.accepted ++ acc ∧
      (s.act w env a).1.calls = s.calls ++ new ∧ (∀ p ∈ new, p.caller = w) ∧
      ((∀ p, a ≠ .append p) → acc = []) ∧
      (acc ++ a.submits.flatMap TcpTask.payloads ++
        (s.act w env a).2.flatMap TcpAct.payloads).Sublist (a.payloads ++ new) := by
  have heff := act_effect s w env a
  by_cases happend : ∃ p, a = .append p
  · obtain ⟨p, rfl⟩ := happend
    simp only [act]
    have hcases := append_cases s p env
    generalize s.append p env = r at hcases ⊢
    cases hcases with
    | accepted => exact ⟨[p], [], rfl, by simp, by simp, by simp, List.Sublist.refl _⟩
    | _ => exact ⟨[], [], by simp, by simp, by simp, by simp, List.nil_sublist _⟩
  · obtain ⟨acc, hacc, hfrom⟩ := heff.accepted
    have hnil : acc = [] := by
      apply List.eq_nil_iff_forall_not_mem.mpr
      intro p hp
      exact happend ⟨p, hfrom p hp⟩
    refine ⟨acc, a.sends w s.state_, hacc, heff.calls, caller_of_sends w _ a, fun _ => hnil, ?_⟩
    rw [hnil, List.nil_append]
    by_cases hsend : ∃ buffer, a = .call (.send buffer)
    · obtain ⟨buffer, rfl⟩ := hsend
      simp only [act, call]
      split_ifs <;> exact List.Sublist.refl _
    · push Not at hsend
      rw [sends_eq_nil hsend, List.append_nil]
      exact (act_next s w env a).payloads hsend

section Step

variable {l : TcpLabel T} {s t : TcpConnection T}

/-- What is queued comes from other threads than the loop's. -/
theorem sentBy_queue (hs : Shaped s) : sentBy none (s.queue.flatMap TcpTask.payloads) = [] := by
  apply sentBy_eq_nil
  intro p hp
  obtain ⟨task, ht, hmem⟩ := List.mem_flatMap.mp hp
  cases task with
  | handleSend q =>
    obtain rfl := List.mem_singleton.mp hmem
    exact hs.queued p ht
  | _ => cases hmem

omit [DecidableEq T] in
/-- What a thread submits is its own, and it is not the loop's. -/
theorem caller_of_submits {a : TcpAct T} {w : Option T} (ha : a.Admissible w) :
    ∀ p ∈ a.submits.flatMap TcpTask.payloads, w ≠ none ∧ p.caller = w := by
  intro p hp
  cases a with
  | submit task =>
    cases task with
    | handleSend q =>
      obtain rfl : p = q := by simpa [TcpAct.submits, TcpTask.payloads] using hp
      exact ha
    | _ => cases hp
  | _ => cases hp

/-- The order after an act of the loop's own thread. -/
theorem ordered_loop {env : TcpEnv} {a : TcpAct T} {rest : List (TcpAct T)} (hs : Shaped s)
    (ho : Ordered s) (hw : s.stack none = a :: rest) :
    Ordered { (s.act none env a).1 with
      stack := Function.update s.stack none ((s.act none env a).2 ++ rest) } := by
  have heff := act_effect s none env a
  obtain ⟨acc, new, hacc, hcalls, hnew, -, hsub⟩ := act_payloads s none env a
  have hrest : rest.flatMap TcpAct.payloads = [] :=
    payloads_eq_nil (by simpa [hw] using hs.immediate none)
  -- the loop's own thread submits no payload
  have hsubmits : a.submits.flatMap TcpTask.payloads = [] := by
    apply List.eq_nil_iff_forall_not_mem.mpr
    intro p hp
    exact (caller_of_submits (hs.admissible.head hw) p hp).1 rfl
  rw [hsubmits, List.append_nil] at hsub
  intro w
  have hsent := hsub.filter fun p => p.caller = w
  change (sentBy w (acc ++ _)).Sublist (sentBy w (a.payloads ++ new)) at hsent
  have hbefore := ho w
  simp only [lane, hacc, hcalls, heff.queue, hw, Function.update_self, List.flatMap_append,
    List.flatMap_cons, hrest, hsubmits, List.append_nil, sentBy_append] at hbefore hsent ⊢
  cases w with
  | none =>
    simp only [sentBy_queue hs, if_true, sentBy_nil, List.append_nil, List.append_assoc] at hbefore ⊢
    apply (hsent.append_left _).trans
    rw [← List.append_assoc]
    exact hbefore.append_right _
  | some v =>
    have hnone : sentBy (some v) new = [] := sentBy_eq_nil fun p hp => by simp [hnew p hp]
    simp only [hnone, List.append_nil, List.append_assoc] at hsent hbefore ⊢
    refine List.Sublist.trans (List.Sublist.append_left ?_ _) hbefore
    rw [← List.append_assoc (sentBy (some v) acc)]
    exact hsent.append_right _

/-- The order after an act of another thread. -/
theorem ordered_caller {u : T} {env : TcpEnv} {a : TcpAct T} {rest : List (TcpAct T)}
    (hs : Shaped s) (ho : Ordered s) (hw : s.stack (some u) = a :: rest) :
    Ordered { (s.act (some u) env a).1 with
      stack := Function.update s.stack (some u) ((s.act (some u) env a).2 ++ rest) } := by
  have heff := act_effect s (some u) env a
  obtain ⟨acc, new, hacc, hcalls, hnew, hnil, hsub⟩ := act_payloads s (some u) env a
  have hrest : rest.flatMap TcpAct.payloads = [] :=
    payloads_eq_nil (by simpa [hw] using hs.immediate (some u))
  -- only the loop's own thread appends
  obtain rfl : acc = [] := by
    apply hnil
    rintro p rfl
    cases hs.admissible.head hw
  intro w
  have hbefore := ho w
  by_cases hu : w = some u
  · subst hu
    have hsent := hsub.filter fun p => p.caller = some u
    change (sentBy (some u) _).Sublist (sentBy (some u) (a.payloads ++ new)) at hsent
    simp only [lane, hacc, hcalls, heff.queue, hw, Function.update_self, List.flatMap_append,
      List.flatMap_cons, hrest, List.append_nil, List.nil_append, sentBy_append] at hbefore hsent ⊢
    simp only [reduceCtorEq, if_false, Function.update_of_ne, ne_eq, not_false_eq_true,
      List.append_assoc] at hbefore hsent ⊢
    rw [← List.append_assoc (sentBy (some u) s.accepted), ← List.append_assoc (_ ++ _)] at hbefore
    rw [← List.append_assoc (sentBy (some u) s.accepted), ← List.append_assoc (_ ++ _)]
    apply (hsent.append_left _).trans
    rw [← List.append_assoc]
    exact hbefore.append_right _
  · have hsubmits : sentBy w (a.submits.flatMap TcpTask.payloads) = [] :=
      sentBy_eq_nil fun p hp => by
        rw [(caller_of_submits (hs.admissible.head hw) p hp).2]
        exact Ne.symm hu
    have hnone : sentBy w new = [] := sentBy_eq_nil fun p hp => by
      rw [hnew p hp]
      exact Ne.symm hu
    simpa [lane, hacc, hcalls, heff.queue, hsubmits, hnone, Function.update_of_ne hu] using hbefore

theorem ordered_step (hs : Shaped s) (ho : Ordered s) (h : step l s = some t) : Ordered t := by
  obtain ⟨-, hmoves⟩ := moves_of_step h
  cases hmoves with
  | @call u api hidle =>
    intro w
    have hw := ho w
    cases w with
    | none => simpa [lane] using hw
    | some v =>
      by_cases hv : v = u
      · subst hv
        simpa [lane, hidle, TcpAct.payloads] using hw
      · simpa [lane, hv] using hw
  | @act w env a rest hw =>
    cases w with
    | none => exact ordered_loop hs ho hw
    | some u => exact ordered_caller hs ho hw
  | @task task queue hidle hq =>
    intro w
    have hw := ho w
    cases w with
    | none => simpa [lane, hidle, hq, payloads_acts] using hw
    | some v => simpa [lane, hidle, hq, payloads_acts] using hw
  | collect => exact ho
  | dispatch hc =>
    intro w
    have := ho w
    simpa [lane, TcpTask.payloads] using this

end Step

/-! ### Every run -/

/-- The socket and `output_` hold the accepted bytes, at the front of the block, and each thread's
calls have been accepted in order. -/
structure OutputStream (s : TcpConnection T) : Prop where
  bytes : s.written ++ s.output_.readable = payloadBytes s.accepted
  r_idx_ : s.output_.r_idx_ = 0
  order : ∀ w, (sentBy w s.accepted).Sublist (sentBy w s.calls)

omit [DecidableEq T] in
theorem streamed_start (addr : Nat) (cells : Nat → UInt8) :
    Streamed (start addr cells : TcpConnection T) := by
  refine ⟨Buffer.wellFormed_sized (by decide) _ _, rfl, ?_, ?_, by simp [start]⟩
  · show 1 <<< 14 < 2 ^ 63
    decide
  · simp [start, payloadBytes, Buffer.readable, Buffer.sized]

theorem ordered_start (addr : Nat) (cells : Nat → UInt8) :
    Ordered (start addr cells : TcpConnection T) := by
  intro w
  simp [lane, start, TcpTask.payloads]

theorem sublist_of_ordered {s : TcpConnection T} (ho : Ordered s) (w : Option T) :
    (sentBy w s.accepted).Sublist (sentBy w s.calls) := by
  refine List.Sublist.trans ?_ (ho w)
  simp only [lane, List.append_assoc, sentBy_append]
  exact List.sublist_append_left _ _

theorem streamed_of_reachable {s : TcpConnection T} (h : (tcpConnection T).Reachable s) :
    Streamed s := by
  refine h.invariant ?_ ?_
  · rintro s ⟨addr, cells, rfl⟩
    exact streamed_start addr cells
  · intro l s t hs _ ht
    exact streamed_step hs ht

/-- `handleSend` appends a payload that is not empty if it finds the connection connected, and
`output_` takes all of it as long as there is memory. -/
def Accepting (l : TcpLabel T) (s : TcpConnection T) : Prop :=
  match l with
  | .act w env => ∀ p rest t, step l s = some t →
    (s.stack w = .handleSend p :: rest → s.state_ = .kConnected → p.buffer.1 ≠ [] →
      t.stack w = .append p :: rest) ∧
    (s.stack w = .append p :: rest → s.output_.readable.length + p.buffer.1.length ≤ 2 ^ 62 →
      (∀ n < 2 ^ 63, env.memory.1 n ≠ none) → t.fatal = none ∧ t.accepted = s.accepted ++ [p])
  | _ => True

omit [DecidableEq T] in
/-- An append at the front of a block accepts its payload as long as there is memory. -/
theorem append_accepts {s : TcpConnection T} (hs : Streamed s) {p : Payload T} {env : TcpEnv}
    (hlen : s.output_.readable.length + p.buffer.1.length ≤ 2 ^ 62)
    (hmemory : ∀ n < 2 ^ 63, env.memory.1 n ≠ none) :
    (s.append p env).1.fatal = s.fatal ∧ (s.append p env).1.accepted = s.accepted ++ [p] := by
  have hw : s.output_.w_idx_ = s.output_.readable.length := by
    rw [hs.wellFormed.length_readable, hs.r_idx_, Nat.sub_zero]
  obtain ⟨c, hc⟩ := hs.wellFormed.append_granted hs.r_idx_ hs.length_lt (hw ▸ hlen) hmemory
  simp [append, hc]

theorem accepting_of_streamed {l : TcpLabel T} {s : TcpConnection T} (hs : Streamed s) :
    Accepting l s := by
  cases l with
  | act w env =>
    intro p rest t h
    obtain ⟨hfatal, hmoves⟩ := moves_of_step h
    cases hmoves with
    | @act _ _ a acts hw =>
      refine ⟨fun hp hstate hne => ?_, fun hp hlen hmemory => ?_⟩
      · obtain ⟨rfl, rfl⟩ := List.cons.inj (hw.symm.trans hp)
        simp [act, hstate, hne]
      · obtain ⟨rfl, rfl⟩ := List.cons.inj (hw.symm.trans hp)
        obtain ⟨hnone, haccepted⟩ := append_accepts hs hlen hmemory
        exact ⟨hnone.trans hfatal, haccepted⟩
  | _ => trivial

/-- **Output stream**: along every schedule the bytes the socket has accepted and the readable bytes
of `output_` are the bytes `handleSend` has accepted, `RIndex()` is zero, and the `Send`s of each
thread are accepted in the order of its calls; what `handleSend` finds the connection connected for
is accepted as long as there is memory. -/
theorem outputStream (addr : Nat) (cells : Nat → UInt8) (ls : List (TcpLabel T)) :
    (tcpConnection T).AllStates OutputStream ls (start addr cells) ∧
      (tcpConnection T).AllSteps Accepting ls (start addr cells) := by
  let s₀ : TcpConnection T := start addr cells
  have hstart : Shaped s₀ ∧ Streamed s₀ ∧ Ordered s₀ :=
    ⟨shaped_start addr cells, streamed_start addr cells, ordered_start addr cells⟩
  have hstep : ∀ (l : TcpLabel T) (s t : TcpConnection T),
      Shaped s ∧ Streamed s ∧ Ordered s → step l s = some t →
        Shaped t ∧ Streamed t ∧ Ordered t := by
    rintro l s t ⟨hshaped, hs, ho⟩ h
    exact ⟨shaped_step hshaped h, streamed_step hs h, ordered_step hshaped ho h⟩
  constructor
  · refine System.allStates_of_invariant hstep ?_ ls hstart
    rintro s ⟨-, hs, ho⟩
    exact ⟨hs.bytes, hs.r_idx_, sublist_of_ordered ho⟩
  · refine System.allSteps_of_invariant hstep ?_ ls hstart
    rintro l s t ⟨-, hs, -⟩ -
    exact accepting_of_streamed hs

/-- Two bytes are sent, and written when the event comes that allows it. -/
def sendTwo : List (TcpLabel Unit) :=
  runTask 5 ++ runCall () (.send twoBytes) 2 ++ runTask 4 ++
    [.collect Events.EPOLLOUT, .dispatch] ++ runTask 5

/-- The run executes to its end, and both bytes are accepted on the way. -/
theorem outputStream_sendTwo : ∃ s, (tcpConnection Unit).run sendTwo (start 0 fun _ => 0) = some s ∧
    s.fatal = none ∧ payloadBytes s.accepted = [1, 2] ∧ s.written = [1, 2] ∧
      (tcpConnection Unit).AllStates OutputStream sendTwo (start 0 fun _ => 0) ∧
      (tcpConnection Unit).AllSteps Accepting sendTwo (start 0 fun _ => 0) :=
  ⟨_, rfl, rfl, rfl, rfl, outputStream 0 _ sendTwo⟩

end TcpConnection

end Lizlib
