import Lizlib.Net.Equiv.Shutdown
import Lizlib.Net.Equiv.WriteInterest

/-!
# Pending output and write interest

Between two tasks of the loop the channel asks for write events if and only if `output_` has
readable bytes (`pendingOutput`).  Inside a task the two can differ, but then the next act of the
loop's thread is the `SetWritable` that brings them together (`Interested`): `handleSend` appends
first and asks afterwards, and `handleWrite` and `Shutdown`'s task have found `output_` empty before
they stop asking.  `ForceShutdown`'s task is the one that does not look at `output_`.
-/

namespace Lizlib

open SocketChannel

variable {T : Type*}

namespace TcpConnection

/-- Between two tasks there is write interest if and only if there is something to write. -/
def PendingOutput (s : TcpConnection T) : Prop :=
  s.fatal = none → s.stack none = [] →
    (writable s.events_ = true ↔ s.output_.readableBytes ≠ 0)

/-- The write interest after the act `SetWritable` that comes next, if one does. -/
def interestOf (events : EventMask) : List (TcpAct T) → Bool
  | .setWritable on :: _ => on
  | _ => writable events

/-- There is write interest exactly when there is something to write, or the next act of the loop's
thread sees to it. -/
structure Interested (s : TcpConnection T) : Prop where
  tail : ∀ w, ∀ a ∈ (s.stack w).tail, ∀ on, a ≠ .setWritable on
  pending : ∀ p, .append p ∈ s.stack none → p.buffer.1 ≠ []
  interest : s.fatal = none →
    (interestOf s.events_ (s.stack none) = true ↔ s.output_.readableBytes ≠ 0)

theorem interestOf_eq {events : EventMask} {l : List (TcpAct T)}
    (h : ∀ a ∈ l, ∀ on, a ≠ .setWritable on) : interestOf events l = writable events := by
  unfold interestOf
  split
  · exact absurd rfl (h _ List.mem_cons_self _)
  · rfl

/-- Only the first act that follows another can be a `SetWritable`. -/
theorem Next.tail_ne_setWritable {s : TcpConnection T} {w : Option T} {env : TcpEnv} {a : TcpAct T}
    {new : List (TcpAct T)} (h : Next s w env a new) :
    ∀ b ∈ new.tail, ∀ on, b ≠ .setWritable on := by
  cases h with
  | callback =>
    intro b hb on
    obtain ⟨api, -, rfl⟩ := List.mem_map.mp (List.mem_of_mem_tail hb)
    simp
  | _ => simp

theorem tail_acts_ne_setWritable (task : TcpTask T) :
    ∀ b ∈ task.acts.tail, ∀ on, b ≠ .setWritable on := by
  cases task with
  | handleEvents events =>
    intro b hb on
    rcases mem_acts_handleEvents (List.mem_of_mem_tail hb) with rfl | rfl | rfl | rfl <;> simp
  | _ => simp [TcpTask.acts]

/-- A task other than `ForceShutdown`'s does not begin with a `SetWritable`. -/
theorem acts_ne_setWritable {task : TcpTask T} (h : task ≠ .forceShutdown) :
    ∀ b ∈ task.acts, ∀ on, b ≠ .setWritable on := by
  cases task with
  | handleEvents events =>
    intro b hb on
    rcases mem_acts_handleEvents hb with rfl | rfl | rfl | rfl <;> simp
  | forceShutdown => exact absurd rfl h
  | _ => simp [TcpTask.acts]

theorem append_not_mem_acts (task : TcpTask T) (p : Payload T) : .append p ∉ task.acts := by
  intro hmem
  cases begins_of_mem_acts hmem

variable [DecidableEq T]

/-- `handleSend` has found what it appends not empty. -/
theorem ne_nil_of_append_mem {s : TcpConnection T} {w : Option T} {env : TcpEnv} {a : TcpAct T}
    {p : Payload T} (h : .append p ∈ (s.act w env a).2) : p.buffer.1 ≠ [] := by
  have hnext := act_next s w env a
  generalize hnew : (s.act w env a).2 = new at h hnext
  cases hnext with
  | @handleSend q =>
    obtain rfl : p = q := by simpa using h
    simp only [act] at hnew
    split_ifs at hnew with hs hnil
    exact hnil
  | _ => simp at h

/-- Only `handleSend` and `handleWrite` touch `output_`. -/
theorem output_act {s : TcpConnection T} {w : Option T} {env : TcpEnv} {a : TcpAct T}
    (happend : ∀ p, a ≠ .append p) (hwrite : a ≠ .handleWrite) :
    (s.act w env a).1.output_ = s.output_ := by
  cases a with
  | append p => exact absurd rfl (happend p)
  | handleWrite => exact absurd rfl hwrite
  | call api =>
    obtain ⟨st, c, x, hcall⟩ := call_frame s w api
    simp only [act, hcall]
  | _ =>
    simp only [act, setEvents]
    repeat' split
    all_goals rfl

omit [DecidableEq T] in
/-- After an act that leaves `output_` and the write interest alone, a `SetWritable` comes next only
if `output_` is empty. -/
theorem Next.interestOf_append {s : TcpConnection T} {w : Option T} {env : TcpEnv} {a : TcpAct T}
    {new rest : List (TcpAct T)} {events : EventMask} (h : Next s w env a new)
    (happend : ∀ p, a ≠ .append p) (hwrite : a ≠ .handleWrite)
    (hrest : ∀ b ∈ rest, ∀ on, b ≠ .setWritable on)
    (hs : writable events = true ↔ s.output_.readableBytes ≠ 0) :
    interestOf events (new ++ rest) = true ↔ s.output_.readableBytes ≠ 0 := by
  cases h with
  | append => exact absurd rfl (happend _)
  | drained => exact absurd rfl hwrite
  | shutdownTask hz => simp [interestOf, hz]
  | nil =>
    rw [List.nil_append, interestOf_eq hrest]
    exact hs
  | callback =>
    rw [interestOf_eq]
    · exact hs
    · intro b hb on
      rcases List.mem_append.mp hb with hb | hb
      · obtain ⟨api, -, rfl⟩ := List.mem_map.mp hb
        simp
      · exact hrest b hb on
  | _ => exact hs

section Step

variable {s : TcpConnection T} {env : TcpEnv} {rest : List (TcpAct T)}

omit [DecidableEq T] in
/-- `handleSend` asks for write events after it has appended. -/
theorem interest_append {p : Payload T} (hst : Streamed s) (hp : p.buffer.1 ≠ [])
    (hfatal : (s.append p env).1.fatal = none) :
    interestOf (s.append p env).1.events_ ((s.append p env).2 ++ rest) = true ↔
      (s.append p env).1.output_.readableBytes ≠ 0 := by
  have hstreamed := streamed_append hst p env
  have hfront := hst.wellFormed.append_front hst.r_idx_ hst.length_lt p.buffer.2 env.memory.2
  have hcases := append_cases s p env
  generalize s.append p env = r at hcases hfatal hstreamed ⊢
  cases hcases with
  | fault | full => cases hfatal
  | accepted hb =>
    apply iff_of_true rfl
    rw [hb] at hfront
    cases hfront with
    | appended hwf hzero hlen hread =>
      rw [hstreamed.readableBytes_eq]
      dsimp only
      rw [hread, List.length_append]
      have hpos : 0 < p.buffer.1.length := List.length_pos_iff.mpr hp
      omega

omit [DecidableEq T] in
/-- `handleWrite` stops asking when it has written everything. -/
theorem interest_handleWrite (hst : Streamed s)
    (hrest : ∀ b ∈ rest, ∀ on, b ≠ .setWritable on)
    (hs : writable s.events_ = true ↔ s.output_.readableBytes ≠ 0)
    (hfatal : (s.handleWrite env).1.fatal = none) :
    interestOf (s.handleWrite env).1.events_ ((s.handleWrite env).2 ++ rest) = true ↔
      (s.handleWrite env).1.output_.readableBytes ≠ 0 := by
  have hdrained : ∀ t : TcpConnection T, (writable t.events_ = true ∨ t.output_.readableBytes = 0) →
      (interestOf t.events_ (t.drained ++ rest) = true ↔ t.output_.readableBytes ≠ 0) := by
    intro t ht
    unfold drained
    by_cases hzero : t.output_.readableBytes = 0
    · rw [if_pos hzero]
      simp [interestOf, hzero]
    · rw [if_neg hzero, List.nil_append, interestOf_eq hrest]
      exact iff_of_true (ht.resolve_right hzero) hzero
  have hyes : writable s.events_ = true ∨ s.output_.readableBytes = 0 := by
    by_cases hzero : s.output_.readableBytes = 0
    · exact Or.inr hzero
    · exact Or.inl (hs.mpr hzero)
  have hcases := handleWrite_cases s env
  generalize hr : s.handleWrite env = r at hcases hfatal ⊢
  cases hcases with
  | notWritable | noLoad | noRetrieve => cases hfatal
  | failed => exact hs
  | empty => exact hdrained s hyes
  | @wrote n l b hn hl hb =>
    apply hdrained { s with output_ := b, written := s.written ++ l }
    -- something was readable, or nothing has been written
    have hstreamed := streamed_handleWrite hst env
    rw [hr] at hstreamed
    apply hyes.imp id
    intro hzero
    rw [hst.readableBytes_eq] at hn hzero
    obtain ⟨c, hc, -, hread, -⟩ := hst.wellFormed.retrieve_spec hn true
    obtain rfl := Except.ok.inj (hc.symm.trans hb)
    rw [hstreamed.readableBytes_eq]
    dsimp only
    rw [hread, List.length_drop]
    omega

theorem interest_act {a : TcpAct T} (hst : Streamed s) (hi : Interested s)
    (hs : s.fatal = none) (hw : s.stack none = a :: rest) (hfatal : (s.act none env a).1.fatal = none) :
    interestOf (s.act none env a).1.events_ ((s.act none env a).2 ++ rest) = true ↔
      (s.act none env a).1.output_.readableBytes ≠ 0 := by
  have hrest : ∀ b ∈ rest, ∀ on, b ≠ .setWritable on := by
    have := hi.tail none
    rwa [hw] at this
  have hbefore := hi.interest hs
  rw [hw] at hbefore
  have hevents := (act_effect s none env a).events_
  have hother : (∀ p, a ≠ .append p) → a ≠ .handleWrite →
      (writable (a.masks s.events_) = true ↔ s.output_.readableBytes ≠ 0) →
      (interestOf (s.act none env a).1.events_ ((s.act none env a).2 ++ rest) = true ↔
        (s.act none env a).1.output_.readableBytes ≠ 0) := by
    intro happend hwrite hmask
    rw [hevents, output_act happend hwrite]
    exact (act_next s none env a).interestOf_append happend hwrite hrest hmask
  cases a with
  | append p =>
    have hp := hi.pending p (hw ▸ List.mem_cons_self)
    exact interest_append hst hp hfatal
  | handleWrite => exact interest_handleWrite hst hrest hbefore hfatal
  | setWritable on =>
    apply hother (by simp) (by simp)
    show writable (setWritable s.events_ on) = true ↔ _
    rw [writable_setWritable]
    exact hbefore
  | setReadable on =>
    apply hother (by simp) (by simp)
    show writable (setReadable s.events_ on) = true ↔ _
    rw [writable_setReadable]
    exact hbefore
  | _ => exact hother (by simp) (by simp) hbefore

theorem interested_step {l : TcpLabel T} {t : TcpConnection T} (hshaped : Shaped s)
    (hst : Streamed s) (hf : Forceless s) (hi : Interested s) (h : step l s = some t) :
    Interested t := by
  obtain ⟨hfatal, hmoves⟩ := moves_of_step h
  have htail := tail_step hi.tail (fun _ _ _ _ hnext => hnext.tail_ne_setWritable)
    tail_acts_ne_setWritable h
  cases hmoves with
  | call => exact ⟨htail, by simpa using hi.pending, by simpa using hi.interest⟩
  | @act w env a rest hw =>
    by_cases hloop : w = none
    · subst hloop
      refine ⟨htail, ?_, ?_⟩
      · intro p hp
        dsimp only at hp
        rw [Function.update_self, List.mem_append] at hp
        rcases hp with hp | hp
        · exact ne_nil_of_append_mem hp
        · exact hi.pending p (hw ▸ List.mem_cons_of_mem a hp)
      · intro hnone
        dsimp only at hnone ⊢
        rw [Function.update_self]
        exact interest_act hst hi hfatal hw hnone
    · -- the other threads touch neither `output_` nor the mask
      have hadm := hshaped.admissible.head hw
      have hmasks := (masks_of_admissible hadm hloop s.events_ s.registered).1
      have hout : (s.act w env a).1.output_ = s.output_ := by
        apply output_act
        · rintro p rfl
          exact hloop hadm
        · rintro rfl
          exact hloop hadm
      have hevents := (act_effect s w env a).events_.trans hmasks
      refine ⟨htail, ?_, ?_⟩
      · dsimp only
        rw [Function.update_of_ne (Ne.symm hloop)]
        exact hi.pending
      · intro _
        dsimp only
        rw [Function.update_of_ne (Ne.symm hloop), hevents, hout]
        exact hi.interest hfatal
  | @task task queue hidle hq =>
    have hmem : task ∈ s.queue := hq ▸ List.mem_cons_self
    have hne : task ≠ .forceShutdown := by
      rintro rfl
      exact hf.queue hmem
    refine ⟨htail, ?_, ?_⟩
    · intro p hp
      dsimp only at hp
      rw [Function.update_self] at hp
      exact absurd hp (append_not_mem_acts task p)
    · intro _
      dsimp only
      rw [Function.update_self, interestOf_eq (acts_ne_setWritable hne)]
      have hbefore := hi.interest hfatal
      rwa [hidle] at hbefore
  | collect => exact ⟨htail, hi.pending, hi.interest⟩
  | dispatch => exact ⟨htail, hi.pending, hi.interest⟩

end Step

omit [DecidableEq T] in
theorem interested_start (addr : Nat) (cells : Nat → UInt8) :
    Interested (start addr cells : TcpConnection T) := by
  refine ⟨by simp [start], by simp [start], fun _ => ?_⟩
  have hbytes : (start addr cells : TcpConnection T).output_.readableBytes = 0 := by
    rw [(streamed_start addr cells).readableBytes_eq]
    simp [start, Buffer.readable, Buffer.sized]
  rw [hbytes]
  have hnone : ¬ writable SelectEvents.kNoneEvent = true := by decide
  exact iff_of_false hnone (by simp)

/-- **Pending output**: along every schedule in which nobody calls `ForceShutdown`, between any two
tasks of the loop there is write interest if and only if `output_` has readable bytes. -/
theorem pendingOutput (addr : Nat) (cells : Nat → UInt8) (ls : List (TcpLabel T))
    (h : ∀ l ∈ ls, Unforced l) :
    (tcpConnection T).AllStates PendingOutput ls (start addr cells) := by
  have hsteps := System.AllSteps.of_labels (S := tcpConnection T) h (start addr cells)
  refine hsteps.allStates (I := fun s => Shaped s ∧ Streamed s ∧ Forceless s ∧ Interested s) ?_ ?_
    ⟨shaped_start addr cells, streamed_start addr cells, ?_, interested_start addr cells⟩
  · rintro l s t ⟨hshaped, hst, hf, hi⟩ hg ht
    exact ⟨shaped_step hshaped ht, streamed_step hst ht, forceless_step hf hg ht,
      interested_step hshaped hst hf hi ht⟩
  · rintro s ⟨-, -, -, hi⟩ hfatal hidle
    have hinterest := hi.interest hfatal
    rwa [hidle] at hinterest
  · constructor <;> simp [start, Stacks.All]

/-- The run executes to its end: two bytes are accepted, and written. -/
theorem pendingOutput_sendTwo :
    ∃ s, (tcpConnection Unit).run sendTwo (start 0 fun _ => 0) = some s ∧
      s.fatal = none ∧ payloadBytes s.accepted = [1, 2] ∧ s.written = [1, 2] ∧
        (tcpConnection Unit).AllStates PendingOutput sendTwo (start 0 fun _ => 0) :=
  ⟨_, rfl, rfl, rfl, rfl,
    pendingOutput 0 _ sendTwo (by simp [sendTwo, runTask, runCall, Unforced, quiet])⟩

end TcpConnection

end Lizlib
