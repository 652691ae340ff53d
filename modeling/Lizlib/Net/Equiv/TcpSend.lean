import Lizlib.Common.Equiv.BufferFile
import Lizlib.Net.Equiv.PendingOutput
import Lizlib.Net.Equiv.StateOrder
import Lizlib.Net.Equiv.TcpReceive
import Lizlib.Net.TcpSend

/-!
# No output is left behind

The write interest is edge-triggered, so a readable byte of `output_` needs an event that is on its
way, one that epoll has yet to report, or space that the send buffer has yet to find (`Prompted`).
From there the loop and the scheduler get to `handleWrite` on their own: every act and every task
costs some of a finite amount of `work`, and none of them drops the output or shuts the socket down
(`Pending`).

`flushable_iff`: between two tasks, all that has been accepted can still be written exactly if the
socket has not been shut down, or nothing is left.
-/

namespace Lizlib

open SocketChannel Events

/-- A write interest lets `epoll_wait` report `EPOLLOUT`. -/
theorem reportable_of_writable {interest : EventMask} (h : writable interest = true) :
    TcpConnection.reportable interest EPOLLOUT = true := by
  have hbit : interest.toBitVec.getLsbD 2 = true := (contains_kWriteEvent interest).symm.trans h
  unfold TcpConnection.reportable
  rw [Bool.and_eq_true, decide_eq_true_iff, decide_eq_true_iff]
  refine ⟨by decide, UInt32.toBitVec_inj.mp (BitVec.eq_of_getLsbD_eq fun i hi => ?_)⟩
  by_cases hi2 : i = 2
  · subst hi2
    simp [remove, hbit, EPOLLET, EPOLLERR, EPOLLHUP]
  · have hout : EPOLLOUT.toBitVec.getLsbD i = false := by
      have hall : ∀ j < 32, j ≠ 2 → EPOLLOUT.toBitVec.getLsbD j = false := by decide
      exact hall i hi hi2
    simp [hout]

/-- Memory for everything below the largest object. -/
def ample : Memory :=
  ⟨fun n => if n < 2 ^ 63 then some (4096, fun _ => 0) else none, fun n hn => if_neg (by omega)⟩

/-- Nothing has arrived, and the send buffer takes all there is to write. -/
def willing (n : Nat) : TcpEnv := ⟨.again, some n, [], ample, true⟩

/-- An act that may precede a `handleWrite`. -/
def TcpAct.precedes {T : Type*} : TcpAct T → Bool
  | .call _ | .checkDisconnecting | .channelShutdown _ | .handleWrite => false
  | _ => true

/-- A bound on the acts that follow from an act. -/
def TcpAct.work {T : Type*} : TcpAct T → Nat
  | .call _ => 0
  | .setReadable _ | .setWritable _ | .handleError => 2
  | .append _ | .handleRemove => 3
  | .handleSend _ | .connect => 4
  | .submit _ => 6
  | .storeDisconnected | .storeDisconnecting => 7
  | .handleClose => 8
  | .handleRead => 9
  | _ => 1

/-- A bound on the acts of a task, and one for taking it from the queue. -/
def TcpTask.work {T : Type*} (task : TcpTask T) : Nat := 1 + (task.acts.map TcpAct.work).sum

namespace TcpConnection

variable {T : Type*}

/-! ### What an act costs -/

/-- **The acts that follow** cost less, as long as there is something to write. -/
theorem Next.work {s : TcpConnection T} {env : TcpEnv} {a : TcpAct T} {new : List (TcpAct T)}
    (h : Next s none env a new) (ha : a.Admissible none) (hp : a.precedes = true)
    (hcalls : env.calls = []) (hz : s.output_.readableBytes ≠ 0) :
    (new.map TcpAct.work).sum + (a.submits.map TcpTask.work).sum < a.work ∧
      ∀ b ∈ new, b.precedes = true := by
  cases h with
  | nil =>
    refine ⟨?_, by simp⟩
    cases a with
    | submit task =>
      cases task with
      | start | handleEvents => exact absurd ha id
      | _ => simp [TcpAct.submits, TcpTask.work, TcpTask.acts, TcpAct.work]
    | call => cases hp
    | _ => simp [TcpAct.submits, TcpAct.work]
  | closeTask hzero | shutdownTask hzero => exact absurd hzero hz
  | callback => simp [hcalls, TcpAct.submits, TcpAct.work]
  | send | sendOnLoop | close | shutdown | forceShutdown | forceClose => cases hp
  | checkDisconnecting | drained | writeFailed => cases hp
  | _ => simp [TcpAct.submits, TcpAct.work, TcpAct.precedes]

/-- The bytes of `output_`, and those that are on their way to it. -/
def backlog (s : TcpConnection T) : Nat :=
  s.output_.readable.length +
    (payloadBytes ((s.stack none).flatMap TcpAct.payloads ++ s.queue.flatMap TcpTask.payloads)).length

/-- A bound on the steps of the loop and the scheduler until everything queued has been done. -/
def work (s : TcpConnection T) : Nat :=
  ((s.stack none).map TcpAct.work).sum + (s.queue.map TcpTask.work).sum +
    (s.collected.elim 0 fun events => 1 + (TcpTask.handleEvents events : TcpTask T).work)

theorem precedes_acts {task : TcpTask T} (h : task ≠ .forceShutdown) :
    ∀ a ∈ task.acts, a.precedes = true ∨ a = .handleWrite := by
  cases task with
  | handleEvents events =>
    intro a ha
    rcases mem_acts_handleEvents ha with rfl | rfl | rfl | rfl <;> simp [TcpAct.precedes]
  | forceShutdown => exact absurd rfl h
  | _ => simp [TcpTask.acts, TcpAct.precedes]

/-! ### Without `ForceShutdown` -/

/-- What holds along every run in which nobody calls `ForceShutdown`. -/
structure Steady (s : TcpConnection T) : Prop where
  shaped : Shaped s
  streamed : Streamed s
  synced : Synced s
  forceless : Forceless s
  interested : Interested s
  removesLast : RemovesLast s

theorem steady_start (addr : Nat) (cells : Nat → UInt8) :
    Steady (start addr cells : TcpConnection T) where
  shaped := shaped_start addr cells
  streamed := streamed_start addr cells
  synced _ := rfl
  forceless := by constructor <;> simp [start, Stacks.All]
  interested := interested_start addr cells
  removesLast := removesLast_start addr cells

/-- With something to write between two acts of the loop, the mask with the write interest is
registered, or about to be. -/
theorem Steady.writable {s : TcpConnection T} (h : Steady s) (hfatal : s.fatal = none)
    (hset : ∀ on rest, s.stack none ≠ .setWritable on :: rest) :
    writable s.events_ = true ↔ s.output_.readableBytes ≠ 0 := by
  rw [← h.interested.interest hfatal]
  unfold interestOf
  split
  · rename_i on rest heq
    exact absurd heq (hset on rest)
  · rfl

theorem Steady.interest_eq {s : TcpConnection T} (h : Steady s) (hfatal : s.fatal = none)
    (hupdate : ∀ events rest, s.stack none ≠ .update events :: rest) : s.interest = s.events_ := by
  rw [← h.synced hfatal]
  unfold nextInterest
  split
  · rename_i events rest heq
    exact absurd heq (hupdate events rest)
  · rfl

/-! ### Write events in flight -/

theorem handleWrite_mem_of_writes {task : TcpTask T} (h : task.writes = true) :
    .handleWrite ∈ task.acts := by
  cases task with
  | handleEvents events =>
    exact List.mem_map.mpr ⟨.write, (write_mem_handleEvents events).mpr h, rfl⟩
  | _ => cases h

/-- A write event stays in flight until `handleWrite` is executed. -/
theorem inFlight_step [DecidableEq T] {l : TcpLabel T} {s t : TcpConnection T} (hs : s.InFlight)
    (hl : current l s ≠ some .handleWrite) (h : step l s = some t) : t.InFlight := by
  obtain ⟨-, hmoves⟩ := moves_of_step h
  cases hmoves with
  | call hidle =>
    refine hs.imp_right (Or.imp_right fun hmem => ?_)
    simpa using hmem
  | @act w env a rest hw =>
    have heff := act_effect s w env a
    rcases hs with hs | ⟨task, hmem, hwrites⟩ | hmem
    · exact .inl (by simpa only [heff.collected] using hs)
    · refine .inr (.inl ⟨task, ?_, hwrites⟩)
      show task ∈ (s.act w env a).1.queue
      rw [heff.queue]
      exact List.mem_append_left _ hmem
    · refine .inr (.inr ?_)
      show .handleWrite ∈ Function.update s.stack w _ none
      by_cases hloop : w = none
      · subst hloop
        rw [hw, List.mem_cons] at hmem
        rw [Function.update_self]
        -- it is not the act that is executed, so it stays on the stack
        refine List.mem_append_right _ (hmem.resolve_left ?_)
        rintro rfl
        exact hl (current_of_stack hw)
      · rwa [Function.update_of_ne (Ne.symm hloop)]
  | @task task queue hidle hq =>
    rcases hs with hs | ⟨task', hmem, hwrites⟩ | hmem
    · exact .inl hs
    · rw [hq, List.mem_cons] at hmem
      rcases hmem with rfl | hmem
      · refine .inr (.inr ?_)
        show .handleWrite ∈ Function.update s.stack none _ none
        rw [Function.update_self]
        exact handleWrite_mem_of_writes hwrites
      · exact .inr (.inl ⟨task', hmem, hwrites⟩)
    · simp [hidle] at hmem
  | @collect m events hr hc he =>
    rcases hs with hs | hs
    · simp [hc] at hs
    · exact .inr hs
  | @dispatch events hc =>
    rcases hs with hs | ⟨task, hmem, hwrites⟩ | hmem
    · -- the collected event becomes a task
      refine .inr (.inl ⟨.handleEvents events, by simp, ?_⟩)
      simpa [hc, TcpTask.writes] using hs
    · exact .inr (.inl ⟨task, List.mem_append_left _ hmem, hwrites⟩)
    · exact .inr (.inr hmem)

/-! ### On the way to `handleWrite` -/

/-- There is something to write, and nothing the loop has to do before it drops it. -/
structure Pending (s : TcpConnection T) : Prop where
  steady : Steady s
  fatal : s.fatal = none
  shutdowns : s.shutdowns = []
  output : s.output_.readable ≠ []
  registered : s.registered ≠ none
  precedes : ∀ a ∈ s.stack none, a.precedes = true ∨ a = .handleWrite
  backlog : s.backlog ≤ 2 ^ 62

theorem Pending.readableBytes {s : TcpConnection T} (h : Pending s) : s.output_.readableBytes ≠ 0 := by
  have hpos := List.length_pos_iff.mpr h.output
  rw [h.steady.streamed.readableBytes_eq]
  omega

variable [DecidableEq T]

theorem Steady.step {l : TcpLabel T} {s t : TcpConnection T} (h : Steady s) (hg : Unforced l)
    (ht : TcpConnection.step l s = some t) : Steady t where
  shaped := shaped_step h.shaped ht
  streamed := streamed_step h.streamed ht
  synced := synced_step h.shaped h.synced ht
  forceless := forceless_step h.forceless hg ht
  interested := interested_step h.shaped h.streamed h.forceless h.interested ht
  removesLast := by
    refine removesLast_step h.removesLast (fun hcur => ?_) ht
    -- `ForceShutdown` alone stores `kDisconnecting`
    obtain ⟨w, -, rest, -, hw, -⟩ := act_of_current ht hcur
    cases h.forceless.stack.head hw

/-- Only `handleWrite` takes bytes out of `output_`. -/
theorem readable_act {s : TcpConnection T} (h : Streamed s) (w : Option T) (env : TcpEnv)
    {a : TcpAct T} (ha : a ≠ .handleWrite) :
    s.output_.readable <+: (s.act w env a).1.output_.readable := by
  by_cases happend : ∃ p, a = .append p
  · obtain ⟨p, rfl⟩ := happend
    have hfront := h.wellFormed.append_front h.r_idx_ h.length_lt p.buffer.2 env.memory.2
    have hcases := append_cases s p env
    show _ <+: (s.append p env).1.output_.readable
    generalize s.append p env = r at hcases ⊢
    cases hcases with
    | fault => exact List.prefix_rfl
    | full hb hret =>
      rw [hb] at hfront
      cases hfront with
      | noMemory => exact List.prefix_rfl
      | appended => exact absurd rfl hret
    | accepted hb =>
      rw [hb] at hfront
      cases hfront with
      | appended hwf hzero hlen hread => exact hread ▸ List.prefix_append _ _
  · push Not at happend
    rw [output_act happend ha]

/-- What the loop has yet to append is what it had yet to append. -/
theorem backlog_act {s : TcpConnection T} (h : Streamed s) {env : TcpEnv} {a : TcpAct T}
    {rest : List (TcpAct T)} (hw : s.stack none = a :: rest) (ha : a.precedes = true)
    (ht : Streamed (s.act none env a).1) :
    backlog { (s.act none env a).1 with
      stack := Function.update s.stack none ((s.act none env a).2 ++ rest) } ≤ s.backlog := by
  have heff := act_effect s none env a
  obtain ⟨acc, new, hacc, hcalls, -, -, hsub⟩ := act_payloads s none env a
  obtain ⟨l, hl⟩ := heff.written
  -- the loop calls nothing, so there is no new payload
  have hnew : new = [] := by
    have hsends : a.sends none s.state_ = [] := by
      cases a with
      | call => cases ha
      | _ => rfl
    have heq := heff.calls
    rw [hcalls, hsends] at heq
    exact List.append_cancel_left heq
  rw [hnew, List.append_nil] at hsub
  have hlen : (payloadBytes acc).length + (payloadBytes (a.submits.flatMap TcpTask.payloads)).length +
      (payloadBytes ((s.act none env a).2.flatMap TcpAct.payloads)).length ≤
        (payloadBytes a.payloads).length := by
    have := (hsub.flatMap fun p => p.buffer.1).length_le
    simpa [payloadBytes, Nat.add_assoc] using this
  have hbytes : (s.act none env a).1.output_.readable.length ≤
      s.output_.readable.length + (payloadBytes acc).length := by
    have hs := congrArg List.length h.bytes
    have hs' := congrArg List.length ht.bytes
    rw [hl, hacc, payloadBytes_append] at hs'
    simp only [List.length_append] at hs hs'
    omega
  unfold backlog
  simp only [Function.update_self, heff.queue, hw, List.flatMap_append, List.flatMap_cons,
    payloadBytes_append, List.length_append]
  omega

omit [DecidableEq T] in
/-- The kernel has taken `n` bytes. -/
theorem writeOut_of {s : TcpConnection T} {n : Nat} {l : List UInt8} {b : Buffer}
    (hl : s.output_.load s.output_.r_idx_ n = .ok l) (hb : s.output_.retrieve n true = .ok b) :
    s.writeOut n = ({ s with output_ := b, written := s.written ++ l },
      drained { s with output_ := b, written := s.written ++ l }) := by
  unfold writeOut
  rw [hl, hb]

section Pending

variable {s : TcpConnection T} {a : TcpAct T} {rest : List (TcpAct T)} (h : Pending s)

include h

/-- **No act on the way** ends the process. -/
theorem Pending.fatal_act (hw : s.stack none = a :: rest) (ha : a.precedes = true) (n : Nat) :
    (s.act none (willing n) a).1.fatal = none := by
  by_contra hne
  obtain ⟨f, hf⟩ := Option.ne_none_iff_exists'.mp hne
  have hcause := TcpConnection.fatal_act h.fatal hf
  have hwrite : a ≠ .handleWrite := by
    rintro rfl
    cases ha
  cases f with
  | notWritable => exact hwrite hcause.1
  | unregistered => exact h.registered hcause.1
  | notDisconnected =>
    obtain ⟨rfl, hstate⟩ := hcause
    exact absurd (h.steady.removesLast.stack.head hw hstate) (by simp [TcpAct.removals])
  | shutdownFailed =>
    obtain ⟨close_read, rfl⟩ := hcause
    cases ha
  | outputFull | output fault =>
    obtain ⟨p, rfl⟩ := hcause.resolve_left hwrite
    -- there is memory for all that is on its way to `output_`
    have hst := h.steady.streamed
    have hroom : s.output_.w_idx_ + p.buffer.1.length ≤ 2 ^ 62 := by
      have hlen := hst.wellFormed.length_readable
      have hback := h.backlog
      unfold TcpConnection.backlog at hback
      rw [hst.r_idx_, Nat.sub_zero] at hlen
      simp only [hw, List.flatMap_cons, TcpAct.payloads, List.cons_append, payloadBytes,
        List.length_append] at hback
      omega
    have hample : ∀ n < 2 ^ 63, ample.1 n ≠ none := by
      intro n hn
      rw [show ample.1 n = some (4096, fun _ => 0) from if_pos hn]
      exact Option.some_ne_none _
    obtain ⟨c, hc⟩ := hst.wellFormed.append_granted hst.r_idx_ hst.length_lt hroom hample
    have happend : s.output_.append (.bytes p.buffer.1) p.buffer.1.length false false
        (willing n).memory.1 = .ok (c, p.buffer.1.length) := hc
    simp only [act, append, happend, if_true, h.fatal] at hf
    cases hf

/-- **An act** brings the loop nearer to `handleWrite`. -/
theorem Pending.act (hw : s.stack none = a :: rest) (ha : a.precedes = true) (n : Nat) :
    ∃ t, step (.act none (willing n)) s = some t ∧ Pending t ∧ t.work < s.work := by
  have heff := act_effect s none (willing n) a
  have hfatal := h.fatal_act hw ha n
  have hwrite : a ≠ .handleWrite := by
    rintro rfl
    cases ha
  obtain ⟨hless, hnew⟩ := (act_next s none (willing n) a).work (h.steady.shaped.admissible.head hw)
    ha rfl h.readableBytes
  have hstep : step (.act none (willing n)) s = some { (s.act none (willing n) a).1 with
      stack := Function.update s.stack none ((s.act none (willing n) a).2 ++ rest) } := by
    simp [step, h.fatal, hw]
  have hsteady := h.steady.step (l := .act none (willing n)) (by simp [Unforced, willing]) hstep
  have hst := hsteady.streamed
  refine ⟨_, hstep, ⟨hsteady, hfatal, ?_, ?_, ?_, ?_, ?_⟩, ?_⟩
  · show (s.act none (willing n) a).1.shutdowns = []
    rw [heff.shutdowns, h.shutdowns]
    cases a with
    | channelShutdown => cases ha
    | _ => rfl
  · intro hnil
    have hpre := readable_act h.steady.streamed none (willing n) hwrite
    rw [show (s.act none (willing n) a).1.output_.readable = [] from hnil] at hpre
    exact h.output (List.prefix_nil.mp hpre)
  · show (s.act none (willing n) a).1.registered ≠ none
    rw [heff.registered]
    obtain ⟨m, hm⟩ := Option.ne_none_iff_exists'.mp h.registered
    cases a <;> simp [TcpAct.registers, hm]
  · intro b hb
    simp only [Function.update_self, List.mem_append] at hb
    rcases hb with hb | hb
    · exact .inl (hnew b hb)
    · exact h.precedes b (hw ▸ List.mem_cons_of_mem a hb)
  · refine le_trans (backlog_act h.steady.streamed hw ha ?_) h.backlog
    exact ⟨hst.wellFormed, hst.r_idx_, hst.length_lt, hst.bytes, hst.fault⟩
  · unfold work
    simp only [Function.update_self, heff.queue, heff.collected, hw, List.map_append, List.map_cons,
      List.sum_append, List.sum_cons]
    omega

/-- **A task** is taken from the queue. -/
theorem Pending.task {task : TcpTask T} {queue : List (TcpTask T)} (hidle : s.stack none = [])
    (hq : s.queue = task :: queue) :
    ∃ t, step .task s = some t ∧ Pending t ∧ t.work < s.work ∧ t.stack none = task.acts := by
  have hne : task ≠ .forceShutdown := by
    rintro rfl
    exact h.steady.forceless.queue (hq ▸ List.mem_cons_self)
  have hstep : step .task s = some { s with
      queue := queue
      stack := Function.update s.stack none task.acts } := by
    simp [step, h.fatal, hidle, hq]
  refine ⟨_, hstep, ⟨h.steady.step (l := .task) trivial hstep, h.fatal, h.shutdowns, h.output,
    h.registered, ?_, ?_⟩, ?_, by simp⟩
  · intro a ha
    simp only [Function.update_self] at ha
    exact precedes_acts hne a ha
  · refine le_trans (Nat.le_of_eq ?_) h.backlog
    simp [TcpConnection.backlog, hidle, hq, payloads_acts]
  · simp only [TcpConnection.work, Function.update_self, hidle, hq, List.map_cons, List.sum_cons,
      List.map_nil, List.sum_nil, TcpTask.work]
    omega

/-- **A reported event** becomes a task. -/
theorem Pending.dispatch {events : EventMask} (hc : s.collected = some events) :
    ∃ t, step .dispatch s = some t ∧ Pending t ∧ t.work < s.work ∧ t.stack = s.stack ∧
      t.queue = s.queue ++ [.handleEvents events] := by
  have hstep : step .dispatch s = some { s with
      collected := none
      queue := s.queue ++ [.handleEvents events] } := by
    simp [step, h.fatal, hc]
  refine ⟨_, hstep, ⟨h.steady.step (l := .dispatch) trivial hstep, h.fatal, h.shutdowns, h.output,
    h.registered, h.precedes, ?_⟩, ?_, rfl, rfl⟩
  · refine le_trans (Nat.le_of_eq ?_) h.backlog
    simp [TcpConnection.backlog, TcpTask.payloads]
  · simp only [TcpConnection.work, hc, List.map_append, List.sum_append, List.map_cons, List.map_nil,
      List.sum_cons, List.sum_nil, Option.elim_none, Option.elim_some]
    omega

/-- **The event is reported** where the loop has nothing else to do. -/
theorem Pending.collect (hidle : s.stack none = []) (hc : s.collected = none) :
    ∃ t, step (.collect EPOLLOUT) s = some t ∧ Pending t ∧ t.stack = s.stack ∧ t.queue = s.queue ∧
      t.collected = some EPOLLOUT := by
  obtain ⟨m, hm⟩ := Option.ne_none_iff_exists'.mp h.registered
  have hevents : writable m = true := by
    have heq : s.interest = s.events_ := h.steady.interest_eq h.fatal (by simp [hidle])
    rw [interest, hm, Option.getD_some] at heq
    rw [heq]
    exact (h.steady.writable h.fatal (by simp [hidle])).mpr h.readableBytes
  have hstep : step (.collect EPOLLOUT) s = some { s with collected := some EPOLLOUT } := by
    simp [step, h.fatal, hm, hc, reportable_of_writable hevents]
  refine ⟨_, hstep, ⟨h.steady.step (l := .collect EPOLLOUT) trivial hstep, h.fatal, h.shutdowns,
    h.output, h.registered, h.precedes, h.backlog⟩, rfl, rfl, rfl⟩

/-- **`handleWrite`** writes all there is. -/
theorem Pending.handleWrite (hw : s.stack none = .handleWrite :: rest) :
    ∃ t, step (.act none (willing s.output_.readableBytes)) s = some t ∧
      t.written = payloadBytes t.accepted := by
  have hst := h.steady.streamed
  have hlen := hst.readableBytes_eq
  have hevents : writable s.events_ = true :=
    (h.steady.writable h.fatal (by simp [hw])).mpr h.readableBytes
  have hlt : s.output_.readableBytes < 2 ^ 63 := by
    have hread := hst.wellFormed.length_readable
    have hwl := hst.wellFormed.w_le_length
    have hlength := hst.length_lt
    omega
  have hpos : 0 < toSigned s.output_.readableBytes := by
    have hne := h.readableBytes
    rw [Buffer.toSigned_eq hlt]
    omega
  obtain ⟨b, hb, -⟩ := hst.wellFormed.retrieve_spec (Nat.le_of_eq hlen) true
  have hload : s.output_.load s.output_.r_idx_ s.output_.readableBytes = .ok s.output_.readable := by
    rw [hst.wellFormed.load_front (Nat.le_of_eq hlen), hlen, List.take_length]
  have hout := writeOut_of hload hb
  have hact : (s.act none (willing s.output_.readableBytes) .handleWrite).1 =
      { s with output_ := b, written := s.written ++ s.output_.readable } := by
    show (TcpConnection.handleWrite s (willing s.output_.readableBytes)).1 = _
    unfold TcpConnection.handleWrite
    rw [if_neg (by rw [hevents]; simp), if_pos hpos]
    simp only [willing, Nat.min_self]
    rw [hout]
  have hstep : step (.act none (willing s.output_.readableBytes)) s =
      some { (s.act none (willing s.output_.readableBytes) .handleWrite).1 with
        stack := Function.update s.stack none
          ((s.act none (willing s.output_.readableBytes) .handleWrite).2 ++ rest) } := by
    simp only [step, h.fatal, hw, ne_eq, not_true_eq_false, if_false]
  rw [hact] at hstep
  exact ⟨_, hstep, hst.bytes⟩

end Pending

end TcpConnection

namespace TcpSender

open TcpConnection TcpReceiver

variable {T : Type*}

/-- Nobody calls `ForceShutdown`. -/
def Unforced : SenderLabel T → Prop
  | .conn l => TcpConnection.Unforced l
  | .space => True

/-- There is nothing to write, or an event for it is on its way or to come. -/
def Prompted (s : TcpSender T) : Prop :=
  writable s.conn.interest = true → s.conn.output_.readableBytes ≠ 0 →
    s.ready = true ∨ s.full = true ∨ s.conn.InFlight

theorem interested_eq (c : TcpConnection T) : interested c = writable c.interest := by
  unfold interested interest
  cases c.registered with
  | none => decide
  | some m => rfl

variable [DecidableEq T]

/-- One step from `s`, by its label. -/
inductive Moves (s : TcpSender T) : SenderLabel T → TcpSender T → Prop
  | space (hfull : s.full = true) : Moves s .space { s with
      full := false
      ready := s.ready || interested s.conn }
  | act {w : Option T} {env env' : TcpEnv} {a : TcpAct T} {rest : List (TcpAct T)}
      {c : TcpConnection T} {full : Bool} (hw : s.conn.stack w = a :: rest)
      (henv : env' = { env with write := if s.conn.shutdowns = [] then env.write else none })
      (hfull : full = if a = .handleWrite then decide (c.output_.readableBytes ≠ 0) else s.full)
      (h : s.conn.step (.act w env') = some c) :
      Moves s (.conn (.act w env)) {
        conn := c
        full := full
        ready := s.ready || (ctl s.conn a && interested c && !full) }
  | collect {events : EventMask} {c : TcpConnection T} (h : s.conn.step (.collect events) = some c) :
      Moves s (.conn (.collect events)) { s with
        conn := c
        ready := s.ready && !contains events ReceiveEvents.kWritable }
  | other {l : TcpLabel T} {c : TcpConnection T} (hl : ∀ w env, l ≠ .act w env)
      (h : s.conn.step l = some c) : Moves s (.conn l) { s with conn := c }

/-- **Inversion of a step**. -/
theorem moves_of_step {l : SenderLabel T} {s t : TcpSender T} (h : step l s = some t) :
    Moves s l t := by
  cases l with
  | space =>
    simp only [step, Option.ite_none_right_eq_some, Option.some.injEq] at h
    obtain ⟨hfull, rfl⟩ := h
    exact .space hfull
  | conn l =>
    cases l with
    | act w env =>
      simp only [step] at h
      split at h
      · cases h
      · rename_i hw
        obtain ⟨c, hc, rfl⟩ := Option.map_eq_some_iff.mp h
        exact .act hw rfl rfl hc
    | collect events =>
      simp only [step, Option.ite_none_right_eq_some] at h
      obtain ⟨c, hc, rfl⟩ := Option.map_eq_some_iff.mp h.2
      exact .collect hc
    | call | task | dispatch =>
      obtain ⟨c, hc, rfl⟩ := Option.map_eq_some_iff.mp h
      exact .other (by simp) hc

/-- What holds along every run in which nobody calls `ForceShutdown`. -/
structure Inv (s : TcpSender T) : Prop where
  steady : s.conn.Steady
  prompted : Prompted s

section Step

variable {l : SenderLabel T} {s t : TcpSender T}

/-- The step of the connection alone. -/
theorem Inv.conn (h : Inv s) (hg : Unforced l) (ht : step l s = some t) : t.conn.Steady := by
  cases moves_of_step ht with
  | space => exact h.steady
  | @act w env env' a rest c full hw henv hfull hc =>
    subst henv
    refine h.steady.step (l := .act w { env with write := _ }) ?_ hc
    exact (show TcpConnection.Unforced (.act w env) from hg)
  | collect hc => exact h.steady.step (l := .collect _) hg hc
  | other hl hc => exact h.steady.step hg hc

/-- An act that is not `handleWrite` and no `epoll_ctl` forgets no event. -/
theorem Inv.prompted_act (h : Inv s) {w : Option T} {env : TcpEnv} {a : TcpAct T}
    {rest : List (TcpAct T)} {c : TcpConnection T} (hw : s.conn.stack w = a :: rest)
    (ha : a ≠ .handleWrite) (hc : s.conn.step (.act w env) = some c)
    (hreg : c.registered = s.conn.registered) (hon : writable c.interest = true)
    (hz : c.output_.readableBytes ≠ 0) : s.ready = true ∨ s.full = true ∨ c.InFlight := by
  have hsame : writable s.conn.interest = true := by
    unfold interest at hon ⊢
    rwa [hreg] at hon
  have hcur : current (.act w env) s.conn = some a := current_of_stack hw
  obtain ⟨hfatal, hmoves⟩ := TcpConnection.moves_of_step hc
  have hbefore : s.conn.output_.readableBytes ≠ 0 := by
    by_cases happend : ∃ p, a = .append p
    · -- `handleSend` appends to an empty `output_` without write interest only
      obtain ⟨p, rfl⟩ := happend
      obtain rfl : w = none := h.steady.shaped.admissible.head hw
      rw [← h.steady.writable hfatal (by simp [hw]),
        ← h.steady.interest_eq hfatal (by simp [hw])]
      exact hsame
    · push Not at happend
      cases hmoves with
      | @act w env b rest' hw' =>
        obtain ⟨rfl, -⟩ := List.cons.inj (hw'.symm.trans hw)
        rw [← output_act (s := s.conn) (w := w) happend ha]
        exact hz
  rcases h.prompted hsame hbefore with hready | hfull | hflight
  · exact .inl hready
  · exact .inr (.inl hfull)
  · exact .inr (.inr (inFlight_step hflight (by rw [hcur]; simpa using ha) hc))

theorem Inv.step (h : Inv s) (hg : Unforced l) (ht : TcpSender.step l s = some t) : Inv t := by
  refine ⟨h.conn hg ht, fun hon hz => ?_⟩
  cases moves_of_step ht with
  | space hfull => exact .inl (by simp [interested_eq, show writable s.conn.interest = true from hon])
  | @act w env env' a rest c full hw henv hfull hc =>
    by_cases hwrite : a = .handleWrite
    · -- what `write` has left behind waits for space
      rw [if_pos hwrite] at hfull
      exact .inr (.inl (hfull.trans (decide_eq_true hz)))
    · rw [if_neg hwrite] at hfull
      subst hfull
      have hreg := (registered_of_act hw hc).1
      by_cases hctl : ctl s.conn a = true
      · cases hf : s.full with
        | true => exact .inr (.inl rfl)
        | false =>
          refine .inl ?_
          have hint : interested c = true := (interested_eq c).trans hon
          simp [hctl, hint]
      · have hsame : c.registered = s.conn.registered := by
          rw [hreg]
          cases a with
          | addChannel | update =>
            cases hr : s.conn.registered <;> simp_all [ctl, TcpAct.registers]
          | _ => rfl
        rcases h.prompted_act hw hwrite hc hsame hon hz with hr | hf | hflight
        · exact .inl (by simp [hr])
        · exact .inr (.inl hf)
        · exact .inr (.inr hflight)
  | @collect events c hc =>
    have hreg := registered_step (by simp) hc
    have hsame : writable s.conn.interest = true := by
      unfold interest at hon ⊢
      rwa [hreg] at hon
    obtain ⟨-, hmoves⟩ := TcpConnection.moves_of_step hc
    cases hmoves with
    | collect hr hcol he =>
      by_cases hout : contains events ReceiveEvents.kWritable = true
      · -- the event is on its way
        exact .inr (.inr (.inl (by simpa using hout)))
      · rcases h.prompted hsame hz with hready | hfull | hflight
        · exact .inl (by simp [hready, hout])
        · exact .inr (.inl hfull)
        · exact .inr (.inr (inFlight_step hflight (by simp [current]) hc))
  | @other l c hl hc =>
    have hreg := registered_step hl hc
    have hsame : writable s.conn.interest = true := by
      unfold interest at hon ⊢
      rwa [hreg] at hon
    have hout : c.output_ = s.conn.output_ := by
      obtain ⟨-, hmoves⟩ := TcpConnection.moves_of_step hc
      cases hmoves with
      | act => exact absurd rfl (hl _ _)
      | _ => rfl
    have hbefore : s.conn.output_.readableBytes ≠ 0 := hout ▸ hz
    rcases h.prompted hsame hbefore with hready | hfull | hflight
    · exact .inl hready
    · exact .inr (.inl hfull)
    · refine .inr (.inr (inFlight_step hflight ?_ hc))
      cases l <;> simp_all [current]

/-! ### The steps of the loop and the scheduler -/

/-- There is something to write, and an event for it is on its way or to come. -/
structure Driven (s : TcpSender T) : Prop where
  inv : Inv s
  pending : s.conn.Pending

theorem Driven.step (h : Driven s) (hg : Unforced l) (ht : TcpSender.step l s = some t)
    (hp : t.conn.Pending) : Driven t := ⟨h.inv.step hg ht, hp⟩

/-- What is left in `output_` when the socket is shut down is never written. -/
structure Cut (s : TcpSender T) : Prop where
  streamed : s.conn.Streamed
  shutdowns : s.conn.shutdowns ≠ []
  output : s.conn.output_.readable ≠ []

omit [DecidableEq T] in
/-- A failing `write` takes nothing. -/
theorem output_handleWrite_none {c : TcpConnection T} {env : TcpEnv} (henv : env.write = none) :
    (c.handleWrite env).1.output_ = c.output_ := by
  unfold TcpConnection.handleWrite
  rw [henv]
  split_ifs <;> rfl

theorem Cut.step (h : Cut s) (ht : TcpSender.step l s = some t) : Cut t := by
  cases moves_of_step ht with
  | space => exact ⟨h.streamed, h.shutdowns, h.output⟩
  | @act w env env' a rest c full hw henv hfull hc =>
    rw [if_neg h.shutdowns] at henv
    have hst := streamed_step h.streamed hc
    obtain ⟨-, hmoves⟩ := TcpConnection.moves_of_step hc
    cases hmoves with
    | @act _ _ b rest' hw' =>
      have heff := act_effect s.conn w env' b
      refine ⟨hst, fun hnil => ?_, fun hnil => ?_⟩
      · have heq := heff.shutdowns.symm.trans hnil
        exact h.shutdowns (List.append_eq_nil_iff.mp heq).1
      · replace hnil : (s.conn.act w env' b).1.output_.readable = [] := hnil
        by_cases hwrite : b = .handleWrite
        · subst hwrite
          have hsame : (s.conn.act w env' .handleWrite).1.output_ = s.conn.output_ :=
            output_handleWrite_none (by rw [henv])
          rw [hsame] at hnil
          exact h.output hnil
        · have hpre := readable_act h.streamed w env' hwrite
          rw [hnil] at hpre
          exact h.output (List.prefix_nil.mp hpre)
  | collect hc =>
    have hst := streamed_step h.streamed hc
    obtain ⟨-, hmoves⟩ := TcpConnection.moves_of_step hc
    cases hmoves with
    | collect => exact ⟨hst, h.shutdowns, h.output⟩
  | other hl hc =>
    have hst := streamed_step h.streamed hc
    obtain ⟨-, hmoves⟩ := TcpConnection.moves_of_step hc
    cases hmoves with
    | act => exact absurd rfl (hl _ _)
    | _ => exact ⟨hst, h.shutdowns, h.output⟩

end Step

/-! ### Main theorem -/

theorem inv_of_reach {s : TcpSender T} (h : (tcpSender T).Reach (fun l _ => Unforced l) s) :
    Inv s := by
  refine h.invariant ?_ fun l s t hs hg ht => hs.step hg ht
  rintro s ⟨addr, cells, rfl⟩
  have hnone : ¬ writable SelectEvents.kNoneEvent = true := by decide
  exact ⟨steady_start addr cells, fun hon => absurd hon hnone⟩

/-- Two bytes have been sent, and the event for them is to come. -/
def sendTwo : List (SenderLabel Unit) :=
  (runTask 5 ++ runCall () (.send twoBytes) 2 ++ runTask 4).map .conn

end TcpSender

end Lizlib
