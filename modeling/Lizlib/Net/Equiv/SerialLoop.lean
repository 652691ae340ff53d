import Lizlib.Concurrent.Equiv.LockFreeQueue
import Lizlib.Data.SerialExecutor
import Lizlib.Net.Equiv.EventLoop

/-!
# The event loop is a serial executor

Every step of an event loop, however many threads call `Submit`, is one step or none of a serial
executor (`executes`): a submission takes place when the compare-exchange of its `Push` succeeds, and
a task is begun when the one of the loop's `Pop` does.

* `Pops`: what a step of `Pop` does to the nodes and the element it returns.
* `serial`: exactly the calls of `Submit` are executed, one after the other, in the order of their
  submissions, which for each thread is the order of its calls.
-/

namespace Lizlib

open Function (update)

namespace LockFreeQueue

variable {P A E : Type*} [DecidableEq P] [DecidableEq A]

/-! ### What is linked and unlinked -/

/-- A step of `Push` links nothing, or the node of its caller. -/
theorem pushStep_pushed (q : LockFreeQueue P Unit A E) (p : P) :
    (q.pushStep p).popped = q.popped ∧ (q.pushStep p).pop = q.pop ∧
      ((q.pushStep p).pushed = q.pushed ∧ (q.pushStep p).chain = q.chain ∨
        ∃ n x, (q.pushStep p).pushed = q.pushed ++ [(p, x)] ∧
          (q.pushStep p).chain = q.chain ++ [⟨n, p, x⟩]) := by
  have hlink : ∀ pc, (q.link p (q.push p) pc).popped = q.popped ∧
      (q.link p (q.push p) pc).pop = q.pop ∧
      ((q.link p (q.push p) pc).pushed = q.pushed ∧ (q.link p (q.push p) pc).chain = q.chain ∨
        ∃ n x, (q.link p (q.push p) pc).pushed = q.pushed ++ [(p, x)] ∧
          (q.link p (q.push p) pc).chain = q.chain ++ [⟨n, p, x⟩]) := by
    intro pc
    unfold link
    split
    · split
      · exact ⟨rfl, rfl, .inl ⟨rfl, rfl⟩⟩
      · exact ⟨rfl, rfl, .inr ⟨_, _, rfl, rfl⟩⟩
    · split
      · exact ⟨rfl, rfl, .inl ⟨rfl, rfl⟩⟩
      · exact ⟨rfl, rfl, .inr ⟨_, _, rfl, rfl⟩⟩
    · exact ⟨rfl, rfl, .inl ⟨rfl, rfl⟩⟩
  unfold LockFreeQueue.pushStep
  cases q.mem.pushStep (q.push p) with
  | none => exact ⟨rfl, rfl, .inl ⟨rfl, rfl⟩⟩
  | some x => exact hlink x.2

/-- What a step of `Pop` has done, and what it has returned. -/
inductive Pops (q r : LockFreeQueue P Unit A E) : Option (Option E) → Prop
  | reads (hpop : r.pop () ≠ .idle) (hhand : (r.pop ()).hand = (q.pop ()).hand)
      (hpopped : r.popped = q.popped) (hchain : r.chain = q.chain) : Pops q r none
  | unlinks {c : Linked P A E} (hchain : q.chain = c :: r.chain)
      (hpopped : r.popped = q.popped ++ [(c.producer, c.element)])
      (hhand : (q.pop ()).hand = none) (hhand' : (r.pop ()).hand.isSome = true) : Pops q r none
  | returns {x : E} (hpop : r.pop () = .idle) (hhand : (q.pop ()).hand.isSome = true)
      (hpopped : r.popped = q.popped) (hchain : r.chain = q.chain)
      (hreturned : r.returned = q.returned ++ [x]) : Pops q r (some (some x))
  | null (hpop : r.pop () = .idle) (hhand : (q.pop ()).hand = none)
      (hpopped : r.popped = q.popped) (hchain : r.chain = q.chain) : Pops q r (some none)

/-- A step of `Pop` never faults, and does one of these. -/
theorem Inv.pops {q : LockFreeQueue P Unit A E} (h : Inv q) (hpop : q.pop () ≠ .idle) :
    ∃ m pc result, q.mem.popStep (q.pop ()) = some (m, pc, result) ∧
      Pops q (q.popStep ()) result := by
  have hreads := h.shape.reads
  have moved : ∀ m pc result, q.mem.popStep (q.pop ()) = some (m, pc, result) →
      Pops q { q.unlink (q.pop ()) pc with
        mem := m
        pop := update q.pop () pc
        returned := q.returned ++ (result.bind id).toList } result →
      ∃ m pc result, q.mem.popStep (q.pop ()) = some (m, pc, result) ∧
        Pops q (q.popStep ()) result := by
    intro m pc result hstep hpops
    refine ⟨m, pc, result, hstep, ?_⟩
    unfold LockFreeQueue.popStep
    rw [hstep]
    exact hpops
  cases hpc : q.pop () with
  | idle => exact absurd hpc hpop
  | loadTail =>
    rw [hpc] at moved
    cases ht : q.mem.tail_ with
    | none =>
      exact moved q.mem .idle (some none) (by simp only [QueueMem.popStep, ht])
        (.null (by simp) (by simp [hpc, PopPc.hand]) rfl rfl)
    | some t =>
      exact moved q.mem (.loadHead t) none (by simp only [QueueMem.popStep, ht])
        (.reads (by simp) (by simp [hpc, PopPc.hand]) rfl rfl)
  | loadHead t =>
    rw [hpc] at moved
    by_cases hhead : q.mem.head_ = some t
    · exact moved q.mem (.casTail t) none (by simp only [QueueMem.popStep, hhead, if_true])
        (.reads (by simp) (by simp [hpc, PopPc.hand]) rfl rfl)
    · exact moved q.mem (.loadNext q.mem.head_) none (by simp only [QueueMem.popStep, hhead, if_false])
        (.reads (by simp) (by simp [hpc, PopPc.hand]) rfl rfl)
  | casTail a =>
    rw [hpc] at hreads moved
    by_cases ht : q.mem.tail_ = some a
    · obtain ⟨c, l, hchain, -⟩ := h.shape.exists_head hreads.1
      apply moved { q.mem with tail_ := none } (.storeHead a) none
        (by simp only [QueueMem.popStep, ht, if_true])
      simp only [unlink, hchain]
      exact .unlinks hchain rfl (by simp [hpc, PopPc.hand]) (by simp [PopPc.hand])
    · exact moved q.mem (.loadNext (some a)) none (by simp only [QueueMem.popStep, ht, if_false])
        (.reads (by simp) (by simp [hpc, PopPc.hand]) rfl rfl)
  | storeHead a =>
    rw [hpc] at moved
    exact moved { q.mem with head_ := none } (.take a) none rfl
      (.reads (by simp) (by simp [hpc, PopPc.hand]) rfl rfl)
  | loadNext o =>
    rw [hpc] at hreads moved
    obtain ⟨c, l, hchain, hhead⟩ := h.shape.exists_head hreads.1
    obtain rfl : o = some c.node := hreads.2.symm.trans hhead
    obtain ⟨next, hnode⟩ := h.owner.chain_live c (by simp [hchain])
    cases next with
    | none =>
      exact moved q.mem .loadTail none (by simp only [QueueMem.popStep, hnode])
        (.reads (by simp) (by simp [hpc, PopPc.hand]) rfl rfl)
    | some n =>
      exact moved q.mem (.casHead c.node n) none (by simp only [QueueMem.popStep, hnode])
        (.reads (by simp) (by simp [hpc, PopPc.hand]) rfl rfl)
  | casHead a n =>
    rw [hpc] at hreads moved
    obtain ⟨c, l, hchain, -⟩ := h.shape.exists_head hreads.1
    apply moved { q.mem with head_ := some n } (.take a) none
      (by simp only [QueueMem.popStep, hreads.2.1, if_true])
    simp only [unlink, hchain]
    exact .unlinks hchain rfl (by simp [hpc, PopPc.hand]) (by simp [PopPc.hand])
  | take a =>
    rw [hpc] at moved
    obtain ⟨nd, hnd⟩ := h.owner.hand_live a (by rw [hpc]; rfl)
    exact moved _ .idle (some (some nd.element_)) (by simp only [QueueMem.popStep, hnd]; rfl)
      (.returns (by simp) (by simp [hpc, PopPc.hand]) rfl rfl (by simp))

omit [DecidableEq P] in
/-- No producer moves. -/
theorem popStep_push (q : LockFreeQueue P Unit A E) : (q.popStep ()).push = q.push := by
  have hunlink : ∀ pc, (q.unlink (q.pop ()) pc).push = q.push := by
    intro pc
    unfold unlink
    split
    · split <;> rfl
    · split <;> rfl
    · rfl
  unfold LockFreeQueue.popStep
  cases q.mem.popStep (q.pop ()) with
  | none => rfl
  | some x => exact hunlink x.2.1

/-- `Push` is over only after `on_empty` or the store of `next_`. -/
theorem pushStep_ne_idle (q : LockFreeQueue P Unit A E) {p : P} (hidle : q.push p ≠ .idle)
    (hempty : q.push p ≠ .onEmpty) (hnext : ∀ n t, q.push p ≠ .storeNext n t) :
    (q.pushStep p).push p ≠ .idle := by
  unfold LockFreeQueue.pushStep
  cases hpc : q.push p with
  | idle => exact absurd hpc hidle
  | onEmpty => exact absurd hpc hempty
  | storeNext n t => exact absurd hpc (hnext n t)
  | loadTail n => cases ht : q.mem.tail_ <;> simp [QueueMem.pushStep, ht]
  | casHead n => by_cases hh : q.mem.head_ = none <;> simp [QueueMem.pushStep, hh]
  | storeTail n => simp [QueueMem.pushStep]
  | casTail n t => by_cases ht : q.mem.tail_ = some t <;> simp [QueueMem.pushStep, ht]

end LockFreeQueue

namespace EventLoop

variable {T J A E : Type*}

/-! ### The serial executor -/

/-- The serial executor the loop stands for: a task is being executed from the compare-exchange that
unlinks its node to its return. -/
def executor (s : EventLoop T J A E) : SerialExecutor (Option T) E where
  queue := s.lfq_.chain.map fun c => (c.producer, c.element)
  started := s.lfq_.popped
  busy := (s.lfq_.pop ()).hand.isSome || s.running

/-- The step of the executor that a step from `s` to `t` takes. -/
def observe (s t : EventLoop T J A E) : LoopLabel T J A E → Option (SerialLabel (Option T) E)
  | .push _ => (t.lfq_.pushed.drop s.lfq_.pushed.length).head?.map fun x => .submit x.1 x.2
  | .loop => if s.lfq_.popped.length < t.lfq_.popped.length then some .start else none
  | .finish => some .finish
  | _ => none

variable [DecidableEq T]

/-- What holds between the steps of a loop. -/
structure Serial (s : EventLoop T J A E) : Prop where
  queue : s.lfq_.Inv
  pushing : ∀ t, s.submit t = .pushing → s.lfq_.push t ≠ .idle
  popping : s.loop = .pop → s.lfq_.pop () ≠ .idle
  not_popping : s.loop ≠ .pop → s.lfq_.pop () = .idle
  /-- The callback the loop's thread is running is the task begun last. -/
  current : ∀ work, s.loop = .run work → s.lfq_.popped.getLast?.map Prod.snd = some work

theorem serial_start : Serial (start : EventLoop T J A E) where
  queue := LockFreeQueue.inv_start
  pushing t h := by cases h
  popping h := by cases h
  not_popping _ := rfl
  current work h := by cases h

section

variable {s t : EventLoop T J A E}

omit [DecidableEq T] in
/-- The thread's wake-up neither begins nor ends a task. -/
theorem wake_cases (s : EventLoop T J A E) : s.wake = s ∨
    s.loop = .asleep ∧ s.wake = { s with loop := .check } := by
  unfold wake
  split
  · rename_i h
    exact .inr ⟨h, rfl⟩
  · exact .inl rfl

theorem Serial.wake (h : Serial s) : Serial s.wake ∧ s.wake.executor = s.executor := by
  rcases s.wake_cases with hw | ⟨hloop, hw⟩
  · rw [hw]
    exact ⟨h, rfl⟩
  · rw [hw]
    refine ⟨⟨h.queue, h.pushing, by simp, fun _ => h.not_popping (by simp [hloop]), by simp⟩, ?_⟩
    simp [executor, running, hloop]

/-- The queue stays as it is, and the loop's thread neither enters nor leaves a `Pop` or a
callback. -/
theorem Serial.frame (h : Serial s) (hlfq : t.lfq_ = s.lfq_)
    (hpop : t.loop = .pop ↔ s.loop = .pop) (hrun : ∀ work, t.loop = .run work ↔ s.loop = .run work)
    (hsubmit : ∀ p, t.submit p = .pushing → s.submit p = .pushing) :
    Serial t ∧ t.executor = s.executor := by
  have hrunning : t.running = s.running := by
    unfold running
    cases hs : s.loop with
    | run work => rw [(hrun work).mpr hs]
    | _ =>
      cases ht : t.loop with
      | run work =>
        have := (hrun work).mp ht
        simp [hs] at this
      | _ => rfl
  refine ⟨⟨?_, ?_, ?_, ?_, ?_⟩, ?_⟩
  · exact hlfq ▸ h.queue
  · intro p hp
    rw [hlfq]
    exact h.pushing p (hsubmit p hp)
  · rw [hlfq, hpop]
    exact h.popping
  · rw [hlfq, Ne, hpop]
    exact h.not_popping
  · intro work hwork
    rw [hlfq]
    exact h.current work ((hrun work).mp hwork)
  · simp only [executor, hlfq, hrunning]

/-! ### Submissions -/

variable [DecidableEq A]

/-- A call of `Push` allocates its node, which nobody sees yet. -/
theorem Serial.callPush (h : Serial s) {p : Option T} {x : E} {n : A}
    {q : LockFreeQueue (Option T) Unit A E}
    (hq : LockFreeQueue.step (.callPush p x n) s.lfq_ = some q) :
    Serial { s with lfq_ := q, submit := update s.submit p .pushing } ∧
      executor { s with lfq_ := q, submit := update s.submit p .pushing } = s.executor := by
  have hinv := LockFreeQueue.inv_step h.queue hq
  simp only [LockFreeQueue.step, Option.ite_none_right_eq_some, Option.some.injEq] at hq
  obtain ⟨-, rfl⟩ := hq
  refine ⟨⟨hinv, fun r hr => ?_, h.popping, h.not_popping, h.current⟩, rfl⟩
  by_cases hrp : r = p
  · subst hrp
    simp
  · replace hr : update s.submit p .pushing r = .pushing := hr
    rw [Function.update_of_ne hrp] at hr
    simpa [hrp] using h.pushing r hr

/-- What a step of `Push` does outside the queue. -/
theorem pushStep_frame (s : EventLoop T J A E) (p : Option T) :
    (s.pushStep p).lfq_ = s.lfq_.pushStep p ∧
      ((s.pushStep p).loop = s.loop ∨ s.loop = .asleep ∧ (s.pushStep p).loop = .check) ∧
      ∀ r, (s.pushStep p).submit r = .pushing → s.submit r = .pushing ∧
        (r = p → s.lfq_.push p ≠ .onEmpty ∧ ∀ n t, s.lfq_.push p ≠ .storeNext n t) := by
  have hleft : ∀ r, update s.submit p .idle r = .pushing → s.submit r = .pushing ∧ r ≠ p := by
    intro r hr
    by_cases hrp : r = p
    · subst hrp
      simp at hr
    · exact ⟨by rwa [Function.update_of_ne hrp] at hr, hrp⟩
  unfold EventLoop.pushStep
  split
  · refine ⟨rfl, ?_, fun r hr => ⟨(hleft r hr).1, fun hrp => absurd hrp (hleft r hr).2⟩⟩
    rcases s.wake_cases with hw | ⟨hloop, hw⟩
    · exact .inl (show s.wake.loop = s.loop by rw [hw])
    · exact .inr ⟨hloop, show s.wake.loop = .check by rw [hw]⟩
  · exact ⟨rfl, .inl rfl, fun r hr => ⟨(hleft r hr).1, fun hrp => absurd hrp (hleft r hr).2⟩⟩
  · rename_i hempty hnext
    exact ⟨rfl, .inl rfl, fun r hr => ⟨hr, fun _ => ⟨hempty, hnext⟩⟩⟩

/-- **Submission**: a step of `Push` is the submission of its task when it links the node. -/
theorem Serial.push (h : Serial s) {p : Option T} (hp : s.submit p = .pushing) :
    Serial (s.pushStep p) ∧
      match observe s (s.pushStep p) (.push p) with
      | none => (s.pushStep p).executor = s.executor
      | some l => SerialExecutor.step l s.executor = some (s.pushStep p).executor := by
  have hidle := h.pushing p hp
  obtain ⟨hlfq, hloop, hsubmit⟩ := s.pushStep_frame p
  obtain ⟨hpopped, hpop, hlinked⟩ := s.lfq_.pushStep_pushed p
  have hnorun : ∀ work, (s.pushStep p).loop = .run work ↔ s.loop = .run work := by
    intro work
    rcases hloop with hloop | ⟨hs, ht⟩
    · rw [hloop]
    · simp [hs, ht]
  have hnopop : (s.pushStep p).loop = .pop ↔ s.loop = .pop := by
    rcases hloop with hloop | ⟨hs, ht⟩
    · rw [hloop]
    · simp [hs, ht]
  have hrunning : (s.pushStep p).running = s.running := by
    unfold running
    rcases hloop with hloop | ⟨hs, ht⟩
    · rw [hloop]
    · rw [hs, ht]
  constructor
  · refine ⟨?_, fun r hr => ?_, ?_, ?_, fun work hwork => ?_⟩
    · exact hlfq ▸ h.queue.pushStep hidle
    · rw [hlfq]
      obtain ⟨hr, hends⟩ := hsubmit r hr
      by_cases hrp : r = p
      · subst hrp
        exact s.lfq_.pushStep_ne_idle hidle (hends rfl).1 (hends rfl).2
      · rw [pushStep_push_ne s.lfq_ hrp]
        exact h.pushing r hr
    · rw [hlfq, hpop, hnopop]
      exact h.popping
    · rw [hlfq, hpop, Ne, hnopop]
      exact h.not_popping
    · rw [hlfq, hpopped]
      exact h.current work ((hnorun work).mp hwork)
  · rcases hlinked with ⟨hpushed, hchain⟩ | ⟨n, x, hpushed, hchain⟩
    · simp only [observe, hlfq, hpushed, List.drop_length, List.head?_nil, Option.map_none, executor,
        hchain, hpopped, hpop, hrunning]
    · simp only [observe, hlfq, hpushed, List.drop_left, List.head?_cons, Option.map_some,
        executor, hchain, hpopped, hpop, hrunning, SerialExecutor.step, List.map_append, List.map_cons,
        List.map_nil]

/-! ### The loop's thread -/

/-- **Execution**: a step of `Pop` begins the oldest task when it unlinks the node, and the callback
that follows is that task. -/
theorem Serial.pop (h : Serial s) (hloop : s.loop = .pop) (hstep : s.loopStep = some t) :
    Serial t ∧
      match observe s t (.loop : LoopLabel T J A E) with
      | none => t.executor = s.executor
      | some l => SerialExecutor.step l s.executor = some t.executor := by
  have hidle := h.popping hloop
  have hinv := h.queue.popStep hidle
  have hkeep := s.lfq_.popStep_push
  obtain ⟨m, pc, result, hresult, hpops⟩ := h.queue.pops hidle
  have hrunning : s.running = false := by
    unfold running
    rw [hloop]
  simp only [loopStep, hloop, hresult, Option.some.injEq] at hstep
  cases hpops with
  | reads hpop hhand hpopped hchain =>
    subst hstep
    refine ⟨⟨hinv, ?_, fun _ => hpop, fun hne => absurd rfl hne, by simp⟩, ?_⟩
    · rw [hkeep]
      exact h.pushing
    · simp only [observe, hpopped, lt_irrefl, if_false]
      simp only [executor, running, hloop, hchain, hpopped, hhand]
  | unlinks hchain hpopped hhand hhand' =>
    subst hstep
    refine ⟨⟨hinv, ?_, fun _ hpop => ?_, fun hne => absurd rfl hne, by simp⟩, ?_⟩
    · rw [hkeep]
      exact h.pushing
    · rw [hpop] at hhand'
      cases hhand'
    · simp only [observe, hpopped, List.length_append, List.length_cons, List.length_nil,
        Nat.lt_add_one, if_true, Nat.zero_add]
      simp only [executor, hpopped, hhand, hhand', hrunning, hchain, SerialExecutor.step,
        List.map_cons, Option.isSome_none, Bool.or_false, Bool.true_or]
  | @returns x hpop hhand hpopped hchain hreturned =>
    subst hstep
    refine ⟨⟨hinv, ?_, by simp, fun _ => hpop, fun work hwork => ?_⟩, ?_⟩
    · rw [hkeep]
      exact h.pushing
    · have hhistory := hinv.history.returned
      rw [hpop, hreturned] at hhistory
      simp only [PopPc.hand, QueueMem.elementAt, Option.bind_none, Option.map_none,
        Option.toList_none, List.append_nil] at hhistory
      obtain rfl : x = work := by simpa using hwork
      show (s.lfq_.popStep ()).popped.getLast?.map Prod.snd = some x
      rw [← List.getLast?_map, hhistory, List.getLast?_concat]
    · simp only [observe, hpopped, lt_irrefl, if_false]
      simp only [executor, running, hchain, hpopped, hhand, Bool.or_true, Bool.true_or]
  | null hpop hhand hpopped hchain =>
    subst hstep
    refine ⟨⟨hinv, ?_, by simp, fun _ => hpop, by simp⟩, ?_⟩
    · rw [hkeep]
      exact h.pushing
    · have hhand' : ((s.lfq_.popStep ()).pop ()).hand = none := by
        rw [hpop]
        rfl
      simp only [observe, hpopped, lt_irrefl, if_false]
      simp only [executor, running, hloop, hchain, hpopped, hhand, hhand']

/-- A step of the loop's thread. -/
theorem Serial.loop (h : Serial s) (hstep : s.loopStep = some t) :
    Serial t ∧
      match observe s t (.loop : LoopLabel T J A E) with
      | none => t.executor = s.executor
      | some l => SerialExecutor.step l s.executor = some t.executor := by
  have hquiet : Serial t ∧ t.executor = s.executor → t.lfq_.popped = s.lfq_.popped → Serial t ∧
      match observe s t (.loop : LoopLabel T J A E) with
      | none => t.executor = s.executor
      | some l => SerialExecutor.step l s.executor = some t.executor := by
    intro ht hpopped
    refine ⟨ht.1, ?_⟩
    simp only [observe, hpopped, lt_irrefl, if_false]
    exact ht.2
  cases hloop : s.loop with
  | check =>
    simp only [loopStep, hloop, Option.some.injEq] at hstep
    subst hstep
    refine hquiet (h.frame rfl ?_ ?_ fun _ => id) rfl
    · rw [hloop]
      cases s.cancel_signal_ <;> simp
    · intro work
      rw [hloop]
      cases s.cancel_signal_ <;> simp
  | empty =>
    have hpop := h.not_popping (by simp [hloop])
    simp only [loopStep, hloop] at hstep
    split_ifs at hstep with hempty
    · obtain rfl := Option.some.inj hstep
      exact hquiet (h.frame rfl (by simp [hloop]) (by simp [hloop]) fun _ => id) rfl
    · obtain rfl := Option.some.inj hstep
      refine hquiet ⟨⟨?_, h.pushing, by simp, by simp, by simp⟩, ?_⟩ rfl
      · exact LockFreeQueue.inv_step (l := .callPop ()) h.queue (by
          simp only [LockFreeQueue.step, hpop, if_true])
      · simp [executor, running, hloop, hpop, PopPc.hand]
  | pop => exact h.pop hloop hstep
  | wait =>
    simp only [loopStep, hloop, Option.some.injEq] at hstep
    subst hstep
    exact hquiet (h.frame rfl (by simp [hloop]) (by simp [hloop]) fun _ => id) rfl
  | run work => simp [loopStep, hloop] at hstep
  | asleep => simp [loopStep, hloop] at hstep
  | exited => simp [loopStep, hloop] at hstep

/-! ### Every step is one of the executor or none -/

variable [DecidableEq J]

/-- **Refinement**: a step of the loop or of a thread that uses it is one step of the executor, or
none. -/
theorem Serial.step (h : Serial s) {l : LoopLabel T J A E} (hstep : EventLoop.step l s = some t) :
    Serial t ∧
      match observe s t l with
      | none => t.executor = s.executor
      | some l' => SerialExecutor.step l' s.executor = some t.executor := by
  cases l with
  | submit p x =>
    simp only [EventLoop.step] at hstep
    split at hstep
    · split_ifs at hstep
      · obtain rfl := Option.some.inj hstep
        exact ⟨h, rfl⟩
      · obtain rfl := Option.some.inj hstep
        refine h.frame rfl Iff.rfl (fun _ => Iff.rfl) fun r hr => ?_
        replace hr : update s.submit p (.push x) r = .pushing := hr
        by_cases hrp : r = p
        · subst hrp
          simp at hr
        · rwa [Function.update_of_ne hrp] at hr
    · cases hstep
  | callPush p n =>
    simp only [EventLoop.step] at hstep
    split at hstep
    · obtain ⟨q, hq, rfl⟩ := Option.map_eq_some_iff.mp hstep
      exact h.callPush hq
    · cases hstep
  | push p =>
    simp only [EventLoop.step] at hstep
    split at hstep
    · rename_i hp
      obtain rfl := Option.some.inj hstep
      exact h.push hp
    · cases hstep
  | loop => exact h.loop hstep
  | finish =>
    simp only [EventLoop.step] at hstep
    split at hstep
    · rename_i work hloop _
      obtain rfl := Option.some.inj hstep
      have hpop := h.not_popping (by simp [hloop])
      refine ⟨⟨h.queue, h.pushing, by simp, fun _ => hpop, by simp⟩, ?_⟩
      simp [observe, executor, running, hloop, hpop, PopPc.hand, SerialExecutor.step]
    · cases hstep
  | spurious =>
    simp only [EventLoop.step] at hstep
    split at hstep
    · obtain rfl := Option.some.inj hstep
      exact h.wake
    · cases hstep
  | callJoin j =>
    simp only [EventLoop.step] at hstep
    split_ifs at hstep
    · obtain rfl := Option.some.inj hstep
      exact ⟨h, rfl⟩
    · obtain rfl := Option.some.inj hstep
      exact h.frame rfl Iff.rfl (fun _ => Iff.rfl) fun _ => id
  | join j =>
    simp only [EventLoop.step, joinStep] at hstep
    split at hstep
    · cases hstep
    · obtain rfl := Option.some.inj hstep
      exact h.frame rfl Iff.rfl (fun _ => Iff.rfl) fun _ => id
    · obtain rfl := Option.some.inj hstep
      have hframe := h.wake
      have hjoin := hframe.1.frame (t := { s.wake with join := update s.join j .join }) rfl Iff.rfl
        (fun _ => Iff.rfl) fun _ => id
      exact ⟨hjoin.1, hjoin.2.trans hframe.2⟩
    · split at hstep
      · obtain rfl := Option.some.inj hstep
        exact h.frame rfl Iff.rfl (fun _ => Iff.rfl) fun _ => id
      · cases hstep

/-- The event loop is simulated by a serial executor. -/
def executes (T J A E : Type*) [DecidableEq T] [DecidableEq J] [DecidableEq A] :
    Simulation (eventLoop T J A E) (serialExecutor (Option T) E) where
  inv := Serial
  abs := executor
  obs l s := (EventLoop.step l s).bind fun t => observe s t l
  inv_init s h := by
    obtain rfl := h
    exact serial_start
  inv_step l s t h hstep := (h.step hstep).1
  abs_init s h := by
    obtain rfl := h
    rfl
  abs_step l s t h hstep := by
    replace hstep : EventLoop.step l s = some t := hstep
    have hmatch := (h.step hstep).2
    simp only [hstep, Option.bind_some]
    cases hobs : observe s t l with
    | none =>
      rw [hobs] at hmatch
      exact hmatch
    | some l' =>
      rw [hobs] at hmatch
      exact hmatch

/-- **The loop executes what is submitted, in order, one at a time**: every run is one of a serial
executor, whose submissions are for each thread its calls of `Push` in call order, with every call
that has returned among them; the callback that is running is the task begun last.  A `Submit` that
finds `cancel_signal_` set drops its task and calls no `Push`. -/
theorem serial (ls : List (LoopLabel T J A E)) {t : EventLoop T J A E}
    (h : (eventLoop T J A E).run ls start = some t) :
    ∃ ms, (serialExecutor (Option T) E).run ms .empty = some t.executor ∧
      (∀ p, LockFreeQueue.ofProducer p (SerialExecutor.submissions ms) <+: t.lfq_.calls p) ∧
      (∀ p, (t.lfq_.calls p).take (t.lfq_.done p) <+:
        LockFreeQueue.ofProducer p (SerialExecutor.submissions ms)) ∧
      ∀ work, t.loop = .run work → t.executor.busy = true ∧
        t.executor.started.getLast?.map Prod.snd = some work := by
  have hrun := (executes T J A E).run_trace serial_start h
  have hserial : Serial t :=
    (executes T J A E).inv_of_reachable (System.reachable_of_run rfl h)
  have hpushed : SerialExecutor.submissions ((executes T J A E).trace ls start) = t.lfq_.pushed := by
    have hstarted := SerialExecutor.run_started hrun
    rw [hserial.queue.history.pushed]
    exact hstarted.symm
  have hlinearizable := hserial.queue.linearizable
  refine ⟨_, hrun, ?_, ?_, fun work hwork => ⟨?_, hserial.current work hwork⟩⟩
  · rw [hpushed]
    exact hlinearizable.pushed_prefix
  · rw [hpushed]
    exact hlinearizable.done_pushed
  · simp [executor, running, hwork]

/-- A thread submits a task, and the loop's thread executes it. -/
def oneTask : List (LoopLabel Unit Unit Unit Unit) :=
  [.submit (some ()) (), .callPush (some ()) (), .push (some ()), .push (some ()), .push (some ()),
    .push (some ()), .loop, .loop, .loop, .loop, .loop, .loop, .loop]

theorem serial_oneTask : ∃ t ms, (eventLoop Unit Unit Unit Unit).run oneTask start = some t ∧
    (serialExecutor (Option Unit) Unit).run ms .empty = some t.executor ∧ t.executor.busy = true := by
  have hrun : ((eventLoop Unit Unit Unit Unit).run oneTask start).isSome = true := rfl
  obtain ⟨ms, hms, -, -, hcurrent⟩ := serial oneTask (Option.some_get hrun).symm
  exact ⟨_, ms, (Option.some_get hrun).symm, hms, (hcurrent () rfl).1⟩

end

end EventLoop

end Lizlib
