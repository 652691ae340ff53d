import Lizlib.Net.EventLoop

/-!
# When the event loop strands work

`Stranded` is the state in which the loop's thread sleeps with work to do and nobody is about to
wake it.  No step of a submitter or a joiner leads there: whoever makes the queue non-empty or sets
`cancel_signal_` notifies later, and finds the thread asleep.  The one step that can is the loop's
own `loop_cv_.Wait()`, which does not look at the queue again after taking the mutex.

* `stranded_step_iff`: exactly which step strands.
* `never_stranded_iff_sleepsSafely`: exactly which runs never do.
-/

namespace Lizlib

/-- `Push` has linked its node into the empty queue and will still call `on_empty`. -/
def PushPc.notifying {A : Type*} : PushPc A → Bool
  | .storeTail _ | .onEmpty => true
  | _ => false

/-- `join` will still call `NotifyAll`. -/
def JoinPc.notifying : JoinPc → Bool
  | .store | .notify => true
  | _ => false

namespace EventLoop

open Function

variable {T J A E : Type*}

/-- Some `Submit` or `join` call is still about to notify. -/
def Notifying (s : EventLoop T J A E) : Prop :=
  (∃ t, (s.lfq_.push t).notifying = true) ∨ ∃ j, (s.join j).notifying = true

/-- There is something for the loop's thread to do. -/
def HasWork (s : EventLoop T J A E) : Prop :=
  s.lfq_.mem.empty = false ∨ s.cancel_signal_ = true

/-- The loop's thread is asleep in `loop_cv_.Wait()`. -/
def Asleep (s : EventLoop T J A E) : Prop := s.loop = .asleep

/-- The loop's thread sleeps, has work, and nobody is about to wake it. -/
def Stranded (s : EventLoop T J A E) : Prop := s.Asleep ∧ s.HasWork ∧ ¬ s.Notifying

/-- A step that puts the loop's thread to sleep does so while there is no work, or while somebody
is still about to notify. -/
def SleepsSafely (l : LoopLabel T J A E) (s : EventLoop T J A E) : Prop :=
  l = .loop → s.loop = .wait → s.HasWork → s.Notifying

/-! ### Wake-ups -/

section Wake

variable {s : EventLoop T J A E}

theorem not_asleep_wake : ¬ s.wake.Asleep := by
  unfold wake Asleep
  split
  · simp
  · rename_i h
    intro hs
    exact h hs

theorem not_stranded_of_not_asleep (h : ¬ s.Asleep) : ¬ s.Stranded := fun hs => h hs.1

/-- A step that neither puts the thread to sleep nor ends a pending notification, and that makes
work only with a notification to come, strands nothing. -/
theorem not_stranded_of {t : EventLoop T J A E} (h : ¬ s.Stranded) (hasleep : t.Asleep → s.Asleep)
    (hwork : t.HasWork → s.HasWork ∨ t.Notifying) (hnotify : s.Notifying → t.Notifying) :
    ¬ t.Stranded := by
  rintro ⟨ha, hw, hn⟩
  rcases hwork hw with hw | hw
  · exact h ⟨hasleep ha, hw, fun hs => hn (hnotify hs)⟩
  · exact hn hw

end Wake

/-! ### Pushes -/

variable [DecidableEq A]

/-- A step of `Push` before its `on_empty`: it leaves `head_` alone and whether its caller is about
to notify, or it makes `head_` non-null and its caller is about to notify. -/
theorem pushStep_cases {P C : Type*} [DecidableEq P] [DecidableEq C] (q : LockFreeQueue P C A E)
    (p : P) (h : q.push p ≠ .onEmpty) :
    ((q.pushStep p).mem.empty = q.mem.empty ∧
        ((q.pushStep p).push p).notifying = (q.push p).notifying) ∨
      ((q.pushStep p).push p).notifying = true := by
  unfold LockFreeQueue.pushStep
  cases hpc : q.push p with
  | onEmpty => exact absurd hpc h
  | idle => simp [QueueMem.pushStep]
  | loadTail n =>
    left
    cases ht : q.mem.tail_ <;> simp [QueueMem.pushStep, ht, PushPc.notifying]
  | casHead n =>
    by_cases hh : q.mem.head_ = none
    · right
      simp [QueueMem.pushStep, hh, PushPc.notifying]
    · left
      simp [QueueMem.pushStep, hh, PushPc.notifying]
  | storeTail n =>
    right
    simp [QueueMem.pushStep, PushPc.notifying]
  | casTail n t =>
    left
    by_cases ht : q.mem.tail_ = some t <;>
      simp [QueueMem.pushStep, ht, PushPc.notifying, QueueMem.empty]
  | storeNext n t =>
    left
    cases hn : q.mem.heap t <;>
      simp [QueueMem.pushStep, hn, hpc, PushPc.notifying, QueueMem.empty]

/-- Nobody else moves. -/
theorem pushStep_push_ne {P C : Type*} [DecidableEq P] [DecidableEq C] (q : LockFreeQueue P C A E)
    {p r : P} (h : r ≠ p) : (q.pushStep p).push r = q.push r := by
  unfold LockFreeQueue.pushStep
  cases q.mem.pushStep (q.push p) with
  | none => rfl
  | some x => simp [h]

/-! ### Steps -/

section Steps

variable {s t : EventLoop T J A E}

theorem not_stranded_callPush [DecidableEq T] [DecidableEq J] (h : ¬ s.Stranded) {p : Option T} {n : A}
    (hstep : EventLoop.step (.callPush p n) s = some t) : ¬ t.Stranded := by
  simp only [EventLoop.step, LockFreeQueue.step] at hstep
  split at hstep
  · rename_i x _
    simp only [Option.map_eq_some_iff, Option.ite_none_right_eq_some, Option.some.injEq] at hstep
    obtain ⟨q, ⟨⟨hidle, -⟩, rfl⟩, rfl⟩ := hstep
    refine not_stranded_of h id (fun hw => Or.inl hw) fun hn => hn.imp_left ?_
    rintro ⟨r, hr⟩
    have hrp : r ≠ p := by
      rintro rfl
      simp [hidle, PushPc.notifying] at hr
    exact ⟨r, by simpa [hrp] using hr⟩
  · exact absurd hstep (by simp)

/-- Inside `Push`, before its `on_empty`. -/
theorem not_stranded_linking [DecidableEq T] (h : ¬ s.Stranded) {p : Option T}
    {submit : Option T → SubmitPc E} (hp : s.lfq_.push p ≠ .onEmpty) :
    ¬ Stranded { s with lfq_ := s.lfq_.pushStep p, submit := submit } := by
  rcases pushStep_cases s.lfq_ p hp with ⟨hempty, hkeep⟩ | hnotify
  · refine not_stranded_of h id (fun hw => Or.inl ?_) fun hn => hn.imp_left ?_
    · simpa only [HasWork, hempty] using hw
    · rintro ⟨r, hr⟩
      refine ⟨r, ?_⟩
      by_cases hrp : r = p
      · rw [hrp] at hr ⊢
        exact hkeep.trans hr
      · simpa only [pushStep_push_ne s.lfq_ hrp] using hr
  · exact fun hs => hs.2.2 (Or.inl ⟨p, hnotify⟩)

theorem not_stranded_pushStep [DecidableEq T] (h : ¬ s.Stranded) {p : Option T} : ¬ (s.pushStep p).Stranded := by
  unfold EventLoop.pushStep
  split
  · exact not_stranded_of_not_asleep not_asleep_wake
  · rename_i hpc
    exact not_stranded_linking h (by simp [hpc])
  · rename_i hpc _
    exact not_stranded_linking h hpc

omit [DecidableEq A] in
theorem not_stranded_joinStep [DecidableEq J] {j : J} (hstep : s.joinStep j = some t) :
    ¬ t.Stranded := by
  unfold joinStep at hstep
  split at hstep
  · exact absurd hstep (by simp)
  · obtain rfl := Option.some.inj hstep
    exact fun hs => hs.2.2 (Or.inr ⟨j, by simp [JoinPc.notifying]⟩)
  · obtain rfl := Option.some.inj hstep
    exact not_stranded_of_not_asleep not_asleep_wake
  · split at hstep
    · rename_i hloop
      obtain rfl := Option.some.inj hstep
      exact not_stranded_of_not_asleep (by simp [Asleep, hloop])
    · exact absurd hstep (by simp)

/-- The loop's own step strands exactly when it goes to sleep on work that nobody will announce. -/
theorem stranded_loopStep_iff (hstep : s.loopStep = some t) :
    ¬ t.Stranded ↔ SleepsSafely (.loop : LoopLabel T J A E) s := by
  unfold loopStep at hstep
  cases hloop : s.loop with
  | wait =>
    simp only [hloop, Option.some.injEq] at hstep
    subst hstep
    simp only [SleepsSafely, hloop, true_implies]
    constructor
    · intro hs hw
      by_contra hn
      exact hs ⟨rfl, hw, hn⟩
    · exact fun hs ht => ht.2.2 (hs ht.2.1)
  | check =>
    simp only [hloop, Option.some.injEq] at hstep
    subst hstep
    refine iff_of_true (not_stranded_of_not_asleep ?_) (by simp [SleepsSafely, hloop])
    cases s.cancel_signal_ <;> simp [Asleep]
  | empty =>
    simp only [hloop] at hstep
    refine iff_of_true (not_stranded_of_not_asleep ?_) (by simp [SleepsSafely, hloop])
    split_ifs at hstep <;> (obtain rfl := Option.some.inj hstep; simp [Asleep])
  | pop =>
    simp only [hloop, Option.some.injEq] at hstep
    subst hstep
    refine iff_of_true (not_stranded_of_not_asleep ?_) (by simp [SleepsSafely, hloop])
    unfold Asleep
    split <;> simp
  | run work => simp [hloop] at hstep
  | asleep => simp [hloop] at hstep
  | exited => simp [hloop] at hstep

variable [DecidableEq T] [DecidableEq J]

/-- **The step that strands**: from a state that is not stranded, a step leads to one that is not
exactly when it does not put the thread to sleep on unannounced work. -/
theorem stranded_step_iff {l : LoopLabel T J A E} (h : ¬ s.Stranded)
    (hstep : EventLoop.step l s = some t) : ¬ t.Stranded ↔ SleepsSafely l s := by
  cases l with
  | loop => exact stranded_loopStep_iff hstep
  | callPush p n => exact iff_of_true (not_stranded_callPush h hstep) (by simp [SleepsSafely])
  | push p =>
    refine iff_of_true ?_ (by simp [SleepsSafely])
    simp only [EventLoop.step] at hstep
    split at hstep
    · obtain rfl := Option.some.inj hstep
      exact not_stranded_pushStep h
    · exact absurd hstep (by simp)
  | join j => exact iff_of_true (not_stranded_joinStep hstep) (by simp [SleepsSafely])
  | submit p x =>
    refine iff_of_true ?_ (by simp [SleepsSafely])
    simp only [EventLoop.step] at hstep
    split at hstep
    · split_ifs at hstep
      · obtain rfl := Option.some.inj hstep
        exact h
      · obtain rfl := Option.some.inj hstep
        exact not_stranded_of h id Or.inl id
    · exact absurd hstep (by simp)
  | finish =>
    refine iff_of_true ?_ (by simp [SleepsSafely])
    simp only [EventLoop.step] at hstep
    split at hstep
    · obtain rfl := Option.some.inj hstep
      exact not_stranded_of_not_asleep (by simp [Asleep])
    · exact absurd hstep (by simp)
  | spurious =>
    refine iff_of_true ?_ (by simp [SleepsSafely])
    simp only [EventLoop.step] at hstep
    split at hstep
    · obtain rfl := Option.some.inj hstep
      exact not_stranded_of_not_asleep not_asleep_wake
    · exact absurd hstep (by simp)
  | callJoin j =>
    refine iff_of_true ?_ (by simp [SleepsSafely])
    simp only [EventLoop.step] at hstep
    split_ifs at hstep
    · obtain rfl := Option.some.inj hstep
      exact h
    · obtain rfl := Option.some.inj hstep
      exact fun hs => hs.2.2 (Or.inr ⟨j, by simp [JoinPc.notifying]⟩)

/-- **The runs that strand no work**: along a schedule the thread is never asleep with work and
nobody to wake it, if and only if it never goes to sleep while there is work that nobody is about
to announce. -/
theorem never_stranded_iff_sleepsSafely (ls : List (LoopLabel T J A E)) :
    (eventLoop T J A E).AllStates (fun s => ¬ s.Stranded) ls start ↔
      (eventLoop T J A E).AllSteps SleepsSafely ls start :=
  System.allStates_iff_allSteps (I := fun _ => True) (fun _ _ _ _ _ _ _ => trivial)
    (fun _ _ _ _ h hstep => stranded_step_iff h hstep) ls trivial
    (not_stranded_of_not_asleep (by simp [Asleep, start]))

/-- The loop's thread finds the queue empty; a whole `Submit` runs, notification included; then the
thread goes to sleep. -/
def lostWakeup : List (LoopLabel Unit Unit Unit Unit) :=
  [.loop, .loop, .submit (some ()) (), .callPush (some ()) (), .push (some ()), .push (some ()),
    .push (some ()), .push (some ()), .loop]

theorem lostWakeup_strands : ∃ s, (eventLoop Unit Unit Unit Unit).Reachable s ∧ s.Stranded := by
  have hrun : ((eventLoop Unit Unit Unit Unit).run lostWakeup start).isSome = true := rfl
  refine ⟨_, System.reachable_of_run rfl (Option.some_get hrun).symm, rfl, Or.inl rfl, ?_⟩
  rintro (⟨t, ht⟩ | ⟨j, hj⟩)
  · rcases t with _ | _
    · exact Bool.false_ne_true ht
    · exact Bool.false_ne_true ht
  · exact Bool.false_ne_true hj

end Steps

end EventLoop

end Lizlib
