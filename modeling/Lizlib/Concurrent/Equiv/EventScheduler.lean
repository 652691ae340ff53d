import Lizlib.Concurrent.EventScheduler
import Lizlib.Concurrent.Equiv.ThreadPool

/-!
# Timed jobs after `Join`

`Join` drains the queue of its pool and, if the pool owns its scheduler, stops that; it does not
retire the timers its pool has registered with a scheduler it shares.  `quiet_iff`: after `Join` no
function submitted to the pool is started any more exactly when the pool owns the scheduler, or none
of its timers can still be reported or handled.
-/

namespace Lizlib

/-- The entries the scheduler thread has yet to handle. -/
def RoutinePc.collected {P E : Type*} : RoutinePc P E → List (TimedJob P E)
  | .process rest | .running rest => rest
  | _ => []

/-- The scheduler thread will not enter `epoll_wait` again: it has exited, or finds the signal. -/
def RoutinePc.retired {P E : Type*} (cancel_signal_ : Bool) : RoutinePc P E → Bool
  | .exited => true
  | .wait => false
  | _ => cancel_signal_

namespace ThreadPools

open Function (update)

variable {P : Type*} {W : P → Type*} {E : Type*}

/-- How many functions of pool `p` have been called. -/
def starts [DecidableEq P] (p : P) (s : ThreadPools P W E) : Nat :=
  (s.pool p).executed.length + s.fired.count p

/-- The label is no submission to pool `p`. -/
def NoSubmit (p : P) : PoolsLabel P W E → Prop
  | .pool q (.submit _) => q ≠ p
  | .submit q _ _ _ => q ≠ p
  | _ => True

/-- No timer of pool `p` can still be handled: none is collected, and none that has been armed is
registered unless the scheduler thread will not look again. -/
def Retired (p : P) (s : ThreadPools P W E) : Prop :=
  (∀ job ∈ s.scheduler.collected, job.pool ≠ p) ∧
    (s.scheduler.retired s.cancel_signal_ = true ∨
      ∀ job ∈ s.registered, job.armed = true → job.pool ≠ p)

variable [DecidableEq P] [∀ p, DecidableEq (W p)] [∀ p, Fintype (W p)]

/-- No function submitted to pool `p` is started any more, whatever runs. -/
def Quiet (p : P) (s : ThreadPools P W E) : Prop :=
  ¬ (threadPools P W E).Leads (NoSubmit p) (fun t => starts p t ≠ starts p s) s

/-- More than `n` functions of pool `p` may get started in all, without another submission. -/
def MayPass (p : P) (n : Nat) (s : ThreadPools P W E) : Prop :=
  (threadPools P W E).Leads (NoSubmit p) (fun t => n < starts p t) s

/-! ### Steps -/

/-- One step from `s`, by its label. -/
inductive Moves (s : ThreadPools P W E) : PoolsLabel P W E → ThreadPools P W E → Prop
  | pool {p : P} {l : PoolLabel (W p) E} {q : ThreadPool (W p) E} (hw : s.waiting p l = false)
      (h : ThreadPool.step l (s.pool p) = some q) :
      Moves s (.pool p l) { s with pool := update s.pool p q }
  | submit {p : P} {work : E} {delay interval : Int} :
      Moves s (.submit p work delay interval) (s.enqueueTask p work delay interval)
  | stop {p : P} (ho : s.owner = some p) (hj : (s.pool p).join = .scheduler) :
      Moves s (.stop p) { s with cancel_signal_ := true }
  | check (h : s.scheduler = .check) :
      Moves s .check { s with scheduler := if s.cancel_signal_ then .exited else .wait }
  | epollWait {ready : List (P × Nat)} (h : s.scheduler = .wait) :
      Moves s (.epollWait ready) { s with
        scheduler := .process
          (ready.filterMap fun key => s.registered.find? fun job => is key job && job.armed) }
  | handle {job : TimedJob P E} {rest : List (TimedJob P E)}
      (h : s.scheduler = .process (job :: rest)) : Moves s .handle (s.fire job rest)
  | processed (h : s.scheduler = .process []) : Moves s .handle { s with scheduler := .check }
  | finish {rest : List (TimedJob P E)} (h : s.scheduler = .running rest) :
      Moves s .finish { s with scheduler := .process rest }

/-- **Inversion of a step**. -/
theorem moves_of_step {l : PoolsLabel P W E} {s t : ThreadPools P W E} (h : step l s = some t) :
    Moves s l t := by
  cases l with
  | pool p l =>
    simp only [step] at h
    split_ifs at h with hw
    obtain ⟨q, hq, rfl⟩ := Option.map_eq_some_iff.mp h
    exact .pool (by simpa using hw) hq
  | submit p work delay interval =>
    obtain rfl := Option.some.inj h
    exact .submit
  | stop p =>
    simp only [step, Option.ite_none_right_eq_some, Option.some.injEq] at h
    obtain ⟨⟨ho, hj⟩, rfl⟩ := h
    exact .stop ho hj
  | check =>
    simp only [step] at h
    split at h
    · rename_i hs
      obtain rfl := Option.some.inj h
      exact .check hs
    · cases h
  | epollWait ready =>
    simp only [step] at h
    split at h
    · rename_i hs
      split_ifs at h
      obtain rfl := Option.some.inj h
      exact .epollWait hs
    · cases h
  | handle =>
    simp only [step] at h
    split at h
    · rename_i hs
      obtain rfl := Option.some.inj h
      exact .handle hs
    · rename_i hs
      obtain rfl := Option.some.inj h
      exact .processed hs
    · cases h
  | finish =>
    simp only [step] at h
    split at h
    · rename_i hs
      obtain rfl := Option.some.inj h
      exact .finish hs
    · cases h

/-! ### After `Join` -/

/-- The books of pool `p` are in order, and if it owns the scheduler its `Join` has waited for the
scheduler thread. -/
structure Inv (p : P) (s : ThreadPools P W E) : Prop where
  books : (s.pool p).Books
  owner : s.owner = some p → (s.pool p).join = .returned → s.scheduler = .exited

section Join

variable {p : P} {l : PoolsLabel P W E} {s t : ThreadPools P W E}

omit [DecidableEq P] in
/-- `Join` returns from its last step. -/
theorem returned_of_step {l : PoolLabel (W p) E} {q r : ThreadPool (W p) E}
    (h : ThreadPool.step l q = some r) (hr : r.join = .returned) :
    q.join = .returned ∨ l = .join ∧ q.join = .scheduler := by
  cases l with
  | submit runnable =>
    obtain rfl := Option.some.inj h
    exact .inl hr
  | worker w => exact .inl (ThreadPool.join_workerStep h ▸ hr)
  | spurious w =>
    simp only [ThreadPool.step] at h
    split at h
    · obtain rfl := Option.some.inj h
      exact .inl hr
    · cases h
  | callJoin =>
    simp only [ThreadPool.step] at h
    split at h
    · obtain rfl := Option.some.inj h
      cases hr
    · obtain rfl := Option.some.inj h
      exact .inl hr
    · cases h
  | join =>
    cases ThreadPool.joinMoves_of_step h with
    | scheduler hj => exact .inr ⟨rfl, hj⟩
    | store | notify | workers | drain => cases hr

omit [DecidableEq P] in
/-- A pool whose `Join` has returned only moves by being submitted to. -/
theorem eq_of_returned {l : PoolLabel (W p) E} {q r : ThreadPool (W p) E} (hb : q.Books)
    (hq : q.join = .returned) (hl : ∀ runnable, l ≠ .submit runnable)
    (h : ThreadPool.step l q = some r) : r = q := by
  have hexited : ∀ w, q.worker w = .exited := hb.exited (.inr (by simp [hq, PoolJoinPc.drained]))
  cases l with
  | submit runnable => exact absurd rfl (hl runnable)
  | worker w => simp [ThreadPool.step, ThreadPool.workerStep, hexited w] at h
  | spurious w => simp [ThreadPool.step, hexited w] at h
  | callJoin =>
    simp only [ThreadPool.step, hq, Option.some.injEq] at h
    exact h.symm
  | join => simp [ThreadPool.step, ThreadPool.joinStep, hq] at h

theorem inv_step (hs : Inv p s) (h : step l s = some t) : Inv p t := by
  cases moves_of_step h with
  | @pool r l q hw hq =>
    by_cases hr : p = r
    · subst hr
      refine ⟨by simpa using ThreadPool.books_step hs.books hq, fun ho hj => ?_⟩
      have hj : q.join = .returned := by simpa using hj
      rcases returned_of_step hq hj with hold | ⟨rfl, hlast⟩
      · exact hs.owner ho hold
      · -- the last step waits for the scheduler
        have hw' := hw
        simp only [waiting, hlast] at hw'
        split at hw'
        · assumption
        · have ho' : s.owner = some p := ho
          simp [ho'] at hw'
        · simp_all
    · exact ⟨by simpa [hr] using hs.books, by simpa [hr] using hs.owner⟩
  | @submit r work delay interval =>
    unfold enqueueTask
    split_ifs
    · exact ⟨hs.books, hs.owner⟩
    · by_cases hr : p = r
      · subst hr
        exact ⟨by simpa using ThreadPool.books_enqueueTask hs.books work,
          by simpa [ThreadPool.enqueueTask] using hs.owner⟩
      · exact ⟨by simpa [hr] using hs.books, by simpa [hr] using hs.owner⟩
  | stop => exact ⟨hs.books, hs.owner⟩
  | check hpc | epollWait hpc | handle hpc | processed hpc | finish hpc =>
    refine ⟨hs.books, fun ho hj => ?_⟩
    have hexited := hs.owner ho hj
    simp [hpc] at hexited

omit [DecidableEq P] [∀ p, DecidableEq (W p)] [∀ p, Fintype (W p)] in
theorem retired_of_exited (h : s.scheduler = .exited) : Retired p s := by
  refine ⟨?_, .inl ?_⟩
  · simp [h, RoutinePc.collected]
  · simp [h, RoutinePc.retired]

/-! ### Nothing is started any more -/

omit [DecidableEq P] [∀ p, DecidableEq (W p)] [∀ p, Fintype (W p)] in
/-- A step of the scheduler thread, or of another pool, with no timer of pool `p` about. -/
theorem Retired.mono (hs : Retired p s)
    (hcollected : (∀ job ∈ s.scheduler.collected, job.pool ≠ p) →
      ∀ job ∈ t.scheduler.collected, job.pool ≠ p)
    (hretired : s.scheduler.retired s.cancel_signal_ = true →
      t.scheduler.retired t.cancel_signal_ = true)
    (hregistered : (∀ job ∈ s.registered, job.armed = true → job.pool ≠ p) →
      ∀ job ∈ t.registered, job.armed = true → job.pool ≠ p) :
    Retired p t :=
  ⟨hcollected hs.1, hs.2.imp hretired hregistered⟩

omit [∀ p, DecidableEq (W p)] [∀ p, Fintype (W p)] in
theorem mem_registered_fire {job j : TimedJob P E} {rest : List (TimedJob P E)}
    (h : j ∈ (s.fire job rest).registered) : j ∈ s.registered := by
  simp only [fire] at h
  split_ifs at h
  · exact (List.mem_filter.mp h).1
  · exact h

theorem retired_step (hs : Inv p s) (hj : (s.pool p).join = .returned) (hr : Retired p s)
    (hl : NoSubmit p l) (h : step l s = some t) :
    (t.pool p).join = .returned ∧ Retired p t ∧ starts p t = starts p s := by
  cases moves_of_step h with
  | @pool r l q hw hq =>
    by_cases hrp : p = r
    · subst hrp
      -- a pool whose `Join` has returned takes no step of its own
      obtain rfl : q = s.pool p := by
        refine eq_of_returned hs.books hj (fun runnable heq => ?_) hq
        subst heq
        exact hl rfl
      simpa [starts] using ⟨hj, hr⟩
    · exact ⟨by simpa [hrp] using hj, hr, by simp [starts, hrp]⟩
  | @submit r work delay interval =>
    have hrp : p ≠ r := Ne.symm hl
    unfold enqueueTask
    split_ifs
    · refine ⟨hj, hr.mono id id fun hnone job hmem harmed => ?_, rfl⟩
      rcases List.mem_append.mp hmem with hmem | hmem
      · exact hnone job hmem harmed
      · rw [List.mem_singleton.mp hmem]
        exact Ne.symm hrp
    · exact ⟨by simpa [hrp] using hj, hr, by simp [starts, hrp]⟩
  | stop =>
    refine ⟨hj, hr.mono id (fun hretired => ?_) id, rfl⟩
    dsimp only
    cases hpc : s.scheduler <;> simp_all [RoutinePc.retired]
  | check hpc =>
    refine ⟨hj, hr.mono (fun _ => ?_) (fun hretired => ?_) id, rfl⟩
    · dsimp only
      split_ifs <;> simp [RoutinePc.collected]
    · have hc : s.cancel_signal_ = true := by simpa [hpc, RoutinePc.retired] using hretired
      simp [hc, RoutinePc.retired]
  | @epollWait ready hpc =>
    -- the routine is not retired, so no timer of the pool is armed
    have hnone : ∀ job ∈ s.registered, job.armed = true → job.pool ≠ p :=
      hr.2.resolve_left (by simp [hpc, RoutinePc.retired])
    refine ⟨hj, ⟨fun job hmem => ?_, .inr hnone⟩, rfl⟩
    obtain ⟨key, -, hfind⟩ := List.mem_filterMap.mp hmem
    have hfound := List.find?_some hfind
    exact hnone job (List.mem_of_find?_eq_some hfind) (by simp_all)
  | @handle job rest hpc =>
    have hjob : job.pool ≠ p := hr.1 job (by simp [hpc, RoutinePc.collected])
    refine ⟨hj, hr.mono (fun hnone j hmem => ?_) (fun hretired => ?_) ?_, ?_⟩
    · exact hnone j (by simpa [hpc, RoutinePc.collected] using .inr hmem)
    · simpa [hpc, fire, RoutinePc.retired] using hretired
    · exact fun hnone j hmem => hnone j (mem_registered_fire hmem)
    · simp [starts, fire, hjob]
  | processed hpc =>
    refine ⟨hj, hr.mono (fun _ => ?_) (fun hretired => ?_) id, rfl⟩
    · simp [RoutinePc.collected]
    · simpa [hpc, RoutinePc.retired] using hretired
  | finish hpc =>
    refine ⟨hj, hr.mono (fun hnone => ?_) (fun hretired => ?_) id, rfl⟩
    · simpa [hpc, RoutinePc.collected] using hnone
    · simpa [hpc, RoutinePc.retired] using hretired

theorem quiet_of_retired (hs : Inv p s) (hj : (s.pool p).join = .returned) (hr : Retired p s) :
    Quiet p s := by
  refine System.not_leads (I := fun t => Inv p t ∧ (t.pool p).join = .returned ∧ Retired p t ∧
    starts p t = starts p s) ?_ (fun t ht hne => hne ht.2.2.2) ⟨hs, hj, hr, rfl⟩
  rintro l u v ⟨hu, huj, hur, heq⟩ hl hv
  obtain ⟨hvj, hvr, hveq⟩ := retired_step hu huj hur hl hv
  exact ⟨inv_step hu hv, hvj, hvr, hveq.trans heq⟩

/-! ### What is left is started -/

omit [∀ p, DecidableEq (W p)] [∀ p, Fintype (W p)] in
theorem starts_fire (s : ThreadPools P W E) (job : TimedJob P E) (rest : List (TimedJob P E)) :
    starts p (s.fire job rest) = starts p s + if job.pool = p then 1 else 0 := by
  show (s.pool p).executed.length + (s.fired ++ [job.pool]).count p =
    (s.pool p).executed.length + s.fired.count p + _
  rw [List.count_append, List.count_singleton, Nat.add_assoc]
  simp only [beq_iff_eq]

theorem mayPass_of_step {n : Nat} (h : step l s = some t) (hl : NoSubmit p l)
    (ht : MayPass p n t) : MayPass p n s :=
  .step h hl ht

/-- A collected entry of pool `p` is handled. -/
theorem mayPass_of_process {n : Nat} {rest : List (TimedJob P E)} (hpc : s.scheduler = .process rest)
    (hmem : ∃ job ∈ rest, job.pool = p) (hn : n ≤ starts p s) :
    MayPass p n s := by
  induction rest generalizing s with
  | nil => simp at hmem
  | cons job rest ih =>
    have hstep : step .handle s = some (s.fire job rest) := by simp only [step, hpc]
    apply mayPass_of_step hstep trivial
    have hfire := starts_fire (p := p) s job rest
    by_cases hjob : job.pool = p
    · refine .here ?_
      rw [if_pos hjob] at hfire
      omega
    · -- the function of another pool returns
      rw [if_neg hjob] at hfire
      apply mayPass_of_step (show step .finish (s.fire job rest) = _ from rfl) trivial
      refine ih rfl ?_ ?_
      · obtain ⟨j, hj, hpool⟩ := hmem
        rcases List.mem_cons.mp hj with rfl | hj
        · exact absurd hpool hjob
        · exact ⟨j, hj, hpool⟩
      · show n ≤ starts p (s.fire job rest)
        omega

theorem mayPass_of_collected {n : Nat} (hmem : ∃ job ∈ s.scheduler.collected, job.pool = p)
    (hn : n ≤ starts p s) :
    MayPass p n s := by
  cases hpc : s.scheduler with
  | check | wait | exited => simp [hpc, RoutinePc.collected] at hmem
  | process rest =>
    simp only [hpc, RoutinePc.collected] at hmem
    exact mayPass_of_process hpc hmem hn
  | running rest =>
    simp only [hpc, RoutinePc.collected] at hmem
    have hstep : step .finish s = some { s with scheduler := .process rest } := by
      simp only [step, hpc]
    exact mayPass_of_step hstep trivial (mayPass_of_process rfl hmem hn)

/-- An armed timer of pool `p` is reported by the next `epoll_wait`. -/
theorem mayPass_of_wait {n : Nat} {job : TimedJob P E} (hpc : s.scheduler = .wait)
    (hjob : job ∈ s.registered) (harmed : job.armed = true) (hpool : job.pool = p)
    (hn : n ≤ starts p s) :
    MayPass p n s := by
  have hsome : (s.registered.find? fun j => is (p, job.timer) j && j.armed).isSome = true := by
    rw [List.find?_isSome]
    exact ⟨job, hjob, by simp [is, hpool, harmed]⟩
  obtain ⟨found, hfound⟩ := Option.isSome_iff_exists.mp hsome
  have hstep : step (.epollWait [(p, job.timer)]) s = some { s with scheduler := .process [found] } := by
    simp [step, hpc, hfound]
  apply mayPass_of_step hstep trivial
  refine mayPass_of_process rfl ⟨found, List.mem_singleton.mpr rfl, ?_⟩ hn
  have := List.find?_some hfound
  simp_all [is]

theorem mayPass_of_check {n : Nat} {job : TimedJob P E} (hpc : s.scheduler = .check)
    (hcancel : s.cancel_signal_ = false) (hjob : job ∈ s.registered) (harmed : job.armed = true)
    (hpool : job.pool = p) (hn : n ≤ starts p s) :
    MayPass p n s := by
  have hstep : step .check s = some { s with scheduler := .wait } := by simp [step, hpc, hcancel]
  exact mayPass_of_step hstep trivial (mayPass_of_wait rfl hjob harmed hpool hn)

/-- Entries of other pools do not remove a timer of pool `p`. -/
theorem mayPass_past_process {n : Nat} {job : TimedJob P E} {rest : List (TimedJob P E)}
    (hpc : s.scheduler = .process rest) (hcancel : s.cancel_signal_ = false)
    (hrest : ∀ j ∈ rest, j.pool ≠ p) (hjob : job ∈ s.registered) (harmed : job.armed = true)
    (hpool : job.pool = p) (hn : n ≤ starts p s) :
    MayPass p n s := by
  induction rest generalizing s with
  | nil =>
    have hstep : step .handle s = some { s with scheduler := .check } := by simp only [step, hpc]
    exact mayPass_of_step hstep trivial (mayPass_of_check rfl hcancel hjob harmed hpool hn)
  | cons j rest ih =>
    have hj : j.pool ≠ p := hrest j List.mem_cons_self
    have hstep : step .handle s = some (s.fire j rest) := by simp only [step, hpc]
    have hfire := starts_fire (p := p) s j rest
    rw [if_neg hj] at hfire
    apply mayPass_of_step hstep trivial
    apply mayPass_of_step (show step .finish (s.fire j rest) = _ from rfl) trivial
    refine ih rfl hcancel (fun k hk => hrest k (List.mem_cons_of_mem j hk)) ?_ ?_
    · show job ∈ (if j.once then s.registered.filter _ else s.registered)
      split_ifs
      · refine List.mem_filter.mpr ⟨hjob, ?_⟩
        simp [is, hpool, Ne.symm hj]
      · exact hjob
    · show n ≤ starts p (s.fire j rest)
      omega

theorem not_quiet_of_not_retired (h : ¬ Retired p s) : ¬ Quiet p s := by
  suffices hleads : MayPass p (starts p s) s from
    fun hquiet => hquiet (hleads.mono fun t ht => Nat.ne_of_gt ht)
  by_cases hmem : ∃ job ∈ s.scheduler.collected, job.pool = p
  · exact mayPass_of_collected hmem le_rfl
  · push Not at hmem
    have hlate : ¬ (s.scheduler.retired s.cancel_signal_ = true ∨
        ∀ job ∈ s.registered, job.armed = true → job.pool ≠ p) := fun hor => h ⟨hmem, hor⟩
    push Not at hlate
    obtain ⟨hretired, job, hjob, harmed, hpool⟩ := hlate
    cases hpc : s.scheduler with
    | exited => simp [hpc, RoutinePc.retired] at hretired
    | wait => exact mayPass_of_wait hpc hjob harmed hpool le_rfl
    | check =>
      have hcancel : s.cancel_signal_ = false := by simpa [hpc, RoutinePc.retired] using hretired
      exact mayPass_of_check hpc hcancel hjob harmed hpool le_rfl
    | process rest =>
      have hcancel : s.cancel_signal_ = false := by simpa [hpc, RoutinePc.retired] using hretired
      simp only [hpc, RoutinePc.collected] at hmem
      exact mayPass_past_process hpc hcancel hmem hjob harmed hpool le_rfl
    | running rest =>
      have hcancel : s.cancel_signal_ = false := by simpa [hpc, RoutinePc.retired] using hretired
      simp only [hpc, RoutinePc.collected] at hmem
      have hstep : step .finish s = some { s with scheduler := .process rest } := by
        simp only [step, hpc]
      exact mayPass_of_step hstep trivial (mayPass_past_process rfl hcancel hmem hjob harmed hpool le_rfl)

/-! ### Main theorem -/

omit [DecidableEq P] [∀ p, DecidableEq (W p)] [∀ p, Fintype (W p)] in
theorem inv_start (owner : Option P) : Inv p (start owner : ThreadPools P W E) :=
  ⟨ThreadPool.books_start, fun _ hj => by simp [start, ThreadPool.start] at hj⟩

/-- **`Join` as a quiescence point**: in every reachable state in which `Join` of pool `p` has
returned, no function submitted to it is started any more exactly when the pool owns the scheduler
or none of its timers is left. -/
theorem quiet_iff (hs : (threadPools P W E).Reachable s) (hj : (s.pool p).join = .returned) :
    Quiet p s ↔ s.owner = some p ∨ Retired p s := by
  have hinv : Inv p s := hs.invariant (I := Inv p)
    (by rintro s ⟨owner, rfl⟩; exact inv_start owner) fun l s t hI _ ht => inv_step hI ht
  constructor
  · intro hquiet
    by_contra hnot
    exact not_quiet_of_not_retired (fun hr => hnot (.inr hr)) hquiet
  · rintro (ho | hr)
    · exact quiet_of_retired hinv hj (retired_of_exited (hinv.owner ho hj))
    · exact quiet_of_retired hinv hj hr

/-- A periodic job is submitted to a pool with one worker, and `Join` runs up to the scheduler. -/
def submitThenJoin : List (PoolsLabel Unit (fun _ => Unit) Unit) :=
  [.submit () () 0 1000, .pool () .callJoin, .pool () .join, .pool () .join,
    .pool () (.worker ()), .pool () .join, .pool () .join]

/-- The scheduler is the pool's own: `Join` stops it and waits for it. -/
theorem quiet_ownScheduler : ∃ s, (threadPools Unit (fun _ => Unit) Unit).run
      (submitThenJoin ++ [.stop (), .check, .pool () .join]) (start (some ())) = some s ∧
      (s.pool ()).join = .returned ∧ Quiet () s := by
  refine ⟨_, rfl, rfl, ?_⟩
  have hs := System.reachable_of_run (S := threadPools Unit (fun _ => Unit) Unit) ⟨some (), rfl⟩
    (show _ = _ from rfl : System.run _ (submitThenJoin ++ [.stop (), .check, .pool () .join]) _ = _)
  exact (quiet_iff hs rfl).mpr (.inl rfl)

/-- The scheduler is shared: the job is called after `Join` has returned. -/
theorem sharedScheduler_not_quiet : ∃ s, (threadPools Unit (fun _ => Unit) Unit).run
      (submitThenJoin ++ [.pool () .join]) (start none) = some s ∧
      (s.pool ()).join = .returned ∧ ¬ Quiet () s := by
  refine ⟨_, rfl, rfl, not_not.mpr ?_⟩
  exact ⟨[.check, .epollWait [((), 0)], .handle], _, by simp [NoSubmit], rfl, by decide⟩

end Join

end ThreadPools

end Lizlib
