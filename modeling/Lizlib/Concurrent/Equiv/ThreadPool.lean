import Lizlib.Concurrent.ThreadPool

/-!
# When the thread pool strands work, and what becomes of its jobs

A worker releases the mutex between finding `active_queue_` empty and going to sleep, and
`enqueueTask` does not look at `cancel_signal_`.

* `not_stranded_iff`: no work and no joiner is stranded exactly when no worker goes to sleep, and no
  worker takes a job, while nobody is left to look after the rest.
* `accounted_iff`: every job is accounted for exactly when none is enqueued after `Join` has drained
  the queue.
-/

namespace Lizlib

/-- The worker sleeps. -/
def WorkerPc.asleep? {E : Type*} : WorkerPc E → Bool
  | .asleep => true
  | _ => false

/-- The worker has a job. -/
def WorkerPc.busy {E : Type*} : WorkerPc E → Bool
  | .call _ | .running _ => true
  | _ => false

/-- The worker neither sleeps nor has a job. -/
def WorkerPc.attentive {E : Type*} (pc : WorkerPc E) : Bool := !pc.asleep? && !pc.busy

/-- `Join` will still call `NotifyAll`. -/
def PoolJoinPc.notifying : PoolJoinPc → Bool
  | .store | .notify => true
  | _ => false

/-- `Join` has called `NotifyAll`. -/
def PoolJoinPc.notified : PoolJoinPc → Bool
  | .workers | .drain | .scheduler | .returned => true
  | _ => false

/-- `Join` has drained the queue. -/
def PoolJoinPc.drained : PoolJoinPc → Bool
  | .scheduler | .returned => true
  | _ => false

namespace ThreadPool

open Function (update)

variable {W E : Type*}

/-! ### Stranded work -/

/-- There are jobs, some workers sleep, the others have a job, and no notification is to come; or
`Join` has notified and a worker sleeps. -/
def Stranded (s : ThreadPool W E) : Prop :=
  s.active_queue_ ≠ [] ∧ (∃ w, (s.worker w).asleep? = true) ∧ (∀ w, (s.worker w).attentive = false) ∧
      s.join.notifying = false ∨
    s.cancel_signal_ = true ∧ s.join.notified = true ∧ ∃ w, (s.worker w).asleep? = true

/-- Someone is left to look after the queue when worker `w` no longer does. -/
def Attended (w : W) (s : ThreadPool W E) : Prop :=
  (∃ v, v ≠ w ∧ (s.worker v).attentive = true) ∨ s.join.notifying = true

/-- A worker that goes to sleep, or takes a job while another sleeps, leaves no job behind unless
somebody else looks after it; and none goes to sleep after the notification of `Join`. -/
def LeavesAttended (l : PoolLabel W E) (s : ThreadPool W E) : Prop :=
  match l with
  | .worker w =>
    match s.worker w with
    | .wait => (s.active_queue_ ≠ [] → Attended w s) ∧
        ¬ (s.cancel_signal_ = true ∧ s.join.notified = true)
    | .pop => s.active_queue_.tail ≠ [] → (∃ v, (s.worker v).asleep? = true) → Attended w s
    | _ => True
  | _ => True

theorem asleep?_wakeAll (worker : W → WorkerPc E) (w : W) : (wakeAll worker w).asleep? = false := by
  unfold wakeAll
  split
  · rfl
  · rename_i hne
    cases hw : worker w with
    | asleep => exact absurd hw hne
    | _ => rfl

variable [DecidableEq W]

/-- A step of a worker, by where it stands. -/
inductive WorkerMoves (s : ThreadPool W E) (w : W) : ThreadPool W E → Prop
  | exit (h : s.worker w = .check) (hc : s.cancel_signal_ = true) :
      WorkerMoves s w { s with worker := update s.worker w .exited }
  | round (h : s.worker w = .check) (hc : s.cancel_signal_ = false) :
      WorkerMoves s w { s with worker := update s.worker w .pop }
  | empty (h : s.worker w = .pop) (hq : s.active_queue_ = []) :
      WorkerMoves s w { s with worker := update s.worker w .wait }
  | pop {job : Job E} {rest : List (Job E)} (h : s.worker w = .pop)
      (hq : s.active_queue_ = job :: rest) :
      WorkerMoves s w { s with
        active_queue_ := rest, worker := update s.worker w (.call job),
        popped := s.popped ++ [job.id] }
  | call {job : Job E} (h : s.worker w = .call job) :
      WorkerMoves s w { s with
        worker := update s.worker w (.running job), executed := s.executed ++ [job.id] }
  | finish {job : Job E} (h : s.worker w = .running job) :
      WorkerMoves s w { s with worker := update s.worker w .check }
  | sleep (h : s.worker w = .wait) :
      WorkerMoves s w { s with worker := update s.worker w .asleep }

theorem workerMoves_of_step {s t : ThreadPool W E} {w : W} (h : s.workerStep w = some t) :
    WorkerMoves s w t := by
  unfold workerStep at h
  cases hw : s.worker w with
  | check =>
    simp only [hw, Option.some.injEq] at h
    subst h
    split_ifs with hc
    · exact .exit hw hc
    · exact .round hw (by simpa using hc)
  | pop =>
    cases hq : s.active_queue_ with
    | nil =>
      simp only [hw, hq, Option.some.injEq] at h
      subst h
      rw [← hq]
      exact .empty hw hq
    | cons job rest =>
      simp only [hw, hq, Option.some.injEq] at h
      subst h
      exact .pop hw hq
  | call job =>
    simp only [hw, Option.some.injEq] at h
    subst h
    exact .call hw
  | running job =>
    simp only [hw, Option.some.injEq] at h
    subst h
    exact .finish hw
  | wait =>
    simp only [hw, Option.some.injEq] at h
    subst h
    exact .sleep hw
  | asleep | exited => simp [hw] at h

variable [Fintype W]

/-- A step of `Join`, by where it stands. -/
inductive JoinMoves (s : ThreadPool W E) : ThreadPool W E → Prop
  | store (h : s.join = .store) : JoinMoves s { s with cancel_signal_ := true, join := .notify }
  | notify (h : s.join = .notify) :
      JoinMoves s { s with worker := wakeAll s.worker, join := .workers }
  | workers (h : s.join = .workers) (hexited : ∀ w, s.worker w = .exited) :
      JoinMoves s { s with join := .drain }
  | drain (h : s.join = .drain) :
      JoinMoves s { s with
        active_queue_ := [], discarded := s.discarded ++ s.active_queue_.map Job.id,
        join := .scheduler }
  | scheduler (h : s.join = .scheduler) : JoinMoves s { s with join := .returned }

omit [DecidableEq W] in
theorem joinMoves_of_step {s t : ThreadPool W E} (h : s.joinStep = some t) : JoinMoves s t := by
  unfold joinStep at h
  cases hj : s.join with
  | idle | returned => simp [hj] at h
  | store =>
    simp only [hj, Option.some.injEq] at h
    subst h
    exact .store hj
  | notify =>
    simp only [hj, Option.some.injEq] at h
    subst h
    exact .notify hj
  | workers =>
    simp only [hj, Option.ite_none_right_eq_some, Option.some.injEq] at h
    obtain ⟨hexited, rfl⟩ := h
    refine .workers hj fun w => ?_
    have hw := hexited w
    cases hpc : s.worker w with
    | exited => rfl
    | _ => simp [hpc, hasExited] at hw
  | drain =>
    simp only [hj, Option.some.injEq] at h
    subst h
    exact .drain hj
  | scheduler =>
    simp only [hj, Option.some.injEq] at h
    subst h
    exact .scheduler hj

section Stranded

variable {s t : ThreadPool W E}

omit [DecidableEq W] [Fintype W] in
theorem not_stranded_of_awake (h : ∀ w, (s.worker w).asleep? = false) : ¬ Stranded s := by
  rintro (⟨-, ⟨w, hw⟩, -⟩ | ⟨-, -, w, hw⟩)
  · simp [h w] at hw
  · simp [h w] at hw

omit [Fintype W] in
/-- A worker that is neither asleep nor busy afterwards strands nothing. -/
theorem not_stranded_attentive (hs : ¬ Stranded s) {w : W} {pc : WorkerPc E}
    (hpc : pc.attentive = true) : ¬ Stranded { s with worker := update s.worker w pc } := by
  rintro (⟨-, -, hall, -⟩ | ⟨hc, hn, v, hv⟩)
  · have hw := hall w
    simp [hpc] at hw
  · refine hs (.inr ⟨hc, hn, v, ?_⟩)
    have hvw : v ≠ w := by
      rintro rfl
      simp_all [WorkerPc.attentive]
    simpa [hvw] using hv

omit [DecidableEq W] [Fintype W] in
/-- Only whether the workers sleep or have a job matters. -/
theorem stranded_congr (hq : t.active_queue_ = s.active_queue_)
    (hc : t.cancel_signal_ = s.cancel_signal_) (hj : t.join = s.join)
    (hasleep : ∀ w, (t.worker w).asleep? = (s.worker w).asleep?)
    (hbusy : ∀ w, (t.worker w).busy = (s.worker w).busy) : Stranded t ↔ Stranded s := by
  simp only [Stranded, WorkerPc.attentive, hq, hc, hj, hasleep, hbusy]

omit [Fintype W] in
/-- A worker that is asleep or busy afterwards strands nothing exactly when somebody else looks
after the jobs it leaves to sleepers. -/
theorem not_stranded_inattentive_iff (hs : ¬ Stranded s) {w : W} {pc : WorkerPc E}
    {queue : List (Job E)} {popped : List Nat} (hpc : pc.attentive = false)
    (hasleep : pc.asleep? = true → ¬ (s.cancel_signal_ = true ∧ s.join.notified = true)) :
    ¬ Stranded { s with
        active_queue_ := queue, worker := update s.worker w pc, popped := popped } ↔
      (queue ≠ [] → (∃ v, (update s.worker w pc v).asleep? = true) → Attended w s) := by
  constructor
  · intro ht hq hv
    by_contra hnot
    rw [Attended, not_or] at hnot
    refine ht (.inl ⟨hq, hv, fun v => ?_, by simpa using hnot.2⟩)
    by_cases hvw : v = w
    · simpa [hvw] using hpc
    · have hne := not_exists.mp hnot.1 v
      simpa [hvw] using hne
  · rintro hg (⟨hq, hv, hall, hnot⟩ | ⟨hc, hn, v, hv⟩)
    · rcases hg hq hv with ⟨u, huw, hu⟩ | hnotifying
      · have hu' := hall u
        simp [huw, hu] at hu'
      · simp [hnotifying] at hnot
    · by_cases hvw : v = w
      · refine hasleep ?_ ⟨hc, hn⟩
        simpa [hvw] using hv
      · exact hs (.inr ⟨hc, hn, v, by simpa [hvw] using hv⟩)

omit [Fintype W] in
theorem stranded_workerStep_iff (hs : ¬ Stranded s) {w : W} (h : s.workerStep w = some t) :
    ¬ Stranded t ↔ LeavesAttended (.worker w) s := by
  cases workerMoves_of_step h with
  | exit hw | round hw | finish hw =>
    apply iff_of_true (not_stranded_attentive hs rfl)
    simp [LeavesAttended, hw]
  | empty hw hq =>
    apply iff_of_true (not_stranded_attentive hs rfl)
    simp [LeavesAttended, hw, hq]
  | @call job hw =>
    refine iff_of_true (fun ht => hs ?_) (by simp [LeavesAttended, hw])
    refine (stranded_congr ?_ ?_ ?_ ?_ ?_).mp ht
    · rfl
    · rfl
    · rfl
    all_goals
      intro v
      by_cases hvw : v = w <;> simp [hvw, hw, WorkerPc.asleep?, WorkerPc.busy]
  | @pop job rest hw hq =>
    have hasleep : (∃ v, (update s.worker w (.call job) v).asleep? = true) ↔
        ∃ v, (s.worker v).asleep? = true := by
      apply exists_congr
      intro v
      by_cases hvw : v = w <;> simp [hvw, hw, WorkerPc.asleep?]
    rw [not_stranded_inattentive_iff hs rfl (by simp [WorkerPc.asleep?]), hasleep]
    simp [LeavesAttended, hw, hq]
  | sleep hw =>
    by_cases hlate : s.cancel_signal_ = true ∧ s.join.notified = true
    · refine iff_of_false (fun ht => ht (.inr ⟨hlate.1, hlate.2, w, by simp [WorkerPc.asleep?]⟩)) ?_
      simp [LeavesAttended, hw, hlate]
    · rw [not_stranded_inattentive_iff hs rfl (fun _ => hlate)]
      have hsome : ∃ v, (update s.worker w .asleep v).asleep? = true :=
        ⟨w, by simp [WorkerPc.asleep?]⟩
      simp [LeavesAttended, hw, hlate, hsome]

omit [DecidableEq W] in
theorem not_stranded_joinStep (hs : ¬ Stranded s) (h : s.joinStep = some t) : ¬ Stranded t := by
  cases joinMoves_of_step h with
  | store hj =>
    rintro (⟨-, -, -, hn⟩ | ⟨-, hn, -⟩)
    · cases hn
    · cases hn
  | notify hj => exact not_stranded_of_awake fun w => asleep?_wakeAll s.worker w
  | workers hj hexited =>
    apply not_stranded_of_awake
    intro w
    show (s.worker w).asleep? = false
    rw [hexited w]
    rfl
  | drain hj =>
    rintro (⟨hq, -⟩ | ⟨hc, -, hv⟩)
    · exact hq rfl
    · exact hs (.inr ⟨hc, by simp [hj, PoolJoinPc.notified], hv⟩)
  | scheduler hj =>
    rintro (⟨hq, hv, hall, -⟩ | ⟨hc, -, hv⟩)
    · exact hs (.inl ⟨hq, hv, hall, by simp [hj, PoolJoinPc.notifying]⟩)
    · exact hs (.inr ⟨hc, by simp [hj, PoolJoinPc.notified], hv⟩)

omit [DecidableEq W] [Fintype W] in
/-- `enqueueTask` wakes the workers, or leaves to others what others had been left before. -/
theorem not_stranded_enqueueTask (hs : ¬ Stranded s) (runnable : E) :
    ¬ Stranded (s.enqueueTask runnable) := by
  unfold enqueueTask
  dsimp only
  split_ifs with hone
  · exact not_stranded_of_awake fun w => asleep?_wakeAll s.worker w
  · have hq : s.active_queue_ ≠ [] := by
      intro hnil
      simp [hnil] at hone
    rintro (⟨-, hrest⟩ | hjoin)
    · exact hs (.inl ⟨hq, hrest⟩)
    · exact hs (.inr hjoin)

/-- **The step that strands**: from a state that is not stranded, a step leads to one that is not
exactly when it leaves the queue attended. -/
theorem stranded_step_iff {l : PoolLabel W E} (hs : ¬ Stranded s)
    (h : ThreadPool.step l s = some t) : ¬ Stranded t ↔ LeavesAttended l s := by
  cases l with
  | submit runnable =>
    obtain rfl := Option.some.inj h
    exact iff_of_true (not_stranded_enqueueTask hs runnable) trivial
  | worker w => exact stranded_workerStep_iff hs h
  | spurious w =>
    simp only [ThreadPool.step] at h
    split at h
    · obtain rfl := Option.some.inj h
      exact iff_of_true (not_stranded_attentive hs rfl) trivial
    · cases h
  | callJoin =>
    refine iff_of_true ?_ trivial
    simp only [ThreadPool.step] at h
    split at h
    · obtain rfl := Option.some.inj h
      rintro (⟨-, -, -, hn⟩ | ⟨-, hn, -⟩)
      · cases hn
      · cases hn
    · obtain rfl := Option.some.inj h
      exact hs
    · cases h
  | join => exact iff_of_true (not_stranded_joinStep hs h) trivial

/-- **No work and no joiner is stranded** along a schedule, if and only if no worker goes to sleep,
and none takes a job, while jobs or `Join` are left to sleepers. -/
theorem not_stranded_iff (ls : List (PoolLabel W E)) :
    (threadPool W E).AllStates (fun s => ¬ Stranded s) ls start ↔
      (threadPool W E).AllSteps LeavesAttended ls start :=
  System.allStates_iff_allSteps (I := fun _ => True) (fun _ _ _ _ _ _ _ => trivial)
    (fun _ _ _ _ hs h => stranded_step_iff hs h) ls trivial
    (not_stranded_of_awake fun _ => rfl)

end Stranded

/-- The only worker finds the queue empty, a job is enqueued, and the worker goes to sleep. -/
def lostNotify : List (PoolLabel Unit Unit) :=
  [.worker (), .worker (), .submit (), .worker ()]

theorem lostNotify_strands : ∃ s, (threadPool Unit Unit).Reachable s ∧ Stranded s := by
  have hrun : ((threadPool Unit Unit).run lostNotify start).isSome = true := rfl
  refine ⟨_, System.reachable_of_run rfl (Option.some_get hrun).symm, .inl ?_⟩
  exact ⟨List.cons_ne_nil _ _, ⟨(), rfl⟩, fun _ => rfl, rfl⟩

/-! ### What becomes of the jobs -/

/-- The jobs are popped and discarded in the order in which they were enqueued, each is executed at
most once and not discarded besides, and once `Join` has returned all of them have been executed or
discarded. -/
structure Accounted (s : ThreadPool W E) : Prop where
  order : s.popped ++ s.discarded ++ s.active_queue_.map Job.id = List.range s.enqueued
  once : s.executed.Nodup
  popped : ∀ i ∈ s.executed, i ∈ s.popped
  not_discarded : ∀ i ∈ s.executed, i ∉ s.discarded
  settled : s.join = .returned →
    s.active_queue_ = [] ∧ ∀ i < s.enqueued, i ∈ s.executed ∨ i ∈ s.discarded

/-- No job is enqueued after `Join` has drained the queue. -/
def EnqueuedInTime (l : PoolLabel W E) (s : ThreadPool W E) : Prop :=
  match l with
  | .submit _ => s.join.drained = false
  | _ => True

/-- What holds in every run: the jobs keep their order, what has been popped is executed or held by
one worker, and nobody pops once `Join` has seen all workers exit. -/
structure Books (s : ThreadPool W E) : Prop where
  order : s.popped ++ s.discarded ++ s.active_queue_.map Job.id = List.range s.enqueued
  undrained : s.join.drained = false → s.discarded = []
  exited : s.join = .drain ∨ s.join.drained = true → ∀ w, s.worker w = .exited
  once : s.executed.Nodup
  popped : ∀ i ∈ s.executed, i ∈ s.popped
  held : ∀ w job, s.worker w = .call job → job.id ∈ s.popped ∧ job.id ∉ s.executed
  distinct : ∀ v w j k, s.worker v = .call j → s.worker w = .call k → j.id = k.id → v = w
  settled : ∀ i ∈ s.popped, i ∈ s.executed ∨ ∃ w job, s.worker w = .call job ∧ job.id = i

section Books

variable {s t : ThreadPool W E}

omit [DecidableEq W] [Fintype W] in
theorem wakeAll_eq_call (worker : W → WorkerPc E) (w : W) (job : Job E) :
    wakeAll worker w = .call job ↔ worker w = .call job := by
  unfold wakeAll
  split <;> simp_all

omit [DecidableEq W] [Fintype W] in
theorem wakeAll_eq_exited (worker : W → WorkerPc E) (w : W) :
    wakeAll worker w = .exited ↔ worker w = .exited := by
  unfold wakeAll
  split <;> simp_all

omit [DecidableEq W] [Fintype W] in
/-- The job at the head of the queue has not been popped before. -/
theorem Books.head_not_mem (hs : Books s) {job : Job E} {rest : List (Job E)}
    (hq : s.active_queue_ = job :: rest) : job.id ∉ s.popped := by
  intro hmem
  have hnodup : (s.popped ++ s.discarded ++ s.active_queue_.map Job.id).Nodup :=
    hs.order ▸ List.nodup_range
  rw [hq, List.nodup_append] at hnodup
  exact hnodup.2.2 _ (List.mem_append_left _ hmem) job.id (by simp) rfl

omit [DecidableEq W] [Fintype W] in
/-- Waking or pausing the workers changes nothing in the books. -/
theorem Books.of_worker (hs : Books s) {worker : W → WorkerPc E}
    (hcall : ∀ w job, worker w = .call job ↔ s.worker w = .call job)
    (hexited : ∀ w, s.worker w = .exited → worker w = .exited) :
    Books { s with worker := worker } where
  order := hs.order
  undrained := hs.undrained
  exited := fun hj w => hexited w (hs.exited hj w)
  once := hs.once
  popped := hs.popped
  held := fun w job hw => hs.held w job ((hcall w job).mp hw)
  distinct := fun v w j k hv hw =>
    hs.distinct v w j k ((hcall v j).mp hv) ((hcall w k).mp hw)
  settled := by
    intro i hi
    apply (hs.settled i hi).imp_right
    rintro ⟨w, job, hw, hid⟩
    exact ⟨w, job, (hcall w job).mpr hw, hid⟩

omit [Fintype W] in
/-- A worker whose step begins and ends with no job to call. -/
theorem Books.of_update (hs : Books s) {w : W} {pc : WorkerPc E}
    (hw : ∀ job, s.worker w ≠ .call job) (hexited : s.worker w ≠ .exited)
    (hpc : ∀ job, pc ≠ .call job) : Books { s with worker := update s.worker w pc } := by
  refine hs.of_worker (fun v job => ?_) fun v hv => ?_
  · by_cases hvw : v = w
    · simp [hvw, hw, hpc]
    · simp [hvw]
  · have hvw : v ≠ w := by
      rintro rfl
      exact hexited hv
    simpa [hvw] using hv

omit [Fintype W] in
theorem books_workerStep (hs : Books s) {w : W} (h : s.workerStep w = some t) : Books t := by
  cases workerMoves_of_step h with
  | exit hw | round hw | empty hw | finish hw | sleep hw =>
    exact hs.of_update (by simp [hw]) (by simp [hw]) (by simp)
  | @pop job rest hw hq =>
    have hnew := hs.head_not_mem hq
    -- `Join` drains only after all workers have exited
    have hexited : ¬ (s.join = .drain ∨ s.join.drained = true) := by
      intro hj
      simp [hs.exited hj w] at hw
    have hdiscarded : s.discarded = [] :=
      hs.undrained (by simpa using fun hj => hexited (.inr hj))
    refine ⟨?_, hs.undrained, fun hj => absurd hj hexited, hs.once, ?_, ?_, ?_, ?_⟩
    · have horder := hs.order
      simpa [hq, hdiscarded] using horder
    · exact fun i hi => List.mem_append_left _ (hs.popped i hi)
    · intro v k hv
      by_cases hvw : v = w
      · obtain rfl : job = k := by simpa [hvw] using hv
        exact ⟨by simp, fun hmem => hnew (hs.popped _ hmem)⟩
      · obtain ⟨hmem, hnot⟩ := hs.held v k (by simpa [hvw] using hv)
        exact ⟨List.mem_append_left _ hmem, hnot⟩
    · -- another worker's job has been popped before
      intro u v j k hu hv hid
      by_cases huw : u = w
      · by_cases hvw : v = w
        · rw [huw, hvw]
        · obtain rfl : job = j := by simpa [huw] using hu
          exact absurd (hid ▸ (hs.held v k (by simpa [hvw] using hv)).1) hnew
      · by_cases hvw : v = w
        · obtain rfl : job = k := by simpa [hvw] using hv
          exact absurd (hid ▸ (hs.held u j (by simpa [huw] using hu)).1) hnew
        · exact hs.distinct u v j k (by simpa [huw] using hu) (by simpa [hvw] using hv) hid
    · intro i hi
      rcases List.mem_append.mp hi with hi | hi
      · apply (hs.settled i hi).imp_right
        rintro ⟨v, k, hv, hid⟩
        have hvw : v ≠ w := by
          rintro rfl
          simp [hw] at hv
        exact ⟨v, k, by simpa [hvw] using hv, hid⟩
      · exact .inr ⟨w, job, by simp, (List.mem_singleton.mp hi).symm⟩
  | @call job hw =>
    obtain ⟨hmem, hnot⟩ := hs.held w job hw
    have hother : ∀ v k, update s.worker w (.running job) v = .call k →
        v ≠ w ∧ s.worker v = .call k := by
      intro v k hv
      have hvw : v ≠ w := by
        rintro rfl
        simp at hv
      exact ⟨hvw, by simpa [hvw] using hv⟩
    refine ⟨hs.order, hs.undrained, ?_, ?_, ?_, ?_, ?_, ?_⟩
    · intro hj
      have hexited := hs.exited hj w
      simp [hw] at hexited
    · -- the job the worker holds has not been started
      rw [List.nodup_append]
      refine ⟨hs.once, by simp, fun i hi j hj heq => hnot ?_⟩
      rwa [← List.mem_singleton.mp hj, ← heq]
    · intro i hi
      rcases List.mem_append.mp hi with hi | hi
      · exact hs.popped i hi
      · rwa [List.mem_singleton.mp hi]
    · intro v k hv
      obtain ⟨hvw, hv⟩ := hother v k hv
      obtain ⟨hk, hknot⟩ := hs.held v k hv
      refine ⟨hk, fun hmem' => ?_⟩
      rcases List.mem_append.mp hmem' with hmem' | hmem'
      · exact hknot hmem'
      · exact hvw (hs.distinct v w k job hv hw (List.mem_singleton.mp hmem'))
    · intro u v j k hu hv
      exact hs.distinct u v j k (hother u j hu).2 (hother v k hv).2
    · intro i hi
      rcases hs.settled i hi with hi | ⟨v, k, hv, hid⟩
      · exact .inl (List.mem_append_left _ hi)
      · by_cases hvw : v = w
        · subst hvw
          obtain rfl : job = k := by simpa [hw] using hv
          exact .inl (by simp [hid])
        · exact .inr ⟨v, k, by simpa [hvw] using hv, hid⟩

omit [DecidableEq W] in
theorem books_joinStep (hs : Books s) (h : s.joinStep = some t) : Books t := by
  cases joinMoves_of_step h with
  | store hj =>
    refine ⟨hs.order, fun _ => hs.undrained (by simp [hj, PoolJoinPc.drained]), ?_, hs.once,
      hs.popped, hs.held, hs.distinct, hs.settled⟩
    simp [PoolJoinPc.drained]
  | notify hj =>
    have hwake : Books { s with worker := wakeAll s.worker } :=
      hs.of_worker (wakeAll_eq_call s.worker) fun w hw => (wakeAll_eq_exited s.worker w).mpr hw
    refine ⟨hs.order, fun _ => hs.undrained (by simp [hj, PoolJoinPc.drained]), ?_, hs.once,
      hs.popped, hwake.held, hwake.distinct, hwake.settled⟩
    simp [PoolJoinPc.drained]
  | workers hj hexited =>
    exact ⟨hs.order, fun _ => hs.undrained (by simp [hj, PoolJoinPc.drained]), fun _ => hexited,
      hs.once, hs.popped, hs.held, hs.distinct, hs.settled⟩
  | drain hj =>
    refine ⟨?_, by simp [PoolJoinPc.drained], fun _ => hs.exited (.inl hj), hs.once, hs.popped,
      hs.held, hs.distinct, hs.settled⟩
    simpa using hs.order
  | scheduler hj =>
    have hdrained : s.join.drained = true := by simp [hj, PoolJoinPc.drained]
    exact ⟨hs.order, by simp [PoolJoinPc.drained], fun _ => hs.exited (.inr hdrained), hs.once,
      hs.popped, hs.held, hs.distinct, hs.settled⟩

omit [DecidableEq W] [Fintype W] in
theorem books_enqueueTask (hs : Books s) (runnable : E) : Books (s.enqueueTask runnable) := by
  unfold enqueueTask
  have hworker : Books { s with
      worker := if (s.active_queue_ ++ [(⟨s.enqueued, runnable⟩ : Job E)]).length = 1 then wakeAll s.worker
        else s.worker } := by
    split_ifs
    · exact hs.of_worker (wakeAll_eq_call s.worker) fun w hw => (wakeAll_eq_exited s.worker w).mpr hw
    · exact hs
  refine ⟨?_, hs.undrained, hworker.exited, hs.once, hs.popped, hworker.held, hworker.distinct,
    hworker.settled⟩
  dsimp only
  rw [List.map_append, ← List.append_assoc, hs.order, List.range_succ]
  rfl

theorem books_step {l : PoolLabel W E} (hs : Books s) (h : ThreadPool.step l s = some t) :
    Books t := by
  cases l with
  | submit runnable =>
    obtain rfl := Option.some.inj h
    exact books_enqueueTask hs runnable
  | worker w => exact books_workerStep hs h
  | spurious w =>
    simp only [ThreadPool.step] at h
    split at h
    · rename_i hw
      obtain rfl := Option.some.inj h
      exact hs.of_update (by simp [hw]) (by simp [hw]) (by simp)
    · cases h
  | callJoin =>
    simp only [ThreadPool.step] at h
    split at h
    · rename_i hj
      obtain rfl := Option.some.inj h
      refine ⟨hs.order, fun _ => hs.undrained (by simp [hj, PoolJoinPc.drained]), ?_, hs.once,
        hs.popped, hs.held, hs.distinct, hs.settled⟩
      simp [PoolJoinPc.drained]
    · obtain rfl := Option.some.inj h
      exact hs
    · cases h
  | join => exact books_joinStep hs h

omit [DecidableEq W] [Fintype W] in
theorem books_start : Books (start : ThreadPool W E) := by
  constructor <;> simp [start, PoolJoinPc.drained]

/-- A job is on the queue that nobody will pop or discard. -/
def Late (s : ThreadPool W E) : Prop := s.join.drained = true ∧ s.active_queue_ ≠ []

omit [Fintype W] in
/-- After the drain no worker moves. -/
theorem not_drained_of_workerStep (hs : Books s) {w : W} (h : s.workerStep w = some t) :
    s.join.drained = false := by
  by_contra hdrained
  have hexited := hs.exited (.inr (by simpa using hdrained)) w
  simp [workerStep, hexited] at h

omit [Fintype W] in
theorem join_workerStep {w : W} (h : s.workerStep w = some t) : t.join = s.join := by
  cases workerMoves_of_step h <;> rfl

/-- A job is late once it has been, and becomes late by being enqueued after the drain. -/
theorem late_step_iff {l : PoolLabel W E} (hs : Books s) (h : ThreadPool.step l s = some t) :
    Late t ↔ Late s ∨ ¬ EnqueuedInTime l s := by
  cases l with
  | submit runnable =>
    obtain rfl := Option.some.inj h
    have hne : (s.enqueueTask runnable).active_queue_ ≠ [] := by simp [enqueueTask]
    show s.join.drained = true ∧ _ ↔ _
    simpa [Late, EnqueuedInTime, hne] using fun hdrained _ => hdrained
  | worker w =>
    have hnot := not_drained_of_workerStep hs h
    simp [Late, EnqueuedInTime, join_workerStep h, hnot]
  | spurious w =>
    simp only [ThreadPool.step] at h
    split at h
    · obtain rfl := Option.some.inj h
      simp [Late, EnqueuedInTime]
    · cases h
  | callJoin =>
    simp only [ThreadPool.step] at h
    split at h
    · rename_i hj
      obtain rfl := Option.some.inj h
      simp [Late, EnqueuedInTime, hj, PoolJoinPc.drained]
    · obtain rfl := Option.some.inj h
      simp [EnqueuedInTime]
    · cases h
  | join =>
    cases joinMoves_of_step h with
    | store hj | notify hj | workers hj | drain hj | scheduler hj =>
      simp [Late, EnqueuedInTime, hj, PoolJoinPc.drained]

omit [DecidableEq W] [Fintype W] in
/-- With the books in order, only a late job is not accounted for. -/
theorem accounted_iff_not_late (hs : Books s) :
    Accounted s ↔ (s.join = .returned → ¬ Late s) := by
  constructor
  · rintro ha hj ⟨-, hq⟩
    exact hq (ha.settled hj).1
  · intro hlate
    refine ⟨hs.order, hs.once, hs.popped, fun i hi hd => ?_, fun hj => ?_⟩
    · have hnodup : (s.popped ++ s.discarded ++ s.active_queue_.map Job.id).Nodup :=
        hs.order ▸ List.nodup_range
      rw [List.append_assoc, List.nodup_append] at hnodup
      exact hnodup.2.2 i (hs.popped i hi) i (List.mem_append_left _ hd) rfl
    · have hdrained : s.join.drained = true := by simp [hj, PoolJoinPc.drained]
      have hq : s.active_queue_ = [] := by
        by_contra hne
        exact hlate hj ⟨hdrained, hne⟩
      refine ⟨hq, fun i hi => ?_⟩
      have hmem : i ∈ s.popped ++ s.discarded := by
        have horder := hs.order
        rw [hq, List.map_nil, List.append_nil] at horder
        exact horder ▸ List.mem_range.mpr hi
      -- all workers have exited, so none of them still holds a job
      refine (List.mem_append.mp hmem).imp_left fun hp => (hs.settled i hp).resolve_right ?_
      rintro ⟨w, job, hw, -⟩
      simp [hs.exited (.inr hdrained) w] at hw

/-- **Every job is accounted for** at the end of a run, if and only if `Join` has not returned or no
job has been enqueued after `Join` had drained the queue. -/
theorem accounted_iff (ls : List (PoolLabel W E)) (s : ThreadPool W E)
    (h : (threadPool W E).run ls start = some s) :
    Accounted s ↔ (s.join = .returned → (threadPool W E).AllSteps EnqueuedInTime ls start) := by
  have hs : Books s := System.persists (F := Books) (fun _ _ _ _ _ => trivial)
    (fun _ _ _ _ hb ht => books_step hb ht) (trivial : True) books_start h
  rw [accounted_iff_not_late hs]
  apply forall_congr'
  intro _
  refine System.not_fault_iff_allSteps (I := Books) (fun _ _ _ hb ht => books_step hb ht)
    (fun _ _ _ hb hl ht => (late_step_iff hb ht).mpr (.inl hl)) ?_ books_start ?_ h
  · intro l u v hb hl ht
    rw [late_step_iff hb ht]
    exact or_iff_right hl
  · simp [Late, start, PoolJoinPc.drained]

end Books

/-- A worker executes a job, `Join` returns, and nothing comes later. -/
def submitThenJoin : List (PoolLabel Unit Unit) :=
  [.submit (), .worker (), .worker (), .worker (), .worker (), .submit (), .callJoin, .join, .join,
    .worker (), .join, .join, .join]

theorem accounted_submitThenJoin : ∃ s, (threadPool Unit Unit).run submitThenJoin start = some s ∧
    (Accounted s ↔ (s.join = .returned →
      (threadPool Unit Unit).AllSteps EnqueuedInTime submitThenJoin start)) := by
  have hrun : ((threadPool Unit Unit).run submitThenJoin start).isSome = true := rfl
  exact ⟨_, (Option.some_get hrun).symm,
    accounted_iff submitThenJoin _ (Option.some_get hrun).symm⟩

/-- `Join` returns, and then a job is submitted. -/
def submitAfterJoin : List (PoolLabel Unit Unit) :=
  [.callJoin, .join, .join, .worker (), .join, .join, .join, .submit ()]

/-- The job stays on the queue. -/
theorem submitAfterJoin_not_accounted :
    ∃ s, (threadPool Unit Unit).Reachable s ∧ ¬ Accounted s := by
  have hrun : ((threadPool Unit Unit).run submitAfterJoin start).isSome = true := rfl
  refine ⟨_, System.reachable_of_run rfl (Option.some_get hrun).symm, fun ha => ?_⟩
  exact List.cons_ne_nil _ _ (ha.settled rfl).1

end ThreadPool

end Lizlib
