import Lizlib.Concurrent.BoundJobs

/-!
# What becomes of an expiration

The scheduler thread reads a timer only after `epoll_wait` has reported it, and nobody else reads it:
so the read never blocks, a function is called at most once for each expiration, and an expiration
that has not been read is in the results of the last `epoll_wait` or on the ready list (`onTime`).
As long as the scheduler thread goes on, it is followed by a call, if there is room for an event at all
(`served_iff`).
-/

namespace Lizlib

namespace BoundPc

/-- The channels in the results of `epoll_wait` that have not been read yet. -/
def pending : BoundPc → List Nat
  | .process rest | .remove _ rest | .call _ rest | .running rest => rest
  | .read j rest => j :: rest
  | .check | .wait | .exited | .fatal => []

/-- One when the job's timer has been read and its function has not been called yet. -/
def inHand (j : Nat) : BoundPc → Nat
  | .remove k _ | .call k _ => if k = j then 1 else 0
  | .check | .wait | .process _ | .read _ _ | .running _ | .exited | .fatal => 0

/-- The call of the job's function comes next. -/
def calls (j : Nat) : BoundPc → Bool
  | .call k _ => k = j
  | .check | .wait | .process _ | .read _ _ | .remove _ _ | .running _ | .exited | .fatal => false

/-- The scheduler thread is between two channels. -/
def idle : BoundPc → Bool
  | .remove _ _ | .call _ _ => false
  | .check | .wait | .process _ | .read _ _ | .running _ | .exited | .fatal => true

variable (j : Nat) (rest : List Nat)

@[simp] theorem inHand_remove_self : (remove j rest).inHand j = 1 := if_pos rfl

@[simp] theorem inHand_call_self : (call j rest).inHand j = 1 := if_pos rfl

@[simp] theorem calls_remove (k : Nat) : (remove k rest).calls j = false := rfl

@[simp] theorem calls_call_self : (call j rest).calls j = true := decide_eq_true rfl

variable {j} in
theorem hands_ne {k : Nat} (h : k ≠ j) (rest : List Nat) :
    ((remove j rest).inHand k = 0 ∧ (remove j rest).calls k = false) ∧
      (call j rest).inHand k = 0 ∧ (call j rest).calls k = false := by
  simp [inHand, calls, Ne.symm h]

theorem inHand_of_idle {pc : BoundPc} (h : pc.idle = true) : pc.inHand j = 0 := by
  cases pc <;> first | rfl | cases h

theorem calls_of_idle {pc : BoundPc} (h : pc.idle = true) : pc.calls j = false := by
  cases pc <;> first | rfl | cases h

end BoundPc

namespace BoundJobs

open Function (update)

variable {E : Type*} {buf : Nat}

/-- What the timed jobs may rely on. -/
structure OnTime (s : BoundJobs E) : Prop where
  /-- The scheduler thread never blocks in `Read`. -/
  unblocked : ∀ j rest, s.pc = .read j rest → s.due j = true
  /-- A function is not called more often than its timer has expired, and only if `SetTimer` has
  armed it. -/
  called : ∀ j job, s.job j = some job → job.runs ≤ job.expired ∧
    (0 < job.runs → ∃ spec, job.timer = some spec ∧ spec.it_value ≠ .zero)
  /-- The function of `SubmitAfter` is called once, and its channel is removed before the call. -/
  once : ∀ j job, s.job j = some job → job.once = true →
    job.runs ≤ 1 ∧ (0 < job.runs → job.registered = false)
  /-- No expiration is forgotten. -/
  remembered : ∀ j, s.due j = true → j ∈ s.ready ∨ j ∈ s.pc.pending

/-! ### Small facts -/

theorem has_iff (s : BoundJobs E) (j : Nat) (p : BoundJob E → Bool) :
    s.has j p = true ↔ ∃ job, s.job j = some job ∧ p job = true := by
  unfold has
  cases s.job j <;> simp

theorem due_iff (s : BoundJobs E) (j : Nat) :
    s.due j = true ↔ ∃ job, s.job j = some job ∧ 0 < job.unread := by
  unfold due
  rw [has_iff]
  simp only [decide_eq_true_eq, Nat.pos_iff_ne_zero]

theorem due_congr {s t : BoundJobs E} {j : Nat} (h : t.job j = s.job j) : t.due j = s.due j := by
  rw [due, due, has, has, h]

theorem has_of_job {s : BoundJobs E} {j : Nat} {job : BoundJob E} (hj : s.job j = some job)
    (p : BoundJob E → Bool) : s.has j p = p job := by
  unfold has
  rw [hj]
  rfl

/-- Whether the channel has something to read is seen from its timer alone. -/
theorem due_of_unread {s t : BoundJobs E} {j : Nat} {job job' : BoundJob E} (hj : s.job j = some job)
    (hj' : t.job j = some job') (h : job'.unread = job.unread) : t.due j = s.due j := by
  rw [due, due, has_of_job hj, has_of_job hj', h]

theorem modify_of_job {s : BoundJobs E} {j : Nat} {job : BoundJob E} (hj : s.job j = some job)
    (f : BoundJob E → BoundJob E) :
    s.modify j f = { s with job := update s.job j (some (f job)) } := by
  unfold modify
  rw [hj]
  rfl

/-- The jobs after one of them has changed. -/
theorem job_update {s : BoundJobs E} {j k : Nat} {job job' : BoundJob E}
    (hk : update s.job j (some job') k = some job) :
    k = j ∧ job = job' ∨ k ≠ j ∧ s.job k = some job := by
  by_cases hkj : k = j
  · subst hkj
    rw [Function.update_self, Option.some.injEq] at hk
    exact .inl ⟨rfl, hk.symm⟩
  · rw [Function.update_of_ne hkj] at hk
    exact .inr ⟨hkj, hk⟩

theorem it_interval_of_setTimer {delay interval : Duration} {spec : ITimerSpec}
    (h : TimerChannel.setTimer delay interval = some spec) : spec.it_interval =
      if interval.valid then TimerChannel.toTimespec interval else .zero := by
  unfold TimerChannel.setTimer at h
  split at h
  · cases h
  · rw [← Option.some.inj h]

/-! ### The invariant -/

/-- The account of one job's expirations. -/
structure JobInv (pc : BoundPc) (j : Nat) (job : BoundJob E) : Prop where
  spent : job.runs + pc.inHand j + job.unread ≤ job.expired
  once : job.once = true → job.expired ≤ 1
  timer : job.timer = none ∨ job.timer = job.asked
  asked : job.once = true → ∀ spec, job.asked = some spec → spec.it_interval = .zero
  armed : 0 < job.expired → ∃ spec, job.timer = some spec ∧ spec.it_value ≠ .zero
  removed : job.registered = false → job.once = true ∧ 0 < job.runs + pc.inHand j
  withdrawn : job.once = true → 0 < job.runs ∨ pc.calls j = true → job.registered = false

namespace JobInv

variable {pc pc' : BoundPc} {j : Nat} {job : BoundJob E}

theorem of_pc (h : JobInv pc j job) (hhand : pc'.inHand j = pc.inHand j)
    (hcalls : pc'.calls j = pc.calls j) : JobInv pc' j job where
  spent := hhand ▸ h.spent
  once := h.once
  timer := h.timer
  asked := h.asked
  armed := h.armed
  removed := hhand ▸ h.removed
  withdrawn := hcalls ▸ h.withdrawn

theorem idle (h : JobInv pc j job) (hidle : pc.idle = true) (hidle' : pc'.idle = true) :
    JobInv pc' j job :=
  h.of_pc (by rw [BoundPc.inHand_of_idle _ hidle, BoundPc.inHand_of_idle _ hidle'])
    (by rw [BoundPc.calls_of_idle _ hidle, BoundPc.calls_of_idle _ hidle'])

/-- A job whose channel has been removed has nothing left to read. -/
theorem registered_of_unread (h : JobInv pc j job) (hunread : 0 < job.unread) :
    job.registered = true := by
  by_contra hreg
  obtain ⟨honce, hpos⟩ := h.removed (by simpa using hreg)
  have hspent := h.spent
  have hle := h.once honce
  omega

/-- `SetTimer` -/
theorem setTimer (h : JobInv pc j job) (hnone : job.timer = none) :
    JobInv pc j { job with timer := job.asked } where
  spent := h.spent
  once := h.once
  timer := .inr rfl
  asked := h.asked
  armed hpos := by
    obtain ⟨spec, hspec, -⟩ := h.armed hpos
    rw [hnone] at hspec
    cases hspec
  removed := h.removed
  withdrawn := h.withdrawn

/-- An expiration; a timer without an interval has only one. -/
theorem expire (h : JobInv pc j job) (hmay : job.mayExpire = true) :
    JobInv pc j { job with
      unread := job.unread + 1
      expired := job.expired + 1 } := by
  obtain ⟨spec, hspec, hvalue, hagain⟩ : ∃ spec, job.timer = some spec ∧ spec.it_value ≠ .zero ∧
      (spec.it_interval ≠ .zero ∨ job.expired = 0) := by
    unfold BoundJob.mayExpire at hmay
    cases htimer : job.timer with
    | none =>
      rw [htimer] at hmay
      cases hmay
    | some spec =>
      rw [htimer] at hmay
      exact ⟨spec, rfl, of_decide_eq_true hmay⟩
  refine ⟨?_, fun honce => ?_, h.timer, h.asked, fun _ => ⟨spec, hspec, hvalue⟩, h.removed,
    h.withdrawn⟩
  · have hspent := h.spent
    show job.runs + pc.inHand j + (job.unread + 1) ≤ job.expired + 1
    omega
  · have hasked : job.asked = some spec := by
      rcases h.timer with hnone | heq
      · rw [hnone] at hspec
        cases hspec
      · rw [← heq, hspec]
    have hfirst := hagain.resolve_left fun hne => hne (h.asked honce spec hasked)
    show job.expired + 1 ≤ 1
    omega

/-- The read takes all expirations and leaves one call to make. -/
theorem read (h : JobInv pc j job) (hidle : pc.idle = true) (hunread : 0 < job.unread)
    (hhand : pc'.inHand j = 1) (hcalls : pc'.calls j = true → job.once = false) :
    JobInv pc' j { job with unread := 0 } := by
  have hspent := h.spent
  rw [BoundPc.inHand_of_idle _ hidle] at hspent
  refine ⟨?_, h.once, h.timer, h.asked, h.armed, fun hreg => ?_, fun honce hor => ?_⟩
  · show job.runs + pc'.inHand j + 0 ≤ job.expired
    omega
  · have htrue := h.registered_of_unread hunread
    replace hreg : job.registered = false := hreg
    rw [hreg] at htrue
    cases htrue
  · refine h.withdrawn honce (hor.imp_right fun hcall => ?_)
    have hfalse := hcalls hcall
    replace honce : job.once = true := honce
    rw [hfalse] at honce
    cases honce

/-- `Remove` of a job that is called once. -/
theorem remove (h : JobInv pc j job) (honce : job.once = true) (hhand : pc.inHand j = 1)
    (hhand' : pc'.inHand j = 1) : JobInv pc' j { job with registered := false } where
  spent := hhand' ▸ hhand ▸ h.spent
  once := h.once
  timer := h.timer
  asked := h.asked
  armed := h.armed
  removed _ := ⟨honce, by omega⟩
  withdrawn _ _ := rfl

/-- The call of the function. -/
theorem call (h : JobInv pc j job) (hhand : pc.inHand j = 1) (hcalls : pc.calls j = true)
    (hidle : pc'.idle = true) : JobInv pc' j { job with runs := job.runs + 1 } := by
  have hspent := h.spent
  have hhand' := BoundPc.inHand_of_idle j hidle
  refine ⟨?_, h.once, h.timer, h.asked, h.armed, fun hreg => ⟨(h.removed hreg).1, ?_⟩,
    fun honce _ => h.withdrawn honce (.inr hcalls)⟩
  · show job.runs + 1 + pc'.inHand j + job.unread ≤ job.expired
    omega
  · show 0 < job.runs + 1 + pc'.inHand j
    omega

end JobInv

/-- What holds in every run of a scheduler with room for `buf` events. -/
structure Inv (buf : Nat) (s : BoundJobs E) : Prop where
  job : ∀ j job, s.job j = some job → JobInv s.pc j job
  fresh : ∀ j, s.created ≤ j → s.job j = none
  ready : s.ready.Nodup
  pending : s.pc.pending.Nodup
  reported : ∀ j ∈ s.pc.pending, s.due j = true
  remembered : ∀ j, s.due j = true → j ∈ s.ready ∨ j ∈ s.pc.pending
  /-- The job in the scheduler's hands; it is removed only if it is called once. -/
  subject : ∀ j rest, s.pc = .remove j rest ∨ s.pc = .call j rest →
    ∃ job, s.job j = some job ∧ (s.pc = .remove j rest → job.once = true)
  exited : s.pc = .exited → s.cancel_signal_ = true
  fatal : s.pc = .fatal → buf = 0

theorem Inv.timely {s : BoundJobs E} (h : Inv buf s) : OnTime s where
  unblocked j rest hpc := h.reported j (by rw [hpc]; exact List.mem_cons_self)
  called j job hj := by
    have hspent := (h.job j job hj).spent
    exact ⟨by omega, fun hruns => (h.job j job hj).armed (by omega)⟩
  once j job hj honce := by
    have hspent := (h.job j job hj).spent
    have hle := (h.job j job hj).once honce
    exact ⟨by omega, fun hruns => (h.job j job hj).withdrawn honce (.inl hruns)⟩
  remembered := h.remembered

theorem inv_start : Inv buf (start : BoundJobs E) where
  job _ _ hj := by cases hj
  fresh _ _ := rfl
  ready := List.nodup_nil
  pending := List.nodup_nil
  reported _ hj := by cases hj
  remembered j hj := by
    obtain ⟨job, hjob, -⟩ := (due_iff _ j).mp hj
    cases hjob
  subject _ _ h := by rcases h with h | h <;> cases h
  exited h := by cases h
  fatal h := by cases h

/-! ### The steps -/

/-- A step, by what it does. -/
inductive Moves (buf : Nat) (s : BoundJobs E) : BoundLabel E → BoundJobs E → Prop
  | submit {work : E} {delay interval : Duration} (hvalid : (interval.valid || delay.valid) = true) :
      Moves buf s (.submit work delay interval) { s with
        job := update s.job s.created (some
          { func := work, once := !interval.valid, asked := TimerChannel.setTimer delay interval,
            timer := none, unread := 0, registered := true, expired := 0, runs := 0 })
        created := s.created + 1 }
  | setTimer {j : Nat} {job : BoundJob E} (hj : s.job j = some job) (hnone : job.timer = none) :
      Moves buf s (.setTimer j) { s with
        job := update s.job j (some { job with timer := job.asked }) }
  | expire {j : Nat} {job : BoundJob E} (hj : s.job j = some job) (hmay : job.mayExpire = true) :
      Moves buf s (.expire j) { s with
        job := update s.job j (some { job with
          unread := job.unread + 1
          expired := job.expired + 1 })
        ready := if job.registered = true ∧ j ∉ s.ready then s.ready ++ [j] else s.ready }
  | exit (hpc : s.pc = .check) (hc : s.cancel_signal_ = true) :
      Moves buf s .scheduler { s with pc := .exited }
  | enter (hpc : s.pc = .check) (hc : s.cancel_signal_ = false) :
      Moves buf s .scheduler { s with pc := .wait }
  | wait (hpc : s.pc = .wait) : Moves buf s .scheduler (s.wait buf)
  | round (hpc : s.pc = .process []) : Moves buf s .scheduler { s with pc := .check }
  | next {j : Nat} {rest : List Nat} (hpc : s.pc = .process (j :: rest)) :
      Moves buf s .scheduler { s with pc := .read j rest }
  | read {j : Nat} {rest : List Nat} {job : BoundJob E} (hpc : s.pc = .read j rest)
      (hj : s.job j = some job) (hunread : 0 < job.unread) :
      Moves buf s .scheduler { s with
        job := update s.job j (some { job with unread := 0 })
        pc := if job.once then .remove j rest else .call j rest }
  | remove {j : Nat} {rest : List Nat} (hpc : s.pc = .remove j rest) :
      Moves buf s .scheduler { s.modify j (fun job => { job with registered := false }) with
        ready := s.ready.filter (· ≠ j)
        pc := .call j rest }
  | call {j : Nat} {rest : List Nat} (hpc : s.pc = .call j rest) :
      Moves buf s .scheduler { s.modify j (fun job => { job with runs := job.runs + 1 }) with
        pc := .running rest }
  | return {rest : List Nat} (hpc : s.pc = .running rest) :
      Moves buf s .scheduler { s with pc := .process rest }
  | interrupt (hpc : s.pc = .wait) : Moves buf s .signal { s with pc := .check }
  | interruptRead {j : Nat} {rest : List Nat} (hpc : s.pc = .read j rest)
      (hdue : s.due j = false) : Moves buf s .signal { s with pc := s.callback j rest }
  | cancel : Moves buf s .cancel { s with cancel_signal_ := true }

theorem moves_of_step {l : BoundLabel E} {s t : BoundJobs E} (h : step buf l s = some t) :
    Moves buf s l t := by
  cases l with
  | submit work delay interval =>
    simp only [step, submit, TimerChannel.enqueueTask] at h
    by_cases hvalid : (interval.valid || delay.valid) = true
    · rw [if_pos hvalid] at h
      obtain rfl := Option.some.inj h
      exact .submit hvalid
    · rw [if_neg hvalid] at h
      cases h
  | setTimer j =>
    simp only [step, setTimer, Option.ite_none_right_eq_some, Option.some.injEq] at h
    obtain ⟨hhas, rfl⟩ := h
    obtain ⟨job, hj, hnone⟩ := (has_iff s j _).mp hhas
    rw [modify_of_job hj]
    exact .setTimer hj (Option.isNone_iff_eq_none.mp hnone)
  | expire j =>
    simp only [step, expire, Option.ite_none_right_eq_some, Option.some.injEq] at h
    obtain ⟨hhas, rfl⟩ := h
    obtain ⟨job, hj, hmay⟩ := (has_iff s j _).mp hhas
    rw [modify_of_job hj, has_of_job hj]
    exact .expire hj hmay
  | scheduler =>
    simp only [step, scheduler] at h
    split at h
    · rename_i hpc
      obtain rfl := Option.some.inj h
      by_cases hc : s.cancel_signal_ = true
      · rw [if_pos hc]
        exact .exit hpc hc
      · rw [if_neg hc]
        exact .enter hpc (by simpa using hc)
    · rename_i hpc
      obtain rfl := Option.some.inj h
      exact .wait hpc
    · rename_i hpc
      obtain rfl := Option.some.inj h
      exact .round hpc
    · rename_i j rest hpc
      obtain rfl := Option.some.inj h
      exact .next hpc
    · rename_i j rest hpc
      simp only [Option.ite_none_right_eq_some, Option.some.injEq] at h
      obtain ⟨hdue, rfl⟩ := h
      obtain ⟨job, hj, hunread⟩ := (due_iff s j).mp hdue
      rw [modify_of_job hj, callback, has_of_job hj]
      exact .read hpc hj hunread
    · rename_i j rest hpc
      obtain rfl := Option.some.inj h
      exact .remove hpc
    · rename_i j rest hpc
      obtain rfl := Option.some.inj h
      exact .call hpc
    · rename_i rest hpc
      obtain rfl := Option.some.inj h
      exact .return hpc
    · cases h
    · cases h
  | signal =>
    simp only [step, signal] at h
    split at h
    · rename_i hpc
      obtain rfl := Option.some.inj h
      exact .interrupt hpc
    · rename_i j rest hpc
      simp only [Option.ite_none_left_eq_some, Option.some.injEq] at h
      obtain ⟨hdue, rfl⟩ := h
      exact .interruptRead hpc (by simpa using hdue)
    · cases h
  | cancel =>
    obtain rfl := Option.some.inj h
    exact .cancel

section Step

variable {s t : BoundJobs E}

/-- Steps that change no job and leave the scheduler thread between two channels. -/
theorem Inv.of_idle (h : Inv buf s) (hidle : s.pc.idle = true) {pc : BoundPc} {ready : List Nat}
    (hidle' : pc.idle = true) (hready : ready.Nodup) (hpending : pc.pending.Nodup)
    (hreported : ∀ j ∈ pc.pending, s.due j = true)
    (hremembered : ∀ j, s.due j = true → j ∈ ready ∨ j ∈ pc.pending)
    (hexited : pc = .exited → s.cancel_signal_ = true) (hfatal : pc = .fatal → buf = 0) :
    Inv buf { s with ready := ready, pc := pc } where
  job j job hj := (h.job j job hj).idle hidle hidle'
  fresh := h.fresh
  ready := hready
  pending := hpending
  reported := hreported
  remembered := hremembered
  subject j rest hor := by
    replace hor : pc = .remove j rest ∨ pc = .call j rest := hor
    rcases hor with rfl | rfl <;> cases hidle'
  exited := hexited
  fatal := hfatal

/-- Such a step to a place with the same results before it. -/
theorem Inv.of_pending (h : Inv buf s) (hidle : s.pc.idle = true) {pc : BoundPc}
    (hidle' : pc.idle = true) (hpending : pc.pending = s.pc.pending)
    (hexited : pc = .exited → s.cancel_signal_ = true) (hfatal : pc ≠ .fatal) :
    Inv buf { s with pc := pc } :=
  h.of_idle hidle hidle' h.ready (hpending ▸ h.pending) (hpending ▸ h.reported)
    (hpending ▸ h.remembered) hexited fun hf => absurd hf hfatal

/-- **`epoll_wait`**: what was ready is in the results or still ready. -/
theorem Inv.wait (h : Inv buf s) (hpc : s.pc = .wait) : Inv buf (s.wait buf) := by
  have hidle : s.pc.idle = true := by rw [hpc]; rfl
  have hnone : s.pc.pending = [] := by rw [hpc]; rfl
  unfold BoundJobs.wait
  split_ifs with hbuf
  · exact h.of_idle hidle rfl h.ready List.nodup_nil (by simp [BoundPc.pending])
      (fun j hj => .inl ((h.remembered j hj).resolve_right (by simp [hnone]))) (fun hx => by cases hx) fun _ => hbuf
  · have hsub := ReadyList.harvest_sublist s.due buf s.ready
    have hnodup := h.ready.sublist hsub
    set events := (ReadyList.harvest s.due buf s.ready).1 with hevents
    have hreported : ∀ j ∈ events, s.due j = true :=
      fun j hj => ReadyList.pos_of_mem_harvest s.due buf hj
    have hremembered : ∀ j, s.due j = true →
        j ∈ (ReadyList.harvest s.due buf s.ready).2 ∨ j ∈ events := by
      intro j hj
      have hready := (h.remembered j hj).resolve_right (by simp [hnone])
      exact (ReadyList.mem_harvest s.due buf hready hj).symm
    show Inv buf { s with
      ready := (ReadyList.harvest s.due buf s.ready).2
      pc := if events = [] then .check else .process events }
    have hp : (if events = [] then BoundPc.check else .process events).pending = events := by
      split_ifs with hnil
      · exact hnil.symm
      · rfl
    refine h.of_idle hidle ?_ hnodup.of_append_right ?_ ?_ ?_ ?_ ?_
    · split_ifs <;> rfl
    · rw [hp]
      exact hnodup.of_append_left
    · rw [hp]
      exact hreported
    · rw [hp]
      exact hremembered
    · intro hx
      split_ifs at hx
    · intro hx
      split_ifs at hx

/-- Steps of the other threads and of the kernel on one job. -/
theorem Inv.of_job (h : Inv buf s) {j : Nat} {job' : BoundJob E} {ready : List Nat} {created : Nat}
    (hjob : JobInv s.pc j job') (hcreated : s.created ≤ created) (hj : j < created)
    (hkeep : ∀ job, s.job j = some job → job'.once = job.once ∧ (0 < job.unread → 0 < job'.unread))
    (hready : ready.Nodup) (hmono : ∀ k ∈ s.ready, k ∈ ready)
    (hnew : 0 < job'.unread → j ∈ ready ∨ j ∈ s.pc.pending) :
    Inv buf { s with job := update s.job j (some job'), created := created, ready := ready } where
  job k job hk := by
    rcases job_update hk with ⟨rfl, rfl⟩ | ⟨-, hk⟩
    · exact hjob
    · exact h.job k job hk
  fresh k hk := by
    have hne : k ≠ j := by
      rintro rfl
      exact absurd hk (Nat.not_le.mpr hj)
    show update s.job j _ k = none
    rw [Function.update_of_ne hne]
    exact h.fresh k (Nat.le_trans hcreated hk)
  ready := hready
  pending := h.pending
  reported k hk := by
    obtain ⟨job, hold, hpos⟩ := (due_iff s k).mp (h.reported k hk)
    rw [due_iff]
    by_cases hkj : k = j
    · subst hkj
      exact ⟨job', Function.update_self .., (hkeep job hold).2 hpos⟩
    · exact ⟨job, (Function.update_of_ne hkj ..).trans hold, hpos⟩
  remembered k hk := by
    obtain ⟨job, hjob, hpos⟩ := (due_iff _ k).mp hk
    rcases job_update hjob with ⟨rfl, rfl⟩ | ⟨-, hjob⟩
    · exact hnew hpos
    · exact (h.remembered k ((due_iff s k).mpr ⟨job, hjob, hpos⟩)).imp_left (hmono k)
  subject k rest hor := by
    obtain ⟨job, hk, honce⟩ := h.subject k rest hor
    by_cases hkj : k = j
    · subst hkj
      exact ⟨job', Function.update_self .., fun hpc => (hkeep job hk).1.trans (honce hpc)⟩
    · exact ⟨job, (Function.update_of_ne hkj ..).trans hk, honce⟩
  exited := h.exited
  fatal := h.fatal

theorem Inv.submit (h : Inv buf s) (work : E) (delay interval : Duration) :
    Inv buf { s with
      job := update s.job s.created (some
        { func := work, once := !interval.valid, asked := TimerChannel.setTimer delay interval,
          timer := none, unread := 0, registered := true, expired := 0, runs := 0 })
      created := s.created + 1 } := by
  have hnew := h.fresh s.created (Nat.le_refl _)
  have hsubject : s.pc.inHand s.created = 0 ∧ s.pc.calls s.created = false := by
    cases hpc : s.pc with
    | remove k rest | call k rest =>
      obtain ⟨job, hk, -⟩ := h.subject k rest (by simp [hpc])
      have hne : k ≠ s.created := by
        rintro rfl
        rw [hnew] at hk
        cases hk
      simp [BoundPc.inHand, BoundPc.calls, hne]
    | _ => exact ⟨rfl, rfl⟩
  refine h.of_job ?_ (Nat.le_succ _) (Nat.lt_succ_self _) ?_ h.ready (fun k hk => hk) ?_
  · refine ⟨?_, fun _ => Nat.zero_le _, .inl rfl, ?_, ?_, ?_, ?_⟩
    · show 0 + s.pc.inHand s.created + 0 ≤ 0
      omega
    · intro honce spec hspec
      replace honce : (!interval.valid) = true := honce
      have hinvalid : interval.valid = false := by simpa using honce
      have hasked : TimerChannel.setTimer delay interval = some spec := hspec
      rw [it_interval_of_setTimer hasked, hinvalid]
      rfl
    · exact fun hpos => absurd hpos (Nat.lt_irrefl _)
    · intro hreg
      cases hreg
    · rintro - (hpos | hcalls)
      · exact absurd hpos (Nat.lt_irrefl _)
      · rw [hsubject.2] at hcalls
        cases hcalls
  · intro job hj
    rw [hnew] at hj
    cases hj
  · exact fun hpos => absurd hpos (Nat.lt_irrefl _)

theorem Inv.setTimer (h : Inv buf s) {j : Nat} {job : BoundJob E} (hj : s.job j = some job)
    (hnone : job.timer = none) :
    Inv buf { s with job := update s.job j (some { job with timer := job.asked }) } := by
  have hlt : j < s.created := by
    by_contra hge
    rw [h.fresh j (Nat.le_of_not_lt hge)] at hj
    cases hj
  refine h.of_job ((h.job j job hj).setTimer hnone) (Nat.le_refl _) hlt ?_ h.ready
    (fun k hk => hk) fun hpos => h.remembered j ((due_iff s j).mpr ⟨job, hj, hpos⟩)
  intro job' hj'
  obtain rfl := Option.some.inj (hj.symm.trans hj')
  exact ⟨rfl, id⟩

/-- **An expiration** puts the channel on the ready list, unless it is there. -/
theorem Inv.expire (h : Inv buf s) {j : Nat} {job : BoundJob E} (hj : s.job j = some job)
    (hmay : job.mayExpire = true) :
    Inv buf { s with
      job := update s.job j (some { job with
        unread := job.unread + 1
        expired := job.expired + 1 })
      ready := if job.registered = true ∧ j ∉ s.ready then s.ready ++ [j] else s.ready } := by
  have hlt : j < s.created := by
    by_contra hge
    rw [h.fresh j (Nat.le_of_not_lt hge)] at hj
    cases hj
  have hjob := (h.job j job hj).expire hmay
  have hreg : job.registered = true := hjob.registered_of_unread (Nat.succ_pos _)
  refine h.of_job hjob (Nat.le_refl _) hlt ?_ ?_ ?_ fun _ => .inl ?_
  · intro job' hj'
    obtain rfl := Option.some.inj (hj.symm.trans hj')
    exact ⟨rfl, fun _ => Nat.succ_pos _⟩
  · split_ifs with hin
    · exact List.concat_eq_append ▸ h.ready.concat hin.2
    · exact h.ready
  · intro k hk
    split_ifs
    · exact List.mem_append_left _ hk
    · exact hk
  · by_cases hin : j ∈ s.ready
    · rw [if_neg fun hand => hand.2 hin]
      exact hin
    · rw [if_pos ⟨hreg, hin⟩]
      exact List.mem_append_right _ List.mem_cons_self

/-- Steps of the scheduler thread on the job it handles. -/
theorem Inv.handle (h : Inv buf s) {j : Nat} {job job' : BoundJob E} (hj : s.job j = some job)
    {pc : BoundPc} {ready : List Nat} (hjob : JobInv pc j job')
    (hhand : ∀ k, k ≠ j → pc.inHand k = s.pc.inHand k ∧ pc.calls k = s.pc.calls k)
    (hkeep : ∀ k, k ≠ j → (k ∈ s.ready → k ∈ ready) ∧ (k ∈ pc.pending ↔ k ∈ s.pc.pending))
    (hready : ready.Nodup) (hpending : pc.pending.Nodup)
    (hreported : j ∈ pc.pending → 0 < job'.unread)
    (hremembered : 0 < job'.unread → j ∈ ready ∨ j ∈ pc.pending)
    (hsubject : ∀ k rest, pc = .remove k rest ∨ pc = .call k rest →
      k = j ∧ (pc = .remove k rest → job'.once = true))
    (hexited : pc ≠ .exited) (hfatal : pc ≠ .fatal) :
    Inv buf { s with job := update s.job j (some job'), ready := ready, pc := pc } where
  job k job'' hk := by
    rcases job_update hk with ⟨rfl, rfl⟩ | ⟨hne, hk⟩
    · exact hjob
    · exact (h.job k job'' hk).of_pc (hhand k hne).1 (hhand k hne).2
  fresh k hk := by
    have hne : k ≠ j := by
      rintro rfl
      rw [h.fresh k hk] at hj
      cases hj
    exact (Function.update_of_ne hne ..).trans (h.fresh k hk)
  ready := hready
  pending := hpending
  reported k hk := by
    rw [due_iff]
    by_cases hkj : k = j
    · subst hkj
      exact ⟨job', Function.update_self .., hreported hk⟩
    · obtain ⟨job, hold, hpos⟩ := (due_iff s k).mp (h.reported k ((hkeep k hkj).2.mp hk))
      exact ⟨job, (Function.update_of_ne hkj ..).trans hold, hpos⟩
  remembered k hk := by
    obtain ⟨job'', hk, hpos⟩ := (due_iff _ k).mp hk
    rcases job_update hk with ⟨rfl, rfl⟩ | ⟨hne, hk⟩
    · exact hremembered hpos
    · exact (h.remembered k ((due_iff s k).mpr ⟨job'', hk, hpos⟩)).imp (hkeep k hne).1
        (hkeep k hne).2.mpr
  subject k rest hor := by
    obtain ⟨rfl, honce⟩ := hsubject k rest hor
    exact ⟨job', Function.update_self .., honce⟩
  exited hx := absurd hx hexited
  fatal hx := absurd hx hfatal

/-- **The read** takes all that has been counted; later expirations mark the channel again. -/
theorem Inv.read (h : Inv buf s) {j : Nat} {rest : List Nat} {job : BoundJob E}
    (hpc : s.pc = .read j rest) (hj : s.job j = some job) (hunread : 0 < job.unread) :
    Inv buf { s with
      job := update s.job j (some { job with unread := 0 })
      pc := if job.once then .remove j rest else .call j rest } := by
  have hidle : s.pc.idle = true := by rw [hpc]; rfl
  have hnodup := h.pending
  rw [hpc] at hnodup
  obtain ⟨hnotin, hrest⟩ := List.nodup_cons.mp hnodup
  have hjob := h.job j job hj
  have hkeep : ∀ k, k ≠ j → (k ∈ s.ready → k ∈ s.ready) ∧ (k ∈ rest ↔ k ∈ s.pc.pending) := by
    intro k hk
    refine ⟨id, ?_⟩
    rw [hpc]
    simp [BoundPc.pending, hk]
  by_cases honce : job.once = true
  · rw [if_pos honce]
    refine h.handle hj (hjob.read hidle hunread (BoundPc.inHand_remove_self j rest) (by simp))
      (fun k hk => ?_) hkeep h.ready hrest (fun hin => absurd hin hnotin)
      (fun hpos => absurd hpos (Nat.lt_irrefl 0)) (fun k rest' hor => ?_) (by simp) (by simp)
    · rw [BoundPc.inHand_of_idle _ hidle, BoundPc.calls_of_idle _ hidle]
      exact (BoundPc.hands_ne hk rest).1
    · rcases hor with hor | hor
      · exact ⟨(BoundPc.remove.inj hor).1.symm, fun _ => honce⟩
      · cases hor
  · rw [if_neg honce]
    refine h.handle hj (hjob.read hidle hunread (BoundPc.inHand_call_self j rest) fun _ => by
        simpa using honce)
      (fun k hk => ?_) hkeep h.ready hrest (fun hin => absurd hin hnotin)
      (fun hpos => absurd hpos (Nat.lt_irrefl 0)) (fun k rest' hor => ?_) (by simp) (by simp)
    · rw [BoundPc.inHand_of_idle _ hidle, BoundPc.calls_of_idle _ hidle]
      exact (BoundPc.hands_ne hk rest).2
    · rcases hor with hor | hor
      · cases hor
      · exact ⟨(BoundPc.call.inj hor).1.symm, fun hremove => by cases hremove⟩

/-- **`Remove`** before the only call: the one expiration has just been read. -/
theorem Inv.remove (h : Inv buf s) {j : Nat} {rest : List Nat} (hpc : s.pc = .remove j rest) :
    Inv buf { s.modify j (fun job => { job with registered := false }) with
      ready := s.ready.filter (· ≠ j)
      pc := .call j rest } := by
  obtain ⟨job, hj, honce⟩ := h.subject j rest (.inl hpc)
  replace honce := honce hpc
  have hhand : s.pc.inHand j = 1 := by rw [hpc]; simp
  have hnone : job.unread = 0 := by
    have hspent := (h.job j job hj).spent
    have hle := (h.job j job hj).once honce
    omega
  have hpending : s.pc.pending = rest := by rw [hpc]; rfl
  rw [modify_of_job hj]
  refine h.handle hj ((h.job j job hj).remove honce hhand (by simp))
    (fun k hk => ?_) (fun k hk => ⟨fun hin => ?_, hpending ▸ Iff.rfl⟩) (h.ready.filter _)
    (hpending ▸ h.pending : rest.Nodup) (fun hin => ?_)
    (fun hpos => absurd hnone (Nat.pos_iff_ne_zero.mp hpos)) (fun k rest' hor => ?_) (by simp)
    (by simp)
  · rw [hpc]
    have hne := BoundPc.hands_ne hk rest
    exact ⟨hne.2.1.trans hne.1.1.symm, hne.2.2.trans hne.1.2.symm⟩
  · exact List.mem_filter.mpr ⟨hin, by simpa using hk⟩
  · obtain ⟨job', hjob', hpos⟩ := (due_iff s j).mp (h.reported j (hpending ▸ hin))
    obtain rfl := Option.some.inj (hj.symm.trans hjob')
    exact hpos
  · rcases hor with hor | hor
    · cases hor
    · exact ⟨(BoundPc.call.inj hor).1.symm, fun hremove => by cases hremove⟩

/-- **The call.** -/
theorem Inv.call (h : Inv buf s) {j : Nat} {rest : List Nat} (hpc : s.pc = .call j rest) :
    Inv buf { s.modify j (fun job => { job with runs := job.runs + 1 }) with
      pc := .running rest } := by
  obtain ⟨job, hj, -⟩ := h.subject j rest (.inr hpc)
  have hpending : s.pc.pending = rest := by rw [hpc]; rfl
  have hdue : 0 < job.unread → s.due j = true := fun hpos => (due_iff s j).mpr ⟨job, hj, hpos⟩
  rw [modify_of_job hj]
  refine h.handle hj ((h.job j job hj).call (by rw [hpc]; simp)
      (by rw [hpc]; simp) rfl)
    (fun k hk => ?_) (fun k hk => ⟨id, hpending ▸ Iff.rfl⟩) h.ready
    (hpending ▸ h.pending : rest.Nodup) (fun hin => ?_) (fun hpos => ?_) (fun k rest' hor => ?_)
    (by simp) (by simp)
  · rw [hpc]
    have hne := BoundPc.hands_ne hk rest
    exact ⟨hne.2.1.symm, hne.2.2.symm⟩
  · obtain ⟨job', hjob', hpos⟩ := (due_iff s j).mp (h.reported j (hpending ▸ hin))
    obtain rfl := Option.some.inj (hj.symm.trans hjob')
    exact hpos
  · exact (h.remembered j (hdue hpos)).imp_right fun hin => (hpending ▸ hin : j ∈ rest)
  · rcases hor with hor | hor <;> cases hor

theorem inv_step {l : BoundLabel E} (h : Inv buf s) (ht : step buf l s = some t) : Inv buf t := by
  cases moves_of_step ht with
  | @submit work delay interval _ => exact h.submit work delay interval
  | setTimer hj hnone => exact h.setTimer hj hnone
  | expire hj hmay => exact h.expire hj hmay
  | exit hpc hc => exact h.of_pending (by rw [hpc]; rfl) rfl (by rw [hpc]; rfl) (fun _ => hc) (by simp)
  | enter hpc => exact h.of_pending (by rw [hpc]; rfl) rfl (by rw [hpc]; rfl) (by simp) (by simp)
  | wait hpc => exact h.wait hpc
  | round hpc | next hpc | «return» hpc | interrupt hpc =>
    exact h.of_pending (by rw [hpc]; rfl) rfl (by rw [hpc]; rfl) (by simp) (by simp)
  | read hpc hj hunread => exact h.read hpc hj hunread
  | remove hpc => exact h.remove hpc
  | call hpc => exact h.call hpc
  | @interruptRead j rest hpc hdue =>
    have hreported := h.reported j (by rw [hpc]; exact List.mem_cons_self)
    rw [hdue] at hreported
    cases hreported
  | cancel =>
    exact ⟨h.job, h.fresh, h.ready, h.pending, h.reported, h.remembered, h.subject, fun _ => rfl,
      h.fatal⟩

end Step

/-- **On time**: in every run, whoever submits, whenever the timers expire and however many events a
call of `epoll_wait` returns, the scheduler thread never blocks in a read, no function is called
more often than its timer has expired, those of `SubmitAfter` once, and no expiration is
forgotten. -/
theorem onTime (ls : List (BoundLabel E)) : (boundJobs E buf).AllStates OnTime ls start :=
  System.allStates_of_invariant (fun _ _ _ h ht => inv_step h ht) (fun _ h => h.timely) ls inv_start

theorem inv_of_reachable {s : BoundJobs E} (hs : (boundJobs E buf).Reachable s) : Inv buf s := by
  refine System.Reach.invariant (I := Inv buf) ?_ (fun _ _ _ h _ ht => inv_step h ht) hs
  rintro t rfl
  exact inv_start

/-! ### Progress -/

/-- How far the scheduler thread is from having gone through the ready list. -/
def rank (s : BoundJobs E) : Nat :=
  8 * (2 * s.ready.length + s.pc.pending.length) +
    match s.pc with
    | .wait => 1
    | .check | .read _ _ => 2
    | .process _ => 3
    | .running _ => 4
    | .call _ _ => 5
    | .remove _ _ => 6
    | .exited | .fatal => 0

/-- The job's function has been called after the `n`-th call, and its timer has been read. -/
def Served (j n : Nat) (s : BoundJobs E) : Prop :=
  ∃ job, s.job j = some job ∧ job.unread = 0 ∧ n < job.runs

/-- The channels the scheduler thread comes to before it looks at `cancel_signal_` again. -/
def round (buf : Nat) (s : BoundJobs E) : List Nat :=
  match s.pc with
  | .wait => (ReadyList.harvest s.due buf s.ready).1
  | pc => pc.pending

theorem round_of_pending {s : BoundJobs E} (hpc : s.pc ≠ .wait) : s.round buf = s.pc.pending := by
  unfold round
  split
  · rename_i h
    exact absurd h hpc
  · rfl

/-- There is something to read, or it has been read for the call to come, and the scheduler thread
goes on until then. -/
structure Owed (buf j n : Nat) (s : BoundJobs E) : Prop where
  live : s.cancel_signal_ = false ∧ 0 < buf ∨ j ∈ s.round buf ∨ s.due j = false
  job : ∃ job, s.job j = some job ∧ n ≤ job.runs ∧ (0 < job.unread ∨ s.pc.inHand j = 1)

theorem Owed.congr {s t : BoundJobs E} {j n : Nat} (h : Owed buf j n s)
    (hactive : t.cancel_signal_ = s.cancel_signal_) (hjob : t.job j = s.job j)
    (hhand : t.pc.inHand j = s.pc.inHand j) (hround : j ∈ s.round buf → j ∈ t.round buf) :
    Owed buf j n t where
  live := by
    rw [hactive, due_congr hjob]
    exact h.live.imp_right (Or.imp_left hround)
  job := by
    rw [hjob, hhand]
    exact h.job

/-- Between two rounds the scheduler thread goes on only if it has not been told to stop. -/
theorem Owed.active {s : BoundJobs E} {j n : Nat} (h : Owed buf j n s) (hhand : s.pc.inHand j = 0)
    (hround : s.round buf = []) : s.cancel_signal_ = false ∧ 0 < buf := by
  obtain ⟨job, hj, -, hor⟩ := h.job
  have hunread : 0 < job.unread := hor.resolve_right (by rw [hhand]; exact Nat.zero_ne_one)
  have hdue : s.due j = true := (due_iff s j).mpr ⟨job, hj, hunread⟩
  refine h.live.resolve_right ?_
  rintro (hin | hnot)
  · rw [hround] at hin
    cases hin
  · rw [hdue] at hnot
    cases hnot

/-- **`epoll_wait`** puts the job, or others before it, into the results. -/
theorem rank_wait (hbuf : 0 < buf) {s : BoundJobs E} (hinv : Inv buf s) (hpc : s.pc = .wait) {j : Nat}
    (hdue : s.due j = true) : (s.wait buf).rank < s.rank := by
  have hready : j ∈ s.ready := (hinv.remembered j hdue).resolve_right (by simp [hpc, BoundPc.pending])
  obtain ⟨n, rfl⟩ : ∃ n, buf = n + 1 := ⟨buf - 1, by omega⟩
  have hsub := (ReadyList.harvest_sublist s.due (n + 1) s.ready).length_le
  have hne := ReadyList.harvest_ne_nil s.due n hready hdue
  have hpos := List.length_pos_iff.mpr hne
  rw [List.length_append] at hsub
  unfold wait
  rw [if_neg (Nat.succ_ne_zero n)]
  dsimp only
  rw [if_neg hne]
  unfold rank
  rw [hpc]
  show 8 * (2 * (ReadyList.harvest s.due (n + 1) s.ready).2.length +
      (ReadyList.harvest s.due (n + 1) s.ready).1.length) + 3 < 8 * (2 * s.ready.length + 0) + 1
  omega

theorem owed_wait {s : BoundJobs E} {j n : Nat} (hs : Owed buf j n s) (hpc : s.pc = .wait) :
    Owed buf j n (s.wait buf) := by
  have hhand : s.pc.inHand j = 0 := by rw [hpc]; rfl
  have hround : s.round buf = (ReadyList.harvest s.due buf s.ready).1 := by rw [round, hpc]
  unfold wait
  split_ifs with hbuf
  · refine hs.congr rfl rfl hhand.symm fun hin => ?_
    rw [hround, hbuf, ReadyList.harvest_zero] at hin
    cases hin
  · refine hs.congr rfl rfl ?_ fun hin => ?_
    · rw [hhand]
      dsimp only
      split_ifs <;> rfl
    · rw [hround] at hin
      dsimp only
      rw [if_neg (List.ne_nil_of_mem hin)]
      exact hin

/-- **One step** of the scheduler thread serves the job, or brings it closer. -/
theorem served_or_closer {s : BoundJobs E} {j n : Nat} (hinv : Inv buf s) (hs : Owed buf j n s) :
    ∃ t, step buf .scheduler s = some t ∧ (Served j n t ∨ Owed buf j n t) ∧ t.rank < s.rank := by
  obtain ⟨job, hj, hn, howed⟩ := hs.job
  show ∃ t, s.scheduler buf = some t ∧ _
  cases hpc : s.pc with
  | check =>
    have hround : s.round buf = [] := by rw [round, hpc]; rfl
    obtain ⟨hactive, -⟩ := hs.active (by rw [hpc]; rfl) hround
    refine ⟨{ s with pc := .wait }, ?_, .inr (hs.congr rfl rfl (by rw [hpc]; rfl) ?_), ?_⟩
    · simp [scheduler, hpc, hactive]
    · rw [hround]
      exact fun hin => by cases hin
    · simp [rank, hpc, BoundPc.pending]
  | wait =>
    have hdue : s.due j = true :=
      (due_iff s j).mpr ⟨job, hj, howed.resolve_right (by simp [hpc, BoundPc.inHand])⟩
    have hbuf : 0 < buf := by
      rcases hs.live with ⟨-, hbuf⟩ | hin | hnot
      · exact hbuf
      · by_contra hzero
        obtain rfl : buf = 0 := by omega
        rw [round, hpc] at hin
        simp at hin
      · rw [hdue] at hnot
        cases hnot
    exact ⟨s.wait buf, by simp [scheduler, hpc], .inr (owed_wait hs hpc), rank_wait hbuf hinv hpc hdue⟩
  | process rest =>
    cases rest with
    | nil =>
      have hround : s.round buf = [] := by rw [round, hpc]; rfl
      refine ⟨{ s with pc := .check }, ?_, .inr (hs.congr rfl rfl (by rw [hpc]; rfl) ?_), ?_⟩
      · simp [scheduler, hpc]
      · rw [hround]
        exact fun hin => by cases hin
      · simp [rank, hpc, BoundPc.pending]
    | cons k rest =>
      refine ⟨{ s with pc := .read k rest }, ?_,
        .inr (hs.congr rfl rfl (by rw [hpc]; rfl) (by rw [round, hpc]; exact id)), ?_⟩
      · simp [scheduler, hpc]
      · simp [rank, hpc, BoundPc.pending]
  | read k rest =>
    have hdue : s.due k = true := hinv.reported k (by rw [hpc]; exact List.mem_cons_self)
    obtain ⟨job', hk, hpos⟩ := (due_iff s k).mp hdue
    have hpending : (s.callback k rest).pending = rest := by
      unfold callback
      split_ifs <;> rfl
    have hwait : s.callback k rest ≠ .wait := by
      unfold callback
      split_ifs <;> simp
    refine ⟨{ s.modify k (fun job => { job with unread := 0 }) with pc := s.callback k rest },
      ?_, .inr ?_, ?_⟩
    · simp [scheduler, hpc, hdue]
    · rw [modify_of_job hk]
      by_cases hkj : k = j
      · subst hkj
        obtain rfl := Option.some.inj (hj.symm.trans hk)
        refine ⟨.inr (.inr ?_), _, Function.update_self .., hn, .inr ?_⟩
        · exact (has_of_job (Function.update_self ..) _).trans rfl
        · show (s.callback k rest).inHand k = 1
          unfold callback
          split_ifs <;> simp
      · have hjob : update s.job k (some { job' with unread := 0 }) j = s.job j :=
          Function.update_of_ne (Ne.symm hkj) ..
        refine ⟨hs.live.imp_right (Or.imp (fun hin => ?_) fun hnot => ?_), job, hjob.trans hj, hn,
          howed.imp_right ?_⟩
        · rw [round, hpc] at hin
          rw [round_of_pending hwait]
          show j ∈ (s.callback k rest).pending
          rw [hpending]
          exact (List.mem_cons.mp hin).resolve_left (Ne.symm hkj)
        · exact (due_congr hjob).trans hnot
        · rw [hpc]
          exact fun hhand => absurd hhand Nat.zero_ne_one
    · unfold rank
      rw [hpc]
      show 8 * (2 * s.ready.length + (s.callback k rest).pending.length) + _ <
        8 * (2 * s.ready.length + (k :: rest).length) + 2
      rw [hpending, List.length_cons]
      unfold callback
      split_ifs <;> dsimp only <;> omega
  | remove k rest =>
    obtain ⟨job', hk, -⟩ := hinv.subject k rest (.inl hpc)
    refine ⟨{ s.modify k (fun job => { job with registered := false }) with
      ready := s.ready.filter (· ≠ k)
      pc := .call k rest }, by simp [scheduler, hpc], .inr ?_, ?_⟩
    · rw [modify_of_job hk]
      have hlive : j ∈ s.round buf → j ∈ rest := by
        rw [round, hpc]
        exact id
      by_cases hkj : k = j
      · subst hkj
        obtain rfl := Option.some.inj (hj.symm.trans hk)
        have hsame := due_of_unread hj (t := { s with
          job := update s.job k (some { job with registered := false }) })
          (Function.update_self ..) rfl
        exact ⟨hs.live.imp_right (Or.imp hlive hsame.trans), _, Function.update_self .., hn,
          .inr (BoundPc.inHand_call_self k rest)⟩
      · have hjob : update s.job k (some { job' with registered := false }) j = s.job j :=
          Function.update_of_ne (Ne.symm hkj) ..
        refine ⟨hs.live.imp_right (Or.imp hlive fun hnot => ?_), job, hjob.trans hj, hn,
          howed.imp_right ?_⟩
        · exact (due_congr hjob).trans hnot
        · rw [hpc, (BoundPc.hands_ne (Ne.symm hkj) rest).1.1]
          exact fun hhand => absurd hhand Nat.zero_ne_one
    · have hle := List.length_filter_le (fun i => decide (i ≠ k)) s.ready
      unfold rank
      rw [hpc]
      show 8 * (2 * (s.ready.filter fun i => decide (i ≠ k)).length + rest.length) + 5 <
        8 * (2 * s.ready.length + rest.length) + 6
      omega
  | call k rest =>
    obtain ⟨job', hk, -⟩ := hinv.subject k rest (.inr hpc)
    refine ⟨{ s.modify k (fun job => { job with runs := job.runs + 1 }) with pc := .running rest },
      by simp [scheduler, hpc], ?_, ?_⟩
    · rw [modify_of_job hk]
      have hlive : j ∈ s.round buf → j ∈ rest := by
        rw [round, hpc]
        exact id
      by_cases hkj : k = j
      · subst hkj
        obtain rfl := Option.some.inj (hj.symm.trans hk)
        by_cases hread : job.unread = 0
        · exact .inl ⟨_, Function.update_self .., hread, Nat.lt_succ_of_le hn⟩
        · have hdue : s.due k = true := (due_iff s k).mpr ⟨job, hj, Nat.pos_of_ne_zero hread⟩
          refine .inr ⟨hs.live.imp_right fun hor => .inl (hlive (hor.resolve_right ?_)), _,
            Function.update_self .., Nat.le_succ_of_le hn, .inl (Nat.pos_of_ne_zero hread)⟩
          rw [hdue]
          exact Bool.false_ne_true.symm
      · have hjob : update s.job k (some { job' with runs := job'.runs + 1 }) j = s.job j :=
          Function.update_of_ne (Ne.symm hkj) ..
        refine .inr ⟨hs.live.imp_right (Or.imp hlive fun hnot => ?_), job, hjob.trans hj, hn,
          howed.imp_right ?_⟩
        · exact (due_congr hjob).trans hnot
        · rw [hpc, (BoundPc.hands_ne (Ne.symm hkj) rest).2.1]
          exact fun hhand => absurd hhand Nat.zero_ne_one
    · unfold rank
      rw [hpc]
      exact Nat.lt_succ_self _
  | running rest =>
    refine ⟨{ s with pc := .process rest }, by simp [scheduler, hpc],
      .inr (hs.congr rfl rfl (by rw [hpc]; rfl) (by rw [round, hpc]; exact id)), ?_⟩
    unfold rank
    rw [hpc]
    exact Nat.lt_succ_self _
  | exited =>
    have hactive := hs.active (by rw [hpc]; rfl) (by rw [round, hpc]; rfl)
    have hcancel := hinv.exited hpc
    rw [hactive.1] at hcancel
    cases hcancel
  | fatal =>
    have hactive := hs.active (by rw [hpc]; rfl) (by rw [round, hpc]; rfl)
    exact absurd (hinv.fatal hpc) (Nat.pos_iff_ne_zero.mp hactive.2)

/-! ### A job that is left behind -/

/-- The scheduler thread is not going to look at the channel of the job again: it is not in this
round, and there is no other one. -/
structure LeftBehind (buf j : Nat) (s : BoundJobs E) : Prop where
  last : s.cancel_signal_ = true ∨ buf = 0
  round : j ∉ s.round buf
  due : s.due j = true

/-- **One step** of the scheduler thread leaves it behind. -/
theorem LeftBehind.step {s t : BoundJobs E} {j : Nat} (h : LeftBehind buf j s)
    (ht : step buf .scheduler s = some t) : LeftBehind buf j t := by
  have hkeep : ∀ {u : BoundJobs E}, u.cancel_signal_ = s.cancel_signal_ → j ∉ u.round buf →
      u.job j = s.job j → LeftBehind buf j u := by
    intro u hcancel hround hjob
    exact ⟨by rw [hcancel]; exact h.last, hround, (due_congr hjob).trans h.due⟩
  -- a change that leaves the timers alone
  have hmodify : ∀ (k : Nat) (f : BoundJob E → BoundJob E) (u : BoundJobs E),
      (∀ job, (f job).unread = job.unread) → u.job = (s.modify k f).job → u.due j = true := by
    intro k f u hf hjob
    obtain ⟨job, hj, -⟩ := (due_iff s j).mp h.due
    by_cases hkj : k = j
    · subst hkj
      have hself : u.job k = some (f job) := by
        rw [hjob, modify_of_job hj]
        exact Function.update_self ..
      exact (due_of_unread hj hself (hf job)).trans h.due
    · refine (due_congr ?_).trans h.due
      rw [hjob]
      exact Function.update_of_ne (Ne.symm hkj) ..
  have hround := h.round
  cases moves_of_step ht with
  | exit hpc hc => exact hkeep rfl List.not_mem_nil rfl
  | enter hpc hc =>
    have hbuf : buf = 0 := h.last.resolve_left (by rw [hc]; exact Bool.false_ne_true)
    refine hkeep rfl ?_ rfl
    subst hbuf
    show j ∉ (ReadyList.harvest _ 0 _).1
    rw [ReadyList.harvest_zero]
    exact List.not_mem_nil
  | wait hpc =>
    rw [BoundJobs.round, hpc] at hround
    unfold wait
    split_ifs with hbuf
    · exact hkeep rfl List.not_mem_nil rfl
    · refine hkeep rfl ?_ rfl
      dsimp only
      split_ifs
      · exact List.not_mem_nil
      · exact hround
  | round hpc => exact hkeep rfl List.not_mem_nil rfl
  | next hpc =>
    rw [BoundJobs.round, hpc] at hround
    exact hkeep rfl hround rfl
  | @read k rest job hpc hk hunread =>
    rw [BoundJobs.round, hpc] at hround
    have hne : j ≠ k := fun heq => hround (heq ▸ List.mem_cons_self)
    refine hkeep rfl ?_ (Function.update_of_ne hne ..)
    dsimp only [BoundJobs.round]
    split_ifs <;> exact fun hin => hround (List.mem_cons_of_mem k hin)
  | @remove k rest hpc =>
    rw [BoundJobs.round, hpc] at hround
    exact ⟨h.last, hround,
      hmodify k (fun job => { job with registered := false }) _ (fun _ => rfl) rfl⟩
  | @call k rest hpc =>
    rw [BoundJobs.round, hpc] at hround
    exact ⟨h.last, hround,
      hmodify k (fun job => { job with runs := job.runs + 1 }) _ (fun _ => rfl) rfl⟩
  | «return» hpc =>
    rw [BoundJobs.round, hpc] at hround
    exact hkeep rfl hround rfl

/-- **Every expiration is served** that can be: whenever the timer of a job has expired and has not
been read, the next steps of the scheduler thread alone read it and call the function once more,
exactly if the scheduler has not been told to stop and its selector has room for an event, or if the
thread comes to the job in the round it is in. -/
theorem served_iff {s : BoundJobs E} (hs : (boundJobs E buf).Reachable s) {j : Nat}
    {job : BoundJob E} (hj : s.job j = some job) (hunread : 0 < job.unread) :
    (boundJobs E buf).Leads (fun l => l = .scheduler) (Served j job.runs) s ↔
      s.cancel_signal_ = false ∧ 0 < buf ∨ j ∈ s.round buf := by
  have hdue : s.due j = true := (due_iff s j).mpr ⟨job, hj, hunread⟩
  constructor
  · intro hleads
    by_contra hnot
    obtain ⟨hlast, hround⟩ := not_or.mp hnot
    have hleft : LeftBehind buf j s := by
      refine ⟨?_, hround, hdue⟩
      cases hc : s.cancel_signal_ with
      | true => exact .inl rfl
      | false => exact .inr (by_contra fun hbuf => hlast ⟨hc, Nat.pos_of_ne_zero hbuf⟩)
    refine System.not_leads (I := LeftBehind buf j) ?_ ?_ hleft hleads
    · rintro l t u ht rfl hu
      exact ht.step hu
    · rintro t ht ⟨job', hjob', hread, -⟩
      obtain ⟨job'', hjob'', hpos⟩ := (due_iff t j).mp ht.due
      obtain rfl := Option.some.inj (hjob'.symm.trans hjob'')
      omega
  · intro hlive
    have hinv : Inv buf s := inv_of_reachable hs
    refine System.leads_of_rank
      (I := fun t => Inv buf t ∧ (Served j job.runs t ∨ Owed buf j job.runs t)) rank (fun t ht => ?_)
      ⟨hinv, .inr ⟨hlive.imp_right .inl, job, hj, Nat.le_refl _, .inl hunread⟩⟩
    rcases ht with ⟨hinvt, hserved | howed⟩
    · exact .inl hserved
    · obtain ⟨u, hu, hor, hlt⟩ := served_or_closer hinvt howed
      exact .inr ⟨.scheduler, u, rfl, hu, ⟨inv_step hinvt hu, hor⟩, hlt⟩

/-- Two tasks submitted for a second later; when both timers have expired, `epoll_wait` has room for
one of them, and then the scheduler is told to stop. -/
def secondLater : List (BoundLabel Unit) :=
  [.submit () ⟨1000000⟩ .invalid, .setTimer 0, .submit () ⟨1000000⟩ .invalid, .setTimer 1,
    .expire 0, .expire 1, .scheduler, .scheduler, .cancel]

theorem served_iff_secondLater : ∃ s job job', (boundJobs Unit 1).Reachable s ∧
    s.job 0 = some job ∧ s.job 1 = some job' ∧
    ((boundJobs Unit 1).Leads (fun l => l = .scheduler) (Served 0 job.runs) s ↔
      s.cancel_signal_ = false ∧ 0 < 1 ∨ 0 ∈ s.round 1) ∧
    ((boundJobs Unit 1).Leads (fun l => l = .scheduler) (Served 1 job'.runs) s ↔
      s.cancel_signal_ = false ∧ 0 < 1 ∨ 1 ∈ s.round 1) ∧
    s.cancel_signal_ = true ∧ s.round 1 = [0] := by
  have hrun : ((boundJobs Unit 1).run secondLater start).isSome = true := by decide
  have hs := System.reachable_of_run rfl (Option.some_get hrun).symm
  exact ⟨_, _, _, hs, rfl, rfl, served_iff hs rfl (by decide), served_iff hs rfl (by decide), rfl,
    rfl⟩

end BoundJobs

end Lizlib
