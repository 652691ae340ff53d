import Mathlib.Data.Finset.Card
import Lizlib.Concurrent.CountdownLatch

/-!
# When the countdown latch is correct

The count is right in every run.  `Await` is not: it sleeps without looking at the count, and it
believes every wake-up.  `Correct` holds along a schedule exactly when no `Await` goes to sleep
after the last `CountDown` is over, and none is woken without a notification before the count is
zero (`correct_iff_safe`).
-/

namespace Lizlib

namespace CountdownLatch

open Function

variable {T : Type*}

/-- The count after `completed` calls have returned, and some others have had their effect. -/
def Tally (counts : Nat) (s : CountdownLatch T) : Prop :=
  ∃ F : Finset T, (∀ t, t ∈ F ↔ s.pc t = .notify) ∧ s.count_ = counts - (s.completed + F.card)

/-- Some call of `CountDown` is in progress. -/
def Counting (s : CountdownLatch T) : Prop := ∃ t, (s.pc t).counting = true

/-- The latch counts each call of `CountDown` once, down to zero; nobody sleeps at zero unless a
`CountDown` is in progress; and `Await` gets as far as its assertion at zero only. -/
structure Correct (counts : Nat) (s : CountdownLatch T) : Prop where
  tally : Tally counts s
  hits : ∀ t, s.hits t ≤ 1
  awake : s.count_ = 0 → ¬ Counting s → ∀ t, s.pc t ≠ .asleep
  zero : ∀ t, s.pc t = .check → s.count_ = 0
  fatal : s.fatal = false

/-- `Await` does not go to sleep at zero, unless a `CountDown` is in progress, and does not wake up
by itself before. -/
def Safe (l : LatchLabel T) (s : CountdownLatch T) : Prop :=
  match l with
  | .next t => s.pc t = .wait → s.count_ = 0 → Counting s
  | .spurious _ => s.count_ = 0
  | _ => True

/-- With no call in progress the count is what is left of `counts` after the completed calls. -/
theorem Tally.count_eq {counts : Nat} {s : CountdownLatch T} (h : Tally counts s)
    (hidle : ¬ Counting s) : s.count_ = counts - s.completed := by
  obtain ⟨F, hF, hcount⟩ := h
  have hempty : F = ∅ := by
    refine Finset.eq_empty_of_forall_notMem fun t ht => hidle ⟨t, ?_⟩
    rw [(hF t).mp ht]
    rfl
  rw [hcount, hempty, Finset.card_empty, Nat.add_zero]

/-! ### Waking -/

theorem wakeAll_ne_asleep (pc : T → LatchPc) (t : T) : wakeAll pc t ≠ .asleep := by
  unfold wakeAll
  split
  · simp
  · assumption

theorem wakeAll_eq_notify (pc : T → LatchPc) (t : T) :
    wakeAll pc t = .notify ↔ pc t = .notify := by
  unfold wakeAll
  split <;> simp_all

/-! ### Steps -/

variable [DecidableEq T]

/-- One step from `s`, by its label. -/
inductive Moves (s : CountdownLatch T) : LatchLabel T → CountdownLatch T → Prop
  | countDown {t : T} (h : s.pc t = .idle) :
      Moves s (.countDown t) { s with pc := update s.pc t .load, hits := update s.hits t 0 }
  | await {t : T} (h : s.pc t = .idle) :
      Moves s (.await t) { s with pc := update s.pc t .wait }
  | loadZero {t : T} (h : s.pc t = .load) (hz : s.count_ = 0) :
      Moves s (.next t) { s with pc := update s.pc t .notify }
  | load {t : T} (h : s.pc t = .load) (hz : s.count_ ≠ 0) :
      Moves s (.next t) { s with pc := update s.pc t (.cas s.count_) }
  | casLast {t : T} {r : Nat} (h : s.pc t = .cas r) (hr : s.count_ = r) (hz : r - 1 = 0) :
      Moves s (.next t) { s with
        count_ := r - 1, hits := update s.hits t (s.hits t + 1), pc := update s.pc t .notify }
  | cas {t : T} {r : Nat} (h : s.pc t = .cas r) (hr : s.count_ = r) (hz : r - 1 ≠ 0) :
      Moves s (.next t) { s with
        count_ := r - 1, hits := update s.hits t (s.hits t + 1), pc := update s.pc t .idle,
        completed := s.completed + 1 }
  | casFail {t : T} {r : Nat} (h : s.pc t = .cas r) (hr : s.count_ ≠ r) :
      Moves s (.next t) { s with pc := update s.pc t .load }
  | notify {t : T} (h : s.pc t = .notify) :
      Moves s (.next t) { s with
        pc := update (wakeAll s.pc) t .idle, completed := s.completed + 1 }
  | sleep {t : T} (h : s.pc t = .wait) :
      Moves s (.next t) { s with pc := update s.pc t .asleep }
  | pass {t : T} (h : s.pc t = .check) (hz : s.count_ = 0) :
      Moves s (.next t) { s with pc := update s.pc t .idle }
  | fail {t : T} (h : s.pc t = .check) (hz : s.count_ ≠ 0) :
      Moves s (.next t) { s with fatal := true }
  | spurious {t : T} (h : s.pc t = .asleep) :
      Moves s (.spurious t) { s with pc := update s.pc t .check }

/-- **Inversion of a step**. -/
theorem moves_of_step {l : LatchLabel T} {s t : CountdownLatch T} (h : step l s = some t) :
    Moves s l t := by
  unfold step at h
  split_ifs at h
  cases l with
  | countDown u =>
    simp only [Option.ite_none_right_eq_some, Option.some.injEq] at h
    obtain ⟨hu, rfl⟩ := h
    exact .countDown hu
  | await u =>
    simp only [Option.ite_none_right_eq_some, Option.some.injEq] at h
    obtain ⟨hu, rfl⟩ := h
    exact .await hu
  | spurious u =>
    simp only [Option.ite_none_right_eq_some, Option.some.injEq] at h
    obtain ⟨hu, rfl⟩ := h
    exact .spurious hu
  | next u =>
    simp only [nextStep] at h
    cases hu : s.pc u with
    | idle | asleep => simp [hu] at h
    | load =>
      simp only [hu, Option.some.injEq] at h
      subst h
      split_ifs with hz
      · exact .loadZero hu hz
      · exact .load hu hz
    | cas r =>
      simp only [hu] at h
      split_ifs at h with hr hz
      · obtain rfl := Option.some.inj h
        exact .casLast hu hr hz
      · obtain rfl := Option.some.inj h
        exact .cas hu hr hz
      · obtain rfl := Option.some.inj h
        exact .casFail hu hr
    | notify =>
      simp only [hu, Option.some.injEq] at h
      subst h
      exact .notify hu
    | wait =>
      simp only [hu, Option.some.injEq] at h
      subst h
      exact .sleep hu
    | check =>
      simp only [hu] at h
      split_ifs at h with hz
      · obtain rfl := Option.some.inj h
        exact .pass hu hz
      · obtain rfl := Option.some.inj h
        exact .fail hu hz

/-- What the threads inside `CountDown` know: one that is about to notify has seen zero, and one that
has not decremented yet has counted nothing. -/
structure Inv (s : CountdownLatch T) : Prop where
  notify : ∀ t, s.pc t = .notify → s.count_ = 0
  cas : ∀ t r, s.pc t = .cas r → r ≠ 0
  hits_load : ∀ t, s.pc t = .load → s.hits t = 0
  hits_cas : ∀ t r, s.pc t = .cas r → s.hits t = 0
  hits_le : ∀ t, s.hits t ≤ 1

section Step

variable {counts : Nat} {l : LatchLabel T} {s t : CountdownLatch T}

theorem inv_step (hs : Inv s) (h : step l s = some t) : Inv t := by
  obtain ⟨hnotify, hcas, hload, hcas0, hle⟩ := hs
  cases moves_of_step h with
  | notify hu =>
    constructor <;> grind [Function.update_apply, wakeAll]
  | _ =>
    constructor <;> grind [Function.update_apply]

omit [DecidableEq T] in
/-- A step that neither counts nor begins or ends a notification. -/
theorem Tally.of_pc (hs : Tally counts s) (hcount : t.count_ = s.count_)
    (hcompleted : t.completed = s.completed) (hpc : ∀ u, t.pc u = .notify ↔ s.pc u = .notify) :
    Tally counts t := by
  obtain ⟨F, hF, heq⟩ := hs
  refine ⟨F, fun u => (hF u).trans (hpc u).symm, ?_⟩
  rw [hcount, hcompleted, heq]

/-- A thread that begins to notify has had its effect. -/
theorem Tally.insert (hs : Tally counts s) {u : T} (hu : s.pc u ≠ .notify)
    (hpc : t.pc = update s.pc u .notify) (hcompleted : t.completed = s.completed)
    (hcount : t.count_ = s.count_ - 1) : Tally counts t := by
  obtain ⟨F, hF, heq⟩ := hs
  refine ⟨Insert.insert u F, fun v => ?_, ?_⟩
  · rw [Finset.mem_insert, hF, hpc, Function.update_apply]
    split_ifs with hv <;> simp [hv]
  · rw [Finset.card_insert_of_notMem (fun hmem => hu ((hF u).mp hmem)), hcount, heq, hcompleted]
    omega

theorem tally_step (hs : Tally counts s) (h : step l s = some t) :
    Tally counts t := by
  cases moves_of_step h with
  | @loadZero u hu hz => exact hs.insert (by simp [hu]) rfl rfl (by simp [hz])
  | @casLast u r hu hr hz => exact hs.insert (by simp [hu]) rfl rfl (by simp [hr])
  | @cas u r hu hr hz =>
    -- the call returns at once: it is completed and has not to notify
    obtain ⟨F, hF, heq⟩ := hs
    refine ⟨F, fun v => (hF v).trans ?_, ?_⟩
    · by_cases hv : v = u <;> simp [hv, hu]
    · show r - 1 = counts - (s.completed + 1 + F.card)
      omega
  | @notify u hu =>
    obtain ⟨F, hF, heq⟩ := hs
    refine ⟨F.erase u, fun v => ?_, ?_⟩
    · by_cases hv : v = u
      · simp [hv]
      · simp [hv, hF, wakeAll_eq_notify]
    · show s.count_ = counts - (s.completed + 1 + (F.erase u).card)
      have hcard := Finset.card_erase_add_one ((hF u).mpr hu)
      omega
  | @fail u hu hz => exact hs.of_pc rfl rfl fun _ => Iff.rfl
  | @countDown u hu | @await u hu | @load u hu | @casFail u r hu | @sleep u hu | @pass u hu
  | @spurious u hu =>
    refine hs.of_pc rfl rfl fun v => ?_
    by_cases hv : v = u <;> simp [hv, hu]

omit [DecidableEq T] in
/-- A step that ends no `CountDown` and puts nobody to sleep. -/
theorem awake_of (hs : Correct counts s) (hcount : t.count_ = s.count_)
    (hcounting : ∀ u, (s.pc u).counting = true → (t.pc u).counting = true)
    (hasleep : ∀ u, t.pc u = .asleep → s.pc u = .asleep) :
    t.count_ = 0 → ¬ Counting t → ∀ u, t.pc u ≠ .asleep := by
  intro hz hidle u hu
  refine hs.awake (hcount ▸ hz) ?_ u (hasleep u hu)
  rintro ⟨v, hv⟩
  exact hidle ⟨v, hcounting v hv⟩

/-- Nobody is left asleep at zero, except by going to sleep. -/
theorem awake_step (hs : Correct counts s) (h : step l s = some t) (hg : Safe l s) :
    t.count_ = 0 → ¬ Counting t → ∀ u, t.pc u ≠ .asleep := by
  cases moves_of_step h with
  | @countDown u | @loadZero u | @load u | @casLast u | @casFail u =>
    intro _ hidle
    refine absurd ⟨u, ?_⟩ hidle
    simp [LatchPc.counting]
  | cas hu hr hz => exact fun hzero => absurd hzero hz
  | @notify u hu =>
    intro _ _ v
    by_cases hv : v = u
    · simp [hv]
    · simpa [hv] using wakeAll_ne_asleep s.pc v
  | @sleep u hu =>
    intro hz hidle
    obtain ⟨v, hv⟩ := hg hu hz
    refine absurd ⟨v, ?_⟩ hidle
    have hvu : v ≠ u := by
      rintro rfl
      simp [hu, LatchPc.counting] at hv
    simpa [hvu] using hv
  | fail hu hz => exact absurd (hs.zero _ hu) hz
  | @await u hu | @pass u hu | @spurious u hu =>
    refine awake_of hs rfl (fun v hv => ?_) fun v hv => ?_
    · by_cases hvu : v = u
      · simp [hvu, hu, LatchPc.counting] at hv
      · simpa [hvu] using hv
    · by_cases hvu : v = u
      · simp [hvu] at hv
      · simpa [hvu] using hv

/-- `Await` gets to its assertion at zero. -/
theorem zero_step (hi : Inv s) (hs : Correct counts s) (h : step l s = some t) (hg : Safe l s) :
    ∀ u, t.pc u = .check → t.count_ = 0 := by
  cases moves_of_step h with
  | @casLast u r hu hr | @cas u r hu hr =>
    -- nobody is there yet: the count is not zero
    intro v hv
    have hvu : v ≠ u := by
      rintro rfl
      simp at hv
    have hz := hs.zero v (by simpa [hvu] using hv)
    exact absurd (hr.symm.trans hz) (hi.cas u r hu)
  | @notify u hu => exact fun _ _ => hi.notify u hu
  | spurious hu => exact fun _ _ => hg
  | fail hu => exact fun v hv => hs.zero v hv
  | @countDown u hu | @await u hu | @loadZero u hu | @load u hu | @casFail u r hu | @sleep u hu
  | @pass u hu =>
    intro v hv
    have hvu : v ≠ u := by
      rintro rfl
      simp at hv
    exact hs.zero v (by simpa [hvu] using hv)

/-- **The step that goes wrong**: from a correct state, a step leads to a correct one exactly when
it is safe. -/
theorem correct_step_iff (hi : Inv s) (hs : Correct counts s) (h : step l s = some t) :
    Correct counts t ↔ Safe l s := by
  constructor
  · intro ht
    cases moves_of_step h with
    | @sleep u hu =>
      intro _ hz
      by_contra hidle
      refine ht.awake hz ?_ u (by simp)
      rintro ⟨v, hv⟩
      refine hidle ⟨v, ?_⟩
      by_cases hvu : v = u
      · simp [hvu, LatchPc.counting] at hv
      · simpa [hvu] using hv
    | @spurious u hu => exact ht.zero u (by simp)
    | countDown | await => trivial
    | _ => simp [Safe, *]
  · intro hg
    refine ⟨tally_step hs.tally h, (inv_step hi h).hits_le, awake_step hs h hg,
      zero_step hi hs h hg, ?_⟩
    cases moves_of_step h with
    | fail hu hz => exact absurd (hs.zero _ hu) hz
    | _ => exact hs.fatal

end Step

omit [DecidableEq T] in
theorem inv_start (counts : Nat) : Inv (start counts : CountdownLatch T) := by
  constructor <;> simp [start]

omit [DecidableEq T] in
theorem correct_start (counts : Nat) : Correct counts (start counts : CountdownLatch T) := by
  refine ⟨⟨∅, ?_, ?_⟩, ?_, ?_, ?_, rfl⟩ <;> simp [start]

/-- **The countdown latch**: along a schedule it is correct in every state, if and only if no `Await`
goes to sleep at zero without a `CountDown` in progress, and none is woken before zero without a
notification. -/
theorem correct_iff_safe (counts : Nat) (ls : List (LatchLabel T)) :
    (countdownLatch T counts).AllStates (Correct counts) ls (start counts) ↔
      (countdownLatch T counts).AllSteps Safe ls (start counts) :=
  System.allStates_iff_allSteps (I := Inv) (fun _ _ _ hi _ h _ => inv_step hi h)
    (fun _ _ _ hi hs h => correct_step_iff hi hs h) ls (inv_start counts) (correct_start counts)

/-- The only `CountDown` is over before `Await` begins. -/
def lateAwait : List (LatchLabel Bool) :=
  [.countDown true, .next true, .next true, .next true, .await false, .next false]

/-- `Await` sleeps at zero. -/
theorem lateAwait_not_correct :
    ¬ (countdownLatch Bool 1).AllStates (Correct 1) lateAwait (start 1) := by
  intro h
  have hrun : ((countdownLatch Bool 1).run lateAwait (start 1)).isSome = true := rfl
  have hs := h.last (Option.some_get hrun).symm
  refine hs.awake rfl ?_ false rfl
  rintro ⟨_ | _, ht⟩
  · exact Bool.false_ne_true ht
  · exact Bool.false_ne_true ht

end CountdownLatch

end Lizlib
