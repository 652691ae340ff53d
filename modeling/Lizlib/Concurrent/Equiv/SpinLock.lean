import Lizlib.Data.Tickets
import Lizlib.Concurrent.SpinLock

/-!
# When the spin lock excludes

`pthread_spin_trylock` returns zero where it takes the lock, and `try_lock` returns that as a `bool`:
it says `false` where it has taken the lock and `true` where another thread has it.  `lock` and
`unlock` are right, so `exclusive_iff_not_tryLock`: the lock excludes exactly as long as nobody calls
`try_lock`.
-/

namespace Lizlib

namespace SpinLock

open Function (update)

variable {T : Type*}

/-- At most one thread is in its critical section, and one that was told `false` does not have the
lock. -/
structure Exclusive (s : SpinLock T) : Prop where
  one : ∀ t u, s.inside t = true → s.inside u = true → t = u
  refused : ∀ t, s.refused t = true → s.actual_ ≠ some t

/-- The threads in their critical sections are the one that has taken the lock. -/
def Held (s : SpinLock T) : Prop := HeldBy (fun t => s.inside t = true) s.actual_

/-- Nobody calls `try_lock`. -/
def NoTryLock (l : SpinLabel T) (_ : SpinLock T) : Prop := ∀ t, l ≠ .tryLock t

variable [DecidableEq T] {s u : SpinLock T} {t : T}

/-! ### One call -/

/-- One call from `s`, by its label. -/
inductive Moves (s : SpinLock T) : SpinLabel T → SpinLock T → Prop
  | lock {t : T} (ht : s.inside t = false) (hfree : s.actual_ = none) :
      Moves s (.lock t) (enter t { s with actual_ := some t })
  | tookLock {t : T} (ht : s.inside t = false) (hfree : s.actual_ = none) :
      Moves s (.tryLock t) (refuse t { s with actual_ := some t })
  | busy {t : T} (ht : s.inside t = false) (htaken : s.actual_ ≠ none) :
      Moves s (.tryLock t) (enter t s)
  | unlock {t : T} (ht : s.inside t = true) :
      Moves s (.unlock t) { s with actual_ := none, inside := update s.inside t false }

/-- **Inversion of a call**. -/
theorem moves_of_step {l : SpinLabel T} (h : step l s = some u) : Moves s l u := by
  unfold step at h
  cases l with
  | lock t =>
    dsimp only at h
    split_ifs at h with ht
    obtain ⟨v, hv, rfl⟩ := Option.map_eq_some_iff.mp h
    unfold pthread_spin_lock at hv
    split_ifs at hv with hfree
    obtain rfl := Option.some.inj hv
    exact .lock (by simpa using ht) hfree
  | tryLock t =>
    dsimp only at h
    split_ifs at h with ht
    unfold try_lock pthread_spin_trylock at h
    by_cases hfree : s.actual_ = none
    · rw [if_pos hfree] at h
      obtain rfl := Option.some.inj h
      exact .tookLock (by simpa using ht) hfree
    · rw [if_neg hfree] at h
      obtain rfl := Option.some.inj h
      exact .busy (by simpa using ht) hfree
  | unlock t =>
    dsimp only at h
    split_ifs at h with ht
    obtain rfl := Option.some.inj h
    exact .unlock ht

theorem Held.lock (hs : s.Held) (hfree : s.actual_ = none) :
    (enter t { s with actual_ := some t }).Held := by
  have hnone : HeldBy (fun u => s.inside u = true) none := by rwa [Held, hfree] at hs
  exact hnone.acquire (by simp [enter]) fun u hu => by simp [enter, hu]

theorem Held.unlock (hs : s.Held) (ht : s.inside t = true) :
    Held { s with actual_ := none, inside := update s.inside t false } :=
  HeldBy.release hs ht (by simp) fun u hu => by simp [hu]

theorem Exclusive.lock (hs : s.Held) (hfree : s.actual_ = none) :
    (enter t { s with actual_ := some t }).Exclusive := by
  refine ⟨fun v w => (hs.lock hfree).unique, fun u hu => ?_⟩
  show some t ≠ some u
  rintro heq
  obtain rfl := Option.some.inj heq
  simp [enter] at hu

theorem Exclusive.unlock (hs : s.Held) (ht : s.inside t = true) :
    Exclusive { s with actual_ := none, inside := update s.inside t false } :=
  ⟨fun _ _ => (hs.unlock ht).unique, fun _ _ => by simp⟩

/-- The lock is taken, and `try_lock` has returned `false`. -/
theorem not_exclusive_tookLock : ¬ (refuse t { s with actual_ := some t }).Exclusive := by
  intro h
  exact h.refused t (by simp [refuse]) rfl

/-- The lock is taken by another thread, and `try_lock` has returned `true`. -/
theorem not_exclusive_busy (hs : s.Held) (ht : s.inside t = false) (htaken : s.actual_ ≠ none) :
    ¬ (s.enter t).Exclusive := by
  obtain ⟨u, hu⟩ := Option.ne_none_iff_exists'.mp htaken
  have huin : s.inside u = true := (hs u).mpr hu
  have hut : u ≠ t := by
    rintro rfl
    simp [ht] at huin
  intro h
  exact hut (h.one u t (by simp [enter, hut, huin]) (by simp [enter]))

/-! ### All runs -/

/-- **The exact condition**: at most one thread is in its critical section and nobody who was told
`false` has the lock, in all states of a run, if and only if nobody calls `try_lock` in it. -/
theorem exclusive_iff_not_tryLock (ls : List (SpinLabel T)) :
    (spinLock T).AllStates Exclusive ls start ↔ (spinLock T).AllSteps NoTryLock ls start := by
  have hheld : Held (start : SpinLock T) := by simp [Held, HeldBy, start]
  have hexclusive : Exclusive (start : SpinLock T) := by
    constructor <;> simp [start]
  refine System.allStates_iff_allSteps (I := Held) (fun l s u hs _ h hu => ?_)
    (fun l s u hs hex h => ?_) ls hheld hexclusive
  · cases moves_of_step h with
    | lock ht hfree => exact hs.lock hfree
    | tookLock => exact absurd hu not_exclusive_tookLock
    | busy ht htaken => exact absurd hu (not_exclusive_busy hs ht htaken)
    | unlock ht => exact hs.unlock ht
  · cases moves_of_step h with
    | lock ht hfree => exact iff_of_true (.lock hs hfree) (by simp [NoTryLock])
    | @tookLock t => exact iff_of_false not_exclusive_tookLock fun hno => hno t rfl
    | @busy t ht htaken => exact iff_of_false (not_exclusive_busy hs ht htaken) fun hno => hno t rfl
    | unlock ht => exact iff_of_true (.unlock hs ht) (by simp [NoTryLock])

/-- A thread that takes the lock with `try_lock` is told `false`, and one that calls it while another
thread is in its critical section is told `true`. -/
theorem tryLock_not_exclusive :
    ¬ (spinLock Bool).AllStates Exclusive [.tryLock true] start ∧
      ¬ (spinLock Bool).AllStates Exclusive [.lock true, .tryLock false] start := by
  constructor
  · intro h
    exact (h.last (t := refuse true { start with actual_ := some true }) rfl).refused true rfl rfl
  · intro h
    have htwo := (h.last (t := enter false (enter true { start with actual_ := some true })) rfl).one
      true false rfl rfl
    cases htwo

end SpinLock

end Lizlib
