import Mathlib.Algebra.BigOperators.Ring.Finset
import Mathlib.Data.ZMod.Basic
import Lizlib.Data.Accumulator
import Lizlib.Common.ConcurrentTimestamp

/-!
# The concurrent timestamp accumulates

A compare-and-swap that stores has read the value it stores over, so it adds the call's duration to
whatever the timestamp holds then, also where that value had been there before and other calls have
changed it in between.  `simulation` maps it to one step of an accumulator modulo `2 ^ 64` and all
other steps to none; `usecs_of_returned` reads off what the timestamp holds when all calls have
returned.
-/

namespace Lizlib

namespace TimestampOp

/-- What the call adds. -/
def change : TimestampOp → Int
  | .incr usec_ => usec_.toInt
  | .decr usec_ => -usec_.toInt

theorem cast_bmod (x : Int) : ((x.bmod (2 ^ 64) : Int) : ZMod (2 ^ 64)) = x := by
  rw [eq_comm, ← sub_eq_zero, ← Int.cast_sub, ZMod.intCast_zmod_eq_zero_iff_dvd]
  exact_mod_cast Int.dvd_self_sub_bmod

/-- The arithmetic on `uint64_t` adds the duration modulo `2 ^ 64`. -/
theorem cast_modified (op : TimestampOp) (prev : UInt64) :
    ((op.modified prev).toInt64.toInt : ZMod (2 ^ 64)) = prev.toInt64.toInt + op.change := by
  cases op with
  | incr usec_ =>
    rw [modified, UInt64.toInt64_add, Int64.toInt64_toUInt64 usec_, Int64.toInt_add, cast_bmod,
      change, Int.cast_add]
  | decr usec_ =>
    rw [modified, UInt64.toInt64_sub, Int64.toInt64_toUInt64 usec_, Int64.toInt_sub, cast_bmod,
      change, Int.cast_sub, Int.cast_neg, sub_eq_add_neg]

end TimestampOp

namespace ConcurrentTimestamp

open Function (update)

variable {C : Type*} [DecidableEq C] {op : C → TimestampOp} {usecs : Int64}
  {s u : ConcurrentTimestamp C} {c : C}

/-! ### One step -/

/-- One step of the call `c` from `s`. -/
inductive Moves (op : C → TimestampOp) (s : ConcurrentTimestamp C) (c : C) :
    ConcurrentTimestamp C → Prop
  | load (hc : s.pc c = .load) :
      Moves op s c { s with
        pc := update s.pc c (.cas s.usecs_.toUInt64 ((op c).modified s.usecs_.toUInt64)) }
  | retry {prev modified : UInt64} (hc : s.pc c = .cas prev modified)
      (hne : s.usecs_ ≠ prev.toInt64) :
      Moves op s c { s with
        pc := update s.pc c (.cas s.usecs_.toUInt64 ((op c).modified s.usecs_.toUInt64)) }
  | swap {prev modified : UInt64} (hc : s.pc c = .cas prev modified)
      (heq : s.usecs_ = prev.toInt64) :
      Moves op s c ⟨modified.toInt64, update s.pc c .returned, update s.swaps c (s.swaps c + 1)⟩

/-- **Inversion of a step**: the loop ends exactly when the compare-and-swap has stored. -/
theorem moves_of_step (h : step op c s = some u) : Moves op s c u := by
  unfold step at h
  split at h
  · next hc =>
    obtain rfl := Option.some.inj h
    exact .load hc
  · next prev modified hc =>
    dsimp only [sync_val_compare_and_swap] at h
    by_cases heq : s.usecs_ = prev.toInt64
    · have hrst : s.usecs_.toUInt64 = prev := by rw [heq, UInt64.toUInt64_toInt64]
      rw [if_pos heq, if_pos heq, if_neg (not_not.mpr hrst)] at h
      obtain rfl := Option.some.inj h
      exact .swap hc heq
    · have hrst : s.usecs_.toUInt64 ≠ prev := by
        rintro rfl
        exact heq (Int64.toInt64_toUInt64 _).symm
      rw [if_neg heq, if_neg heq, if_pos hrst] at h
      obtain rfl := Option.some.inj h
      exact .retry hc heq
  · exact absurd h (by simp)

/-! ### What holds in all states -/

/-- What a call tries to store is computed from what it expects, and a call has stored once if it has
returned and never before. -/
structure Fresh (op : C → TimestampOp) (s : ConcurrentTimestamp C) : Prop where
  modified : ∀ c prev modified, s.pc c = .cas prev modified → modified = (op c).modified prev
  swaps : ∀ c, s.swaps c = if s.pc c = .returned then 1 else 0

omit [DecidableEq C] in
theorem fresh_start : Fresh op (start usecs) := by
  constructor <;> simp [start]

/-- A read of the timestamp, by the first load or by a compare-and-swap that fails. -/
theorem Fresh.read (hs : s.Fresh op) (hc : s.pc c ≠ .returned) (prev : UInt64) :
    Fresh op { s with pc := update s.pc c (.cas prev ((op c).modified prev)) } := by
  constructor
  · intro d p m hd
    by_cases hdc : d = c
    · subst hdc
      simp only [Function.update_self, TimestampPc.cas.injEq] at hd
      obtain ⟨rfl, rfl⟩ := hd
      rfl
    · exact hs.modified d p m (by simpa [hdc] using hd)
  · intro d
    have hd := hs.swaps d
    by_cases hdc : d = c
    · subst hdc
      simpa [hc] using hd
    · simpa [hdc] using hd

theorem Fresh.swap (hs : s.Fresh op) (hc : s.pc c ≠ .returned) (usecs : Int64) :
    Fresh op ⟨usecs, update s.pc c .returned, update s.swaps c (s.swaps c + 1)⟩ := by
  constructor
  · intro d p m hd
    by_cases hdc : d = c
    · subst hdc
      simp at hd
    · exact hs.modified d p m (by simpa [hdc] using hd)
  · intro d
    have hd := hs.swaps d
    by_cases hdc : d = c
    · subst hdc
      simp [hd, hc]
    · simpa [hdc] using hd

theorem Fresh.step (hs : s.Fresh op) (h : step op c s = some u) : u.Fresh op := by
  cases moves_of_step h with
  | load hc => exact hs.read (by simp [hc]) _
  | retry hc => exact hs.read (by simp [hc]) _
  | swap hc => exact hs.swap (by simp [hc]) _

/-! ### The accumulator -/

variable [Fintype C]

/-- The calls that have returned. -/
def returned (s : ConcurrentTimestamp C) : Finset C := {c | s.pc c = .returned}

omit [DecidableEq C] in
@[simp] theorem mem_returned : c ∈ s.returned ↔ s.pc c = .returned := by simp [returned]

/-- A call that is not about to return leaves the calls that have returned as they are. -/
theorem returned_update {pc : TimestampPc} (hc : s.pc c ≠ .returned) (hpc : pc ≠ .returned) :
    returned { s with pc := update s.pc c pc } = s.returned := by
  ext d
  by_cases hdc : d = c
  · subst hdc
    simp [hc, hpc]
  · simp [hdc]

theorem returned_swap (usecs : Int64) (swaps : C → Nat) :
    returned ⟨usecs, update s.pc c .returned, swaps⟩ = insert c s.returned := by
  ext d
  by_cases hdc : d = c
  · subst hdc
    simp
  · simp [hdc]

/-- What the timestamp holds modulo `2 ^ 64`, and the calls that have returned. -/
def sum (s : ConcurrentTimestamp C) : Accumulator C (ZMod (2 ^ 64)) := ⟨s.usecs_.toInt, s.returned⟩

/-- The call whose compare-and-swap stores. -/
def stores (c : C) (s : ConcurrentTimestamp C) : Option C :=
  match s.pc c with
  | .cas prev _ => if s.usecs_ = prev.toInt64 then some c else none
  | _ => none

/-- **Refinement**: a compare-and-swap that stores adds the call's duration, and every other step
changes nothing. -/
def simulation (op : C → TimestampOp) (usecs : Int64) :
    Simulation (concurrentTimestamp op usecs)
      (Accumulator.accumulator (fun c => ((op c).change : ZMod (2 ^ 64))) usecs.toInt) where
  inv := Fresh op
  abs := sum
  obs := stores
  inv_init := by
    rintro s rfl
    exact fresh_start
  inv_step _ _ _ hs h := hs.step h
  abs_init := by
    rintro s rfl
    simp [Accumulator.accumulator, sum, start, returned]
  abs_step := by
    intro c s u hs h
    cases moves_of_step h with
    | load hc =>
      simp only [stores, hc, sum]
      rw [returned_update (by simp [hc]) (by simp)]
    | retry hc hne =>
      simp only [stores, hc, if_neg hne, sum]
      rw [returned_update (by simp [hc]) (by simp)]
    | @swap prev modified hc heq =>
      simp only [stores, hc, if_pos heq]
      have hnew : c ∉ s.sum.done := by simp [sum, hc]
      obtain rfl := hs.modified c prev modified hc
      refine (Accumulator.step_of_notMem hnew).trans (congrArg some ?_)
      simp only [sum]
      rw [returned_swap, TimestampOp.cast_modified, ← heq]

/-! ### When all calls have returned -/

/-- **No update is lost**: when all calls have returned the timestamp holds what it held at first, the
increments and less the decrements, modulo `2 ^ 64`, and each call has stored exactly once. -/
theorem usecs_of_returned (op : C → TimestampOp) (usecs : Int64) {s : ConcurrentTimestamp C}
    (h : (concurrentTimestamp op usecs).Reachable s) (hall : ∀ c, s.pc c = .returned) :
    s.usecs_.toInt ≡ usecs.toInt + ∑ c, (op c).change [ZMOD 2 ^ 64] ∧ ∀ c, s.swaps c = 1 := by
  have hfresh : s.Fresh op := (simulation op usecs).inv_of_reachable h
  have hsum := Accumulator.total_eq_of_done ((simulation op usecs).reachable h)
    fun c => mem_returned.mpr (hall c)
  constructor
  · refine (ZMod.intCast_eq_intCast_iff _ _ (2 ^ 64)).mp ?_
    rw [Int.cast_add, Int.cast_sum]
    exact hsum
  · intro c
    rw [hfresh.swaps c, if_pos (hall c)]

/-- Two calls at the same time: the second one's compare-and-swap fails and it tries again. -/
theorem usecs_of_returned_two :
    ∃ s : ConcurrentTimestamp Bool,
      (concurrentTimestamp (fun c => bif c then .incr 5 else .decr 3) 10).run
        [true, false, true, false, false] (start 10) = some s ∧
      s.usecs_ = 12 ∧
      s.usecs_.toInt ≡ (10 : Int64).toInt +
        ∑ c, (bif c then TimestampOp.incr 5 else .decr 3).change [ZMOD 2 ^ 64] ∧
      ∀ c, s.swaps c = 1 := by
  have hrun : (concurrentTimestamp (fun c => bif c then .incr 5 else .decr 3) 10).run
      [true, false, true, false, false] (start 10) = some _ := rfl
  exact ⟨_, hrun, by decide, usecs_of_returned _ 10 (System.reachable_of_run rfl hrun) (by decide)⟩

end ConcurrentTimestamp

end Lizlib
