import Mathlib.Algebra.BigOperators.Group.Finset.Basic
import Lizlib.Transition

/-!
# Accumulators

An accumulator over a commutative monoid receives one amount from each of any number of calls, in one
step each and in any order: `accumulator amount start`.  In every reachable state it holds what it
started with and the amounts of the calls that have been made (`Accumulator.total_eq`), whatever the
order was.
-/

open Finset

/-- A total and the calls that have contributed to it. -/
structure Accumulator (C M : Type*) where
  total : M
  done : Finset C

namespace Accumulator

variable {C M : Type*} [DecidableEq C] [AddCommMonoid M] {amount : C → M} {start : M}
  {s : Accumulator C M}

/-- A call adds its amount, once. -/
def add (amount : C → M) (c : C) (s : Accumulator C M) : Option (Accumulator C M) :=
  if c ∈ s.done then none else some ⟨s.total + amount c, insert c s.done⟩

/-- The calls of `amount` on an accumulator that holds `start`. -/
def accumulator (amount : C → M) (start : M) : System (Accumulator C M) C where
  init s := s = ⟨start, ∅⟩
  step := add amount

theorem step_of_notMem {c : C} (hc : c ∉ s.done) :
    (accumulator amount start).step c s = some ⟨s.total + amount c, insert c s.done⟩ := if_neg hc

/-- The total is what the accumulator started with and what the calls have added. -/
theorem total_eq (h : (accumulator amount start).Reachable s) :
    s.total = start + ∑ c ∈ s.done, amount c := by
  refine h.invariant (I := fun s => s.total = start + ∑ c ∈ s.done, amount c) ?_ ?_
  · rintro s rfl
    simp
  · rintro c s t hs - ht
    show t.total = start + ∑ c ∈ t.done, amount c
    by_cases hc : c ∈ s.done
    · simp [accumulator, add, hc] at ht
    · obtain rfl := Option.some.inj ((step_of_notMem hc).symm.trans ht)
      show s.total + amount c = start + ∑ d ∈ insert c s.done, amount d
      rw [sum_insert hc, hs, add_assoc, add_comm (amount c)]

/-- Once all calls are made the total is what the accumulator started with and all amounts. -/
theorem total_eq_of_done [Fintype C] (h : (accumulator amount start).Reachable s)
    (hdone : ∀ c, c ∈ s.done) : s.total = start + ∑ c, amount c := by
  rw [total_eq h, eq_univ_iff_forall.mpr hdone]

end Accumulator
