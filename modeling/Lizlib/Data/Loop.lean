import Mathlib.Tactic.Common

/-!
# Loops that are left from inside

The body of a loop either goes on with a new state or leaves with a result.  `loop` runs it for a
bounded number of rounds, and `Returns` says that some bound is enough.

* `returns_of_next`, `returns_of_leave`: one round.
* `Returns.unique`: the result does not depend on the bound.
* `not_returns`: what every round goes on with, keeping an invariant, is never left.
-/

namespace Lizlib

variable {σ ρ : Type*} (body : σ → σ ⊕ ρ)

/-- At most `fuel` rounds of the loop; `none` if it has not been left by then. -/
def loop : Nat → σ → Option ρ
  | 0, _ => none
  | fuel + 1, s =>
    match body s with
    | .inl t => loop fuel t
    | .inr r => some r

/-- The loop is left after finitely many rounds, with this result. -/
def Returns (s : σ) (r : ρ) : Prop := ∃ fuel, loop body fuel s = some r

variable {body} {s t : σ} {r : ρ}

theorem loop_next (h : body s = .inl t) (fuel : Nat) :
    loop body (fuel + 1) s = loop body fuel t := by
  rw [loop, h]

theorem returns_of_leave (h : body s = .inr r) : Returns body s r := by
  refine ⟨1, ?_⟩
  rw [loop, h]

theorem returns_of_next (h : body s = .inl t) (ht : Returns body t r) : Returns body s r := by
  obtain ⟨fuel, hfuel⟩ := ht
  exact ⟨fuel + 1, (loop_next h fuel).trans hfuel⟩

theorem loop_add {fuel : Nat} (h : loop body fuel s = some r) (more : Nat) :
    loop body (fuel + more) s = some r := by
  induction fuel generalizing s with
  | zero => cases h
  | succ fuel ih =>
    rw [Nat.add_right_comm]
    rw [loop] at h ⊢
    cases hbody : body s with
    | inl t =>
      rw [hbody] at h
      exact ih h
    | inr r' =>
      rw [hbody] at h
      exact h

/-- A loop is left with one result. -/
theorem Returns.unique {r' : ρ} (h : Returns body s r) (h' : Returns body s r') : r = r' := by
  obtain ⟨fuel, hfuel⟩ := h
  obtain ⟨fuel', hfuel'⟩ := h'
  have hmore := loop_add hfuel fuel'
  rw [Nat.add_comm, loop_add hfuel' fuel] at hmore
  exact (Option.some.inj hmore).symm

/-- **A loop that always goes on** is never left. -/
theorem not_returns {I : σ → Prop} (hI : ∀ s, I s → ∃ t, body s = .inl t ∧ I t) (hs : I s) (r : ρ) :
    ¬ Returns body s r := by
  rintro ⟨fuel, hfuel⟩
  induction fuel generalizing s with
  | zero => cases hfuel
  | succ fuel ih =>
    obtain ⟨t, ht, hIt⟩ := hI s hs
    rw [loop_next ht] at hfuel
    exact ih hIt hfuel

end Lizlib
