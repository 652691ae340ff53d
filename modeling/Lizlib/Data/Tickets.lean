import Mathlib.Data.Finset.Card
import Mathlib.Logic.Function.Basic

/-!
# Tickets and tokens

`Tickets held ticket drawn returned`: of the numbers `0, …, drawn - 1` some are held, each by one
holder, and some have been returned; no number is both.  Numbers are drawn in order and returned in
any order.

`HeldBy holds owner`: there is one token, and `owner` is who holds it.
-/

open Function (update)

variable {T : Type*}

/-- Every holder holds a number below `drawn` of its own, which has not been returned. -/
structure Tickets (held : T → Prop) (ticket : T → ℕ) (drawn : ℕ) (returned : List ℕ) : Prop where
  lt : ∀ t, held t → ticket t < drawn
  inj : ∀ t u, held t → held u → ticket t = ticket u → t = u
  fresh : ∀ t, held t → ticket t ∉ returned
  nodup : returned.Nodup
  returned_lt : ∀ k ∈ returned, k < drawn

namespace Tickets

variable {held held' : T → Prop} {ticket : T → ℕ} {drawn N : ℕ} {returned : List ℕ} {t : T}

theorem mono (h : Tickets held ticket drawn returned) (hsub : ∀ u, held' u → held u) :
    Tickets held' ticket drawn returned :=
  ⟨fun u hu => h.lt u (hsub u hu), fun u v hu hv => h.inj u v (hsub u hu) (hsub v hv),
    fun u hu => h.fresh u (hsub u hu), h.nodup, h.returned_lt⟩

/-- A new holder draws the next number. -/
theorem draw [DecidableEq T] (h : Tickets held ticket drawn returned)
    (hsub : ∀ u, held' u → u ≠ t → held u) :
    Tickets held' (update ticket t drawn) (drawn + 1) returned := by
  -- the new number is above all others
  have hnew : ∀ u, held' u → u ≠ t → ticket u < drawn := fun u hu hut => h.lt u (hsub u hu hut)
  have hself : ∀ k ∈ returned, k ≠ drawn := fun k hk => (h.returned_lt k hk).ne
  constructor
  · intro u hu
    by_cases hut : u = t
    · simp [hut]
    · have hlt := hnew u hu hut
      rw [Function.update_of_ne hut]
      omega
  · intro u v hu hv heq
    by_cases hut : u = t <;> by_cases hvt : v = t
    · rw [hut, hvt]
    · subst hut
      have hlt := hnew v hv hvt
      rw [Function.update_self, Function.update_of_ne hvt] at heq
      omega
    · subst hvt
      have hlt := hnew u hu hut
      rw [Function.update_self, Function.update_of_ne hut] at heq
      omega
    · rw [Function.update_of_ne hut, Function.update_of_ne hvt] at heq
      exact h.inj u v (hsub u hu hut) (hsub v hv hvt) heq
  · intro u hu hmem
    by_cases hut : u = t
    · subst hut
      rw [Function.update_self] at hmem
      exact hself _ hmem rfl
    · rw [Function.update_of_ne hut] at hmem
      exact h.fresh u (hsub u hu hut) hmem
  · exact h.nodup
  · exact fun k hk => (h.returned_lt k hk).trans_le (Nat.le_succ drawn)

/-- A holder returns its number. -/
theorem giveBack (h : Tickets held ticket drawn returned) (ht : held t)
    (hsub : ∀ u, held' u → u ≠ t ∧ held u) :
    Tickets held' ticket drawn (ticket t :: returned) := by
  constructor
  · exact fun u hu => h.lt u (hsub u hu).2
  · exact fun u v hu hv => h.inj u v (hsub u hu).2 (hsub v hv).2
  · intro u hu
    obtain ⟨hut, hheld⟩ := hsub u hu
    rw [List.mem_cons, not_or]
    exact ⟨fun heq => hut (h.inj u t hheld ht heq), h.fresh u hheld⟩
  · exact List.nodup_cons.mpr ⟨h.fresh t ht, h.nodup⟩
  · rintro k (_ | ⟨_, hk⟩)
    · exact h.lt t ht
    · exact h.returned_lt k hk

/-- If all returned numbers are below `N` there are at most `N` of them. -/
theorem length_le (h : Tickets held ticket drawn returned) (hN : ∀ k ∈ returned, k < N) :
    returned.length ≤ N := by
  have hsub : returned.toFinset ⊆ Finset.range N := by
    intro k hk
    exact Finset.mem_range.mpr (hN k (List.mem_toFinset.mp hk))
  calc returned.length = returned.toFinset.card := (List.toFinset_card_of_nodup h.nodup).symm
    _ ≤ (Finset.range N).card := Finset.card_le_card hsub
    _ = N := Finset.card_range N

end Tickets

/-- The one token is held by `owner`, and by nobody else. -/
def HeldBy (holds : T → Prop) (owner : Option T) : Prop := ∀ t, holds t ↔ owner = some t

namespace HeldBy

variable {holds holds' : T → Prop} {owner : Option T} {t u : T}

theorem unique (h : HeldBy holds owner) (ht : holds t) (hu : holds u) : t = u := by
  have howner := (h t).mp ht
  rw [(h u).mp hu] at howner
  exact (Option.some.inj howner).symm

theorem not_of_none (h : HeldBy holds none) (t : T) : ¬ holds t := by
  rw [h t]
  simp

/-- Nothing changes hands. -/
theorem congr (h : HeldBy holds owner) (hsame : ∀ u, holds' u ↔ holds u) : HeldBy holds' owner :=
  fun u => (hsame u).trans (h u)

/-- The token is taken by `t`. -/
theorem acquire (h : HeldBy holds none) (ht : holds' t) (hother : ∀ u, u ≠ t → (holds' u ↔ holds u)) :
    HeldBy holds' (some t) := by
  intro u
  by_cases hut : u = t
  · subst hut
    exact iff_of_true ht rfl
  · rw [hother u hut]
    exact iff_of_false (h.not_of_none u) fun heq => hut (Option.some.inj heq).symm

/-- The holder `t` gives the token back. -/
theorem release (h : HeldBy holds owner) (ht : holds t) (hgone : ¬ holds' t)
    (hother : ∀ u, u ≠ t → (holds' u ↔ holds u)) : HeldBy holds' none := by
  intro u
  refine iff_of_false (fun hu => ?_) (by simp)
  by_cases hut : u = t
  · subst hut
    exact hgone hu
  · exact hut (h.unique ((hother u hut).mp hu) ht)

end HeldBy
