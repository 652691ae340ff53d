import Mathlib.Algebra.Order.BigOperators.Group.Finset
import Mathlib.Algebra.Ring.Nat

/-!
# One stack for each thread

A thread that executes small steps is the stack of what it has yet to do: a step takes the first
element off and puts what follows from it in its place.  `Stacks.All`, `Stacks.Any` and
`Stacks.weight` speak about the elements of all stacks; the lemmas say how they change when one
thread advances (`all_advance`, `any_advance`, `weight_advance`) or an idle one begins
(`all_begin`, `any_begin`, `weight_begin`).
-/

namespace Stacks

variable {W α : Type*} [DecidableEq W] {S : W → List α} {w : W} {a : α} {rest new : List α}

open Function

/-- Every element of every stack satisfies `p`. -/
def All (p : W → α → Prop) (S : W → List α) : Prop := ∀ w, ∀ a ∈ S w, p w a

/-- Some element of some stack satisfies `p`. -/
def Any (p : α → Prop) (S : W → List α) : Prop := ∃ w, ∃ a ∈ S w, p a

section All

variable {p : W → α → Prop}

theorem all_begin (h : All p S) (hnew : ∀ b ∈ new, p w b) : All p (update S w new) := by
  intro v b hb
  by_cases hv : v = w
  · subst hv
    exact hnew b (by simpa using hb)
  · exact h v b (by simpa [hv] using hb)

theorem all_advance (h : All p S) (hw : S w = a :: rest) (hnew : ∀ b ∈ new, p w b) :
    All p (update S w (new ++ rest)) := by
  apply all_begin h
  intro b hb
  rcases List.mem_append.mp hb with hb | hb
  · exact hnew b hb
  · exact h w b (by simp [hw, hb])

/-- One more element on one of the stacks. -/
theorem all_cons (h : All p (update S w rest)) (ha : p w a) : All p (update S w (a :: rest)) := by
  intro v b hb
  by_cases hv : v = w
  · subst hv
    rw [update_self, List.mem_cons] at hb
    rcases hb with rfl | hb
    · exact ha
    · exact h v b (by simpa using hb)
  · exact h v b (by simpa [hv] using hb)

omit [DecidableEq W] in
theorem All.head (h : All p S) (hw : S w = a :: rest) : p w a := h w a (by simp [hw])

end All

section Any

variable {p : α → Prop}

omit [DecidableEq W] in
theorem Any.head (hw : S w = a :: rest) (ha : p a) : Any p S := ⟨w, a, by simp [hw], ha⟩

/-- When a thread advances, what satisfied `p` is still there, or it was the first element. -/
theorem Any.advance (h : Any p S) (hw : S w = a :: rest) :
    p a ∨ Any p (update S w (new ++ rest)) := by
  obtain ⟨v, b, hb, hp⟩ := h
  by_cases hv : v = w
  · subst hv
    rw [hw, List.mem_cons] at hb
    rcases hb with rfl | hb
    · exact Or.inl hp
    · exact Or.inr ⟨v, b, by simp [hb], hp⟩
  · exact Or.inr ⟨v, b, by simpa [hv] using hb, hp⟩

theorem any_new {b : α} (hb : b ∈ new) (hp : p b) : Any p (update S w (new ++ rest)) :=
  ⟨w, b, by simp [hb], hp⟩

/-- What satisfies `p` after a thread has advanced is new or was there before. -/
theorem any_advance (hw : S w = a :: rest) (h : Any p (update S w (new ++ rest))) :
    (∃ b ∈ new, p b) ∨ Any p S := by
  obtain ⟨v, b, hb, hp⟩ := h
  by_cases hv : v = w
  · subst hv
    rw [update_self, List.mem_append] at hb
    rcases hb with hb | hb
    · exact Or.inl ⟨b, hb, hp⟩
    · exact Or.inr ⟨v, b, by simp [hw, hb], hp⟩
  · exact Or.inr ⟨v, b, by simpa [hv] using hb, hp⟩

/-- An idle thread begins. -/
theorem any_begin (hw : S w = []) : Any p (update S w new) ↔ (∃ b ∈ new, p b) ∨ Any p S := by
  constructor
  · rintro ⟨v, b, hb, hp⟩
    by_cases hv : v = w
    · subst hv
      exact Or.inl ⟨b, by simpa using hb, hp⟩
    · exact Or.inr ⟨v, b, by simpa [hv] using hb, hp⟩
  · rintro (⟨b, hb, hp⟩ | ⟨v, b, hb, hp⟩)
    · exact ⟨w, b, by simpa using hb, hp⟩
    · have hv : v ≠ w := by
        rintro rfl
        simp [hw] at hb
      exact ⟨v, b, by simpa [hv] using hb, hp⟩

end Any

section Weight

variable (F : Finset W) (f : α → Nat)

/-- The total weight of all elements of the stacks of some threads. -/
def weight (S : W → List α) : Nat := ∑ w ∈ F, ((S w).map f).sum

/-- The weight after one of the stacks has been replaced. -/
theorem weight_update (hF : w ∈ F) (l : List α) :
    weight F f (update S w l) + ((S w).map f).sum = weight F f S + (l.map f).sum := by
  unfold weight
  rw [← Finset.add_sum_erase _ _ hF, ← Finset.add_sum_erase _ _ hF, update_self]
  have hother : ∀ v ∈ F.erase w, ((update S w l v).map f).sum = ((S v).map f).sum := by
    intro v hv
    rw [update_of_ne (Finset.ne_of_mem_erase hv)]
  rw [Finset.sum_congr rfl hother]
  omega

theorem weight_le_insert (w : W) (S : W → List α) : weight F f S ≤ weight (insert w F) f S :=
  Finset.sum_le_sum_of_subset (Finset.subset_insert w F)

/-- When a thread advances, what follows from its first element replaces it. -/
theorem weight_advance (new : List α) (hw : S w = a :: rest) :
    weight F f (update S w (new ++ rest)) + f a ≤ weight (insert w F) f S + (new.map f).sum := by
  have hle := weight_le_insert F f w (update S w (new ++ rest))
  have h := weight_update (S := S) (insert w F) f (Finset.mem_insert_self w F) (new ++ rest)
  rw [hw] at h
  simp only [List.map_append, List.sum_append, List.map_cons, List.sum_cons] at h
  omega

/-- An idle thread begins. -/
theorem weight_begin (new : List α) (hw : S w = []) :
    weight F f (update S w new) ≤ weight (insert w F) f S + (new.map f).sum := by
  have hle := weight_le_insert F f w (update S w new)
  have h := weight_update (S := S) (insert w F) f (Finset.mem_insert_self w F) new
  simp only [hw, List.map_nil, List.sum_nil] at h
  omega

omit [DecidableEq W] in
theorem weight_mono {f g : α → Nat} (h : ∀ a, f a ≤ g a) (S : W → List α) :
    weight F f S ≤ weight F g S :=
  Finset.sum_le_sum fun _ _ => List.sum_le_sum fun a _ => h a

omit [DecidableEq W] in
/-- Nothing weighs anything. -/
theorem all_of_weight {f : α → Nat} (h : ∀ F : Finset W, weight F f S = 0) :
    All (fun _ a => f a = 0) S := by
  intro w a ha
  have hsum : ((S w).map f).sum = 0 := by
    have hw := h {w}
    unfold weight at hw
    rwa [Finset.sum_singleton] at hw
  exact List.sum_eq_zero_iff.mp hsum (f a) (List.mem_map_of_mem ha)

omit [DecidableEq W] in
theorem weight_eq_zero {f : α → Nat} (h : All (fun _ a => f a = 0) S) : weight F f S = 0 := by
  apply Finset.sum_eq_zero
  intro w _
  apply List.sum_eq_zero
  intro n hn
  obtain ⟨a, ha, rfl⟩ := List.mem_map.mp hn
  exact h w a ha

omit [DecidableEq W] in
/-- An element of one of the stacks weighs as part of it. -/
theorem le_weight (f : α → Nat) (hw : S w = a :: rest) : f a ≤ weight {w} f S := by
  unfold weight
  rw [Finset.sum_singleton, hw, List.map_cons, List.sum_cons]
  exact Nat.le_add_right _ _

omit [DecidableEq W] in
theorem weight_nil : weight F f (fun _ : W => ([] : List α)) = 0 := by
  simp [weight]

end Weight

end Stacks
