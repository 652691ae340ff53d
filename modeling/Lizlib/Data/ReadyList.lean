import Mathlib.Data.List.Nodup

/-!
# Ready lists

A list of items that have been marked ready, in the order of the marks, and its delivery: `harvest p n`
takes the first `n` items that are still ready (`p`), drops the stale ones before them and leaves the
rest for the next delivery.
-/

namespace Lizlib

namespace ReadyList

variable {α : Type*}

/-- At most `n` items satisfying `p`, and what is left of the list. -/
def harvest (p : α → Bool) : Nat → List α → List α × List α
  | _, [] => ([], [])
  | 0, a :: l => ([], a :: l)
  | n + 1, a :: l =>
    if p a then (a :: (harvest p n l).1, (harvest p n l).2) else harvest p (n + 1) l

variable (p : α → Bool) (n : Nat)

@[simp] theorem harvest_nil : harvest p n [] = ([], []) := by
  cases n <;> rfl

@[simp] theorem harvest_zero (l : List α) : harvest p 0 l = ([], l) := by
  cases l <;> rfl

theorem harvest_of_pos {a : α} (ha : p a = true) (l : List α) :
    harvest p (n + 1) (a :: l) = (a :: (harvest p n l).1, (harvest p n l).2) := by
  show (if p a then _ else _) = _
  rw [if_pos ha]

theorem harvest_of_neg {a : α} (ha : ¬ p a = true) (l : List α) :
    harvest p (n + 1) (a :: l) = harvest p (n + 1) l := by
  show (if p a then _ else _) = _
  rw [if_neg ha]

/-- Nothing is delivered twice, and the order is kept. -/
theorem harvest_sublist (l : List α) : ((harvest p n l).1 ++ (harvest p n l).2).Sublist l := by
  induction l generalizing n with
  | nil => simp
  | cons a l ih =>
    match n with
    | 0 => simp
    | n + 1 =>
      by_cases ha : p a = true
      · rw [harvest_of_pos p n ha]
        exact (ih n).cons_cons a
      · rw [harvest_of_neg p n ha]
        exact (ih (n + 1)).cons a

theorem pos_of_mem_harvest {l : List α} {a : α} (ha : a ∈ (harvest p n l).1) : p a = true := by
  induction l generalizing n with
  | nil => simp at ha
  | cons b l ih =>
    match n with
    | 0 => simp at ha
    | n + 1 =>
      by_cases hb : p b = true
      · rw [harvest_of_pos p n hb] at ha
        rcases List.mem_cons.mp ha with rfl | ha
        · exact hb
        · exact ih n ha
      · rw [harvest_of_neg p n hb] at ha
        exact ih (n + 1) ha

/-- What is ready is delivered or left. -/
theorem mem_harvest {l : List α} {a : α} (ha : a ∈ l) (hp : p a = true) :
    a ∈ (harvest p n l).1 ∨ a ∈ (harvest p n l).2 := by
  induction l generalizing n with
  | nil => simp at ha
  | cons b l ih =>
    match n with
    | 0 => simpa using ha
    | n + 1 =>
      by_cases hb : p b = true
      · rw [harvest_of_pos p n hb]
        rcases List.mem_cons.mp ha with rfl | ha
        · exact .inl List.mem_cons_self
        · exact (ih n ha).imp_left (List.mem_cons_of_mem b)
      · rw [harvest_of_neg p n hb]
        rcases List.mem_cons.mp ha with rfl | ha
        · exact absurd hp hb
        · exact ih (n + 1) ha

/-- If something is ready, something is delivered. -/
theorem harvest_ne_nil {l : List α} {a : α} (ha : a ∈ l) (hp : p a = true) :
    (harvest p (n + 1) l).1 ≠ [] := by
  induction l with
  | nil => simp at ha
  | cons b l ih =>
    by_cases hb : p b = true
    · rw [harvest_of_pos p n hb]
      exact List.cons_ne_nil _ _
    · rw [harvest_of_neg p n hb]
      rcases List.mem_cons.mp ha with rfl | ha
      · exact absurd hp hb
      · exact ih ha

end ReadyList

end Lizlib
