import Mathlib.Data.List.Infix
import Mathlib.Data.List.Nodup

/-!
# Adjacent elements of a list

`l.Adjacent a b` says that `b` comes right after `a` somewhere in `l`.  The two ends of a list are
where it changes: `adjacent_cons_iff` and `adjacent_concat_iff`.  Without repetitions an element
has at most one successor (`Adjacent.right_unique`) and the last one has none
(`Adjacent.ne_last`).
-/

namespace List

variable {α β : Type*} {l : List α} {a b c x : α}

/-- `b` comes right after `a` in `l`. -/
def Adjacent (l : List α) (a b : α) : Prop := [a, b] <:+: l

theorem Adjacent.left_mem (h : Adjacent l a b) : a ∈ l := h.subset (by simp)

@[simp] theorem not_adjacent_nil : ¬ Adjacent ([] : List α) a b := by simp [Adjacent]

@[simp] theorem not_adjacent_singleton : ¬ Adjacent [x] a b := by
  intro h
  simpa using List.IsInfix.length_le h

theorem adjacent_cons_iff : Adjacent (x :: l) a b ↔ (a = x ∧ l.head? = some b) ∨ Adjacent l a b := by
  unfold Adjacent
  rw [List.infix_cons_iff, List.cons_prefix_cons]
  refine or_congr_left (and_congr_right fun _ => ?_)
  cases l <;> simp [eq_comm]

theorem adjacent_concat_iff :
    Adjacent (l ++ [x]) a b ↔ (l.getLast? = some a ∧ b = x) ∨ Adjacent l a b := by
  induction l with
  | nil => simp
  | cons y l ih =>
    rw [List.cons_append, adjacent_cons_iff, ih, adjacent_cons_iff]
    cases l with
    | nil => simp; tauto
    | cons z l => simp; tauto

/-- In a list without repetitions only one element follows `a`. -/
theorem Adjacent.right_unique (h : l.Nodup) (hb : Adjacent l a b) (hc : Adjacent l a c) :
    b = c := by
  induction l with
  | nil => exact absurd hb not_adjacent_nil
  | cons y l ih =>
    rw [List.nodup_cons] at h
    rw [adjacent_cons_iff] at hb hc
    rcases hb with ⟨rfl, hb⟩ | hb <;> rcases hc with ⟨hac, hc⟩ | hc
    · exact Option.some.inj (hb.symm.trans hc)
    · exact absurd hc.left_mem h.1
    · exact absurd (hac ▸ hb.left_mem) h.1
    · exact ih h.2 hb hc

/-- In a list without repetitions nothing follows the last element. -/
theorem Adjacent.ne_last (h : l.Nodup) (hb : Adjacent l a b) : l.getLast? ≠ some a := by
  induction l with
  | nil => exact absurd hb not_adjacent_nil
  | cons y l ih =>
    rw [List.nodup_cons] at h
    rw [adjacent_cons_iff] at hb
    intro hlast
    rcases hb with ⟨rfl, hb⟩ | hb
    · cases l with
      | nil => simp at hb
      | cons z l =>
        rw [List.getLast?_cons_cons] at hlast
        exact h.1 (List.mem_of_getLast? hlast)
    · cases l with
      | nil => exact not_adjacent_nil hb
      | cons z l =>
        rw [List.getLast?_cons_cons] at hlast
        exact ih h.2 hb hlast

end List
