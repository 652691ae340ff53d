import Mathlib.Logic.Function.Basic
import Lizlib.Data.Adjacent

/-!
# Linked lists in a heap

`IsLinked link heap p l` says that following the links from `p` one meets the nodes `l`, in order, and
then a null link.
-/

namespace Lizlib

variable {A ν γ : Type*} (link : ν → Option A) (heap : A → Option ν)

/-- The nodes `l`, with their addresses, are what hangs at `p`. -/
def IsLinked : Option A → List (A × ν) → Prop
  | p, [] => p = none
  | p, (a, n) :: l => p = some a ∧ heap a = some n ∧ IsLinked (link n) l

variable {link heap}

/-- Writing elsewhere changes nothing. -/
theorem IsLinked.update [DecidableEq A] {p : Option A} {l : List (A × ν)}
    (h : IsLinked link heap p l) {a : A} (ha : a ∉ l.map Prod.fst) (n : Option ν) :
    IsLinked link (Function.update heap a n) p l := by
  induction l generalizing p with
  | nil => exact h
  | cons x l ih =>
    obtain ⟨hp, hx, hl⟩ := h
    rw [List.map_cons, List.mem_cons, not_or] at ha
    exact ⟨hp, (Function.update_of_ne (Ne.symm ha.1) ..).trans hx, ih hl ha.2⟩

/-- Nodes each of which is linked to the next one. -/
theorem isLinked_of_adjacent {addr : γ → A} {node : γ → ν} {l : List γ}
    (hheap : ∀ c ∈ l, heap (addr c) = some (node c))
    (hlink : ∀ c d, l.Adjacent c d → link (node c) = some (addr d))
    (hlast : ∀ c, l.getLast? = some c → link (node c) = none) :
    IsLinked link heap (l.head?.map addr) (l.map fun c => (addr c, node c)) := by
  induction l with
  | nil => rfl
  | cons c l ih =>
    refine ⟨rfl, hheap c List.mem_cons_self, ?_⟩
    have hrest := ih (fun d hd => hheap d (List.mem_cons_of_mem c hd))
      (fun d e hde => hlink d e (List.adjacent_cons_iff.mpr (.inr hde))) fun d hd => hlast d ?_
    · have hnext : link (node c) = l.head?.map addr := by
        cases l with
        | nil => exact hlast c rfl
        | cons d l => exact hlink c d (List.adjacent_cons_iff.mpr (.inl ⟨rfl, rfl⟩))
      rw [hnext]
      exact hrest
    · cases l with
      | nil => cases hd
      | cons e l => rwa [List.getLast?_cons_cons]

end Lizlib
