import Mathlib.Data.List.Range

/-!
# Allocated blocks

A `Block` is a contiguous piece of memory: an address, a size and its cells.  `load` and `store`
check that every cell they touch lies inside and fail otherwise.

* `load_eq_some`, `store_eq_some`: when the accesses succeed.
* `slice_write_self`, `slice_write_before`: what a store leaves in a range.
-/

/-- An allocated block of cells. -/
structure Block (α : Type*) where
  addr : Nat
  size : Nat
  cells : Nat → α

namespace Block

variable {α : Type*}

/-- The `n` cells from offset `off` on. -/
def slice (b : Block α) (off n : Nat) : List α := (List.range n).map fun i => b.cells (off + i)

/-- The block with `l` written from offset `off` on. -/
def write (b : Block α) (off : Nat) (l : List α) : Block α where
  addr := b.addr
  size := b.size
  cells i := if off ≤ i then (l[i - off]?).getD (b.cells i) else b.cells i

/-- Reads `n` cells at offset `off`; fails unless they all lie inside the block. -/
def load (b : Block α) (off n : Nat) : Option (List α) :=
  if off + n ≤ b.size then some (b.slice off n) else none

/-- Writes `l` at offset `off`; fails unless every cell lies inside the block. -/
def store (b : Block α) (off : Nat) (l : List α) : Option (Block α) :=
  if off + l.length ≤ b.size then some (b.write off l) else none

variable (b : Block α) {l : List α} {off n m k : Nat}

@[simp] theorem length_slice : (b.slice off n).length = n := by simp [slice]

@[simp] theorem slice_zero : b.slice off 0 = [] := rfl

@[simp] theorem addr_write : (b.write off l).addr = b.addr := rfl

@[simp] theorem size_write : (b.write off l).size = b.size := rfl

@[simp] theorem getElem_slice {i : Nat} (h : i < (b.slice off n).length) :
    (b.slice off n)[i] = b.cells (off + i) := by
  simp [slice]

theorem getElem?_slice {i : Nat} (h : i < n) : (b.slice off n)[i]? = some (b.cells (off + i)) := by
  simp [slice, h]

theorem slice_add : b.slice off (n + m) = b.slice off n ++ b.slice (off + n) m := by
  simp [slice, List.range_add, Nat.add_assoc]

theorem slice_congr {c : Block α} {off' : Nat}
    (h : ∀ i, i < n → b.cells (off + i) = c.cells (off' + i)) : b.slice off n = c.slice off' n := by
  unfold slice
  apply List.map_congr_left
  intro i hi
  exact h i (List.mem_range.mp hi)

theorem take_slice (h : k ≤ n) : (b.slice off n).take k = b.slice off k := by
  obtain ⟨m, rfl⟩ := Nat.exists_eq_add_of_le h
  rw [slice_add, List.take_left' (by simp)]

theorem drop_slice (h : k ≤ n) : (b.slice off n).drop k = b.slice (off + k) (n - k) := by
  obtain ⟨m, rfl⟩ := Nat.exists_eq_add_of_le h
  rw [slice_add, List.drop_left' (by simp), Nat.add_sub_cancel_left]

/-- What was written can be read back. -/
theorem slice_write_self (off : Nat) (l : List α) : (b.write off l).slice off l.length = l := by
  apply List.ext_getElem?
  intro i
  by_cases hi : i < l.length
  · rw [getElem?_slice _ hi]
    simp [write, hi]
  · rw [List.getElem?_eq_none (by simp; omega), List.getElem?_eq_none (by omega)]

theorem slice_write_before (h : k + n ≤ off) : (b.write off l).slice k n = b.slice k n := by
  apply slice_congr
  intro i hi
  have : ¬ off ≤ k + i := by omega
  simp [write, this]

theorem slice_write_after (h : off + l.length ≤ k) : (b.write off l).slice k n = b.slice k n := by
  apply slice_congr
  intro i hi
  have hout : l[k + i - off]? = none := List.getElem?_eq_none (by omega)
  simp [write, hout]

/-- Part of what was written. -/
theorem slice_write_within (h : k + n ≤ l.length) :
    (b.write off l).slice (off + k) n = (l.drop k).take n := by
  have hself := b.slice_write_self off l
  rw [show l.length = k + (l.length - k) by omega, slice_add] at hself
  have hdrop : l.drop k = (b.write off l).slice (off + k) (l.length - k) := by
    conv_lhs => rw [← hself]
    exact List.drop_left' (length_slice _)
  rw [hdrop, take_slice _ (by omega)]

@[simp] theorem write_nil : b.write off [] = b := by simp [write]

/-- Two stores one behind the other are one. -/
theorem write_append (off : Nat) (l l' : List α) :
    (b.write off l).write (off + l.length) l' = b.write off (l ++ l') := by
  unfold write
  congr 1
  funext i
  dsimp only
  by_cases hi : off ≤ i
  · rw [if_pos hi]
    by_cases hl : off + l.length ≤ i
    · have hle : l.length ≤ i - off := by omega
      rw [if_pos hl, if_pos hi, List.getElem?_append_right hle, List.getElem?_eq_none hle,
        Option.getD_none, show i - (off + l.length) = i - off - l.length by omega]
    · rw [if_neg hl, if_pos hi, List.getElem?_append_left (by omega)]
  · rw [if_neg (by omega), if_neg hi, if_neg hi]

theorem load_eq_some (h : off + n ≤ b.size) : b.load off n = some (b.slice off n) := if_pos h

theorem store_eq_some (h : off + l.length ≤ b.size) : b.store off l = some (b.write off l) :=
  if_pos h

theorem store_eq_none (h : b.size < off + l.length) : b.store off l = none :=
  if_neg (Nat.not_le.mpr h)

end Block
