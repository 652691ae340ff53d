import Mathlib.Data.List.Basic
import Mathlib.Algebra.Ring.Nat
import Mathlib.Tactic.Common

/-!
# Pieces of a range

A piece is an offset and a length.  `inRow off ns` lays pieces of the lengths `ns` one behind the
other from `off` on, and such pieces tile the range they span (`tiles_inRow`).  A range that is cut
into whole units and what is left over is such a row (`map_range_eq_inRow`).
-/

namespace Lizlib

/-- Pieces of the given lengths, one behind the other from offset `off` on. -/
def inRow (off : Nat) : List Nat → List (Nat × Nat)
  | [] => []
  | n :: ns => (off, n) :: inRow (off + n) ns

/-- The piece has offset `i`. -/
def Piece.Has (p : Nat × Nat) (i : Nat) : Prop := p.1 ≤ i ∧ i < p.1 + p.2

/-- The pieces are pairwise disjoint, each begins where the one before it ends, the first one at
`off`, and together they cover exactly the `n` offsets from `off` on. -/
structure Tiles (l : List (Nat × Nat)) (off n : Nat) : Prop where
  disjoint : l.Pairwise fun p q => ∀ i, ¬ (Piece.Has p i ∧ Piece.Has q i)
  adjacent : l.IsChain fun p q => p.1 + p.2 = q.1
  head : ∀ p ∈ l.head?, p.1 = off
  cover : ∀ i, (∃ p ∈ l, Piece.Has p i) ↔ off ≤ i ∧ i < off + n

theorem sum_inRow (off : Nat) (ns : List Nat) : ((inRow off ns).map Prod.snd).sum = ns.sum := by
  induction ns generalizing off with
  | nil => rfl
  | cons n ns ih => simp [inRow, ih]

/-- The pieces of a row, together, are the range they span. -/
theorem exists_has_inRow (off : Nat) (ns : List Nat) (i : Nat) :
    (∃ p ∈ inRow off ns, Piece.Has p i) ↔ off ≤ i ∧ i < off + ns.sum := by
  induction ns generalizing off with
  | nil =>
    simp only [inRow, List.not_mem_nil, false_and, exists_false, List.sum_nil, false_iff]
    omega
  | cons n ns ih =>
    rw [inRow, List.exists_mem_cons_iff, ih, List.sum_cons]
    show off ≤ i ∧ i < off + n ∨ _ ↔ _
    omega

theorem isChain_inRow (off : Nat) (ns : List Nat) :
    (inRow off ns).IsChain fun p q => p.1 + p.2 = q.1 := by
  induction ns generalizing off with
  | nil => exact .nil
  | cons n ns ih =>
    cases ns with
    | nil => exact .singleton _
    | cons m ns => exact .cons_cons rfl (ih (off + n))

theorem pairwise_inRow (off : Nat) (ns : List Nat) :
    (inRow off ns).Pairwise fun p q => ∀ i, ¬ (Piece.Has p i ∧ Piece.Has q i) := by
  induction ns generalizing off with
  | nil => exact .nil
  | cons n ns ih =>
    refine .cons ?_ (ih (off + n))
    rintro q hq i ⟨hfirst, hi⟩
    -- whatever comes later lies behind the first piece
    have hbehind := (exists_has_inRow (off + n) ns i).mp ⟨q, hq, hi⟩
    have hend : i < off + n := hfirst.2
    omega

/-- **A row of pieces** tiles the range it spans. -/
theorem tiles_inRow (off : Nat) (ns : List Nat) : Tiles (inRow off ns) off ns.sum := by
  refine ⟨pairwise_inRow off ns, isChain_inRow off ns, ?_, exists_has_inRow off ns⟩
  intro p hp
  cases ns with
  | nil => cases hp
  | cons n ns =>
    obtain rfl := Option.some.inj hp
    rfl

/-- Whole units, and what is left over. -/
theorem map_range_eq_inRow (off unit mod k : Nat) :
    ((List.range (k + 1)).map fun i => (off + i * unit, if i = k then mod else unit)) =
      inRow off (List.replicate k unit ++ [mod]) := by
  induction k generalizing off with
  | zero => simp [inRow]
  | succ k ih =>
    rw [List.range_succ_eq_map, List.map_cons, List.map_map, List.replicate_succ, List.cons_append,
      inRow, ← ih]
    have hzero : ¬ 0 = k + 1 := by omega
    simp only [Nat.zero_mul, Nat.add_zero, if_neg hzero, List.cons.injEq, true_and]
    apply List.map_congr_left
    intro i _
    have hoff : off + (i + 1) * unit = off + unit + i * unit := by
      rw [Nat.add_one_mul]
      omega
    show (off + (i + 1) * unit, if i + 1 = k + 1 then mod else unit) = _
    rw [hoff]
    congr 1
    exact if_congr (by omega) rfl rfl

end Lizlib
