import Mathlib.Data.Int.CardIntervalMod

/-!
# Dealing in turn

`deal n t` are the places that the first `t` tickets are dealt to, round a table with `n` places.
Places are dealt to equally often up to one (`count_deal_le`).
-/

/-- The places of the tickets `0, …, t - 1` at a table with `n` places. -/
def deal (n t : ℕ) : List ℕ := (List.range t).map (· % n)

variable {n t a b : ℕ}

theorem deal_succ : deal n (t + 1) = deal n t ++ [t % n] := by
  simp [deal, List.range_succ]

/-- How often a place is dealt to. -/
theorem count_deal (hn : 0 < n) (ha : a < n) :
    (deal n t).count a = t / n + if a < t % n then 1 else 0 := by
  have hcount : (deal n t).count a = t.count (· ≡ a [MOD n]) := by
    rw [deal, List.count_eq_countP, List.countP_map, Nat.count]
    refine List.countP_congr fun k _ => ?_
    simp [Nat.ModEq, Nat.mod_eq_of_lt ha]
  rw [hcount, Nat.count_modEq_card t hn, Nat.mod_eq_of_lt ha]

/-- Any two places are dealt to equally often up to one. -/
theorem count_deal_le (ha : a < n) (hb : b < n) :
    (deal n t).count a ≤ (deal n t).count b + 1 := by
  have hn : 0 < n := by omega
  rw [count_deal hn ha, count_deal hn hb]
  split_ifs <;> omega
