import Lizlib.Common.Equiv.BufferGrowth
import Lizlib.Common.BufferRequest

/-!
# When the growth arithmetic is total

* `returns_iff`: the loop of `nextPowOfTwo` ends exactly if one of the first 64 shifts of its base
  reaches the target, and otherwise never; `nextPowOfTwo_eq_some_iff` says that 65 rounds decide it.
* `growthSum_lt_iff`: `used + require` does not wrap unless `Append(file, read_bytes)` passes on a
  negative size and as many bytes are readable.
-/

namespace Lizlib

/-! ### The loop of `nextPowOfTwo` -/

section Loop

variable {target base n k : Nat}

/-- One shift. -/
theorem wrap64_shift (base k : Nat) :
    wrap64 (wrap64 (base * 2 ^ k) <<< 1) = wrap64 (base * 2 ^ (k + 1)) := by
  rw [wrap64, wrap64, wrap64, Nat.shiftLeft_eq, Nat.mod_mul_mod, Nat.mul_assoc, ← Nat.pow_succ]

/-- After 64 shifts nothing is left. -/
theorem wrap64_of_le (base : Nat) (hk : 64 ≤ k) : wrap64 (base * 2 ^ k) = 0 := by
  obtain ⟨j, rfl⟩ := Nat.exists_eq_add_of_le hk
  rw [wrap64, Nat.pow_add, Nat.mul_left_comm]
  exact Nat.mul_mod_right _ _

/-- The loop is left once a shift reaches the target, if not before. -/
theorem exists_returns (h : target ≤ wrap64 (base * 2 ^ k)) :
    ∃ n, Returns (nextPowOfTwoBody target) (wrap64 base) n ∧ target ≤ n := by
  induction k generalizing base with
  | zero =>
    have hle : ¬ wrap64 base < target := by simpa using h
    exact ⟨wrap64 base, returns_of_leave (if_neg hle), Nat.le_of_not_lt hle⟩
  | succ k ih =>
    by_cases hlt : wrap64 base < target
    · have hshift : wrap64 (wrap64 base <<< 1) = wrap64 (base * 2) := by
        simpa using wrap64_shift base 0
      rw [Nat.pow_succ', ← Nat.mul_assoc] at h
      obtain ⟨n, hn, hle⟩ := ih h
      exact ⟨n, returns_of_next (if_pos hlt) (hshift ▸ hn), hle⟩
    · exact ⟨wrap64 base, returns_of_leave (if_neg hlt), Nat.le_of_not_lt hlt⟩

/-- The loop is never left if no shift reaches the target. -/
theorem not_returns_of_lt (h : ∀ k < 64, wrap64 (base * 2 ^ k) < target) :
    ¬ Returns (nextPowOfTwoBody target) (wrap64 base) n := by
  have hall : ∀ k, wrap64 (base * 2 ^ k) < target := by
    intro k
    by_cases hk : k < 64
    · exact h k hk
    · rw [wrap64_of_le base (Nat.le_of_not_lt hk)]
      exact Nat.lt_of_le_of_lt (Nat.zero_le _) (h 0 (by decide))
  refine not_returns (I := fun s => ∃ k, s = wrap64 (base * 2 ^ k)) ?_ ⟨0, by simp⟩ n
  rintro s ⟨k, rfl⟩
  exact ⟨wrap64 (base * 2 ^ (k + 1)), (if_pos (hall k)).trans (congrArg _ (wrap64_shift base k)),
    k + 1, rfl⟩

/-- **When growth ends**: exactly if the base, shifted by less than 64, reaches the target. -/
theorem returns_iff (hbase : base < 2 ^ 64) :
    (∃ n, Returns (nextPowOfTwoBody target) base n ∧ target ≤ n) ↔
      ∃ k < 64, target ≤ wrap64 (base * 2 ^ k) := by
  have hwrap : wrap64 base = base := Nat.mod_eq_of_lt hbase
  constructor
  · rintro ⟨n, hn, -⟩
    by_contra hnone
    push Not at hnone
    exact not_returns_of_lt hnone (hwrap.symm ▸ hn)
  · rintro ⟨k, -, hk⟩
    exact hwrap ▸ exists_returns hk

theorem nextPowOfTwoLoop_eq (target : Nat) (fuel base : Nat) :
    nextPowOfTwoLoop target fuel base = loop (nextPowOfTwoBody target) fuel base := by
  induction fuel generalizing base with
  | zero => rfl
  | succ fuel ih =>
    rw [nextPowOfTwoLoop, loop, nextPowOfTwoBody]
    split_ifs
    · exact ih _
    · rfl

/-- As long as no shift reaches the target the loop goes on. -/
theorem loop_eq_none {fuel : Nat} (h : loop (nextPowOfTwoBody target) fuel (wrap64 base) = none)
    (hk : k < fuel) : wrap64 (base * 2 ^ k) < target := by
  induction fuel generalizing base k with
  | zero => omega
  | succ fuel ih =>
    rw [loop, nextPowOfTwoBody] at h
    by_cases hlt : wrap64 base < target
    · cases k with
      | zero => simpa using hlt
      | succ k =>
        have hshift : wrap64 (wrap64 base <<< 1) = wrap64 (base * 2) := by
          simpa using wrap64_shift base 0
        rw [if_pos hlt, hshift] at h
        rw [Nat.pow_succ', ← Nat.mul_assoc]
        exact ih h (by omega)
    · rw [if_neg hlt] at h
      cases h

/-- **65 rounds are enough** to tell whether the loop ends. -/
theorem nextPowOfTwo_eq_some_iff {length : Nat} (hlength : length < 2 ^ 64) :
    nextPowOfTwo length target = some n ↔
      Returns (nextPowOfTwoBody target) (growthBase length) n := by
  have hbase : wrap64 (growthBase length) = growthBase length := by
    unfold growthBase wrap64
    split_ifs <;> omega
  have hloop : nextPowOfTwo length target = loop (nextPowOfTwoBody target) 65 (growthBase length) :=
    nextPowOfTwoLoop_eq target 65 _
  rw [hloop]
  constructor
  · exact fun h => ⟨65, h⟩
  · intro h
    cases h65 : loop (nextPowOfTwoBody target) 65 (growthBase length) with
    | none =>
      rw [← hbase] at h65 h
      exact absurd h (not_returns_of_lt fun k hk => loop_eq_none h65 (by omega))
    | some m => rw [Returns.unique ⟨65, h65⟩ h]

end Loop

/-! ### The sum -/

namespace AppendRequest

/-- The size passed on is not negative, or fewer bytes are readable than it is below zero. -/
def Fits (b : Buffer) : AppendRequest → Prop
  | .memory _ _ => True
  | .file read_bytes file_size =>
    0 ≤ (readSize read_bytes file_size).toInt ∨
      (b.readable.length : Int) < -(readSize read_bytes file_size).toInt

/-- The conversion of an `ssize_t` to a `size_t`. -/
theorem toNat_toUInt64 (x : Int64) :
    (0 ≤ x.toInt ∧ (x.toUInt64.toNat : Int) = x.toInt ∧ x.toUInt64.toNat < 2 ^ 63) ∨
      (x.toInt < 0 ∧ (x.toUInt64.toNat : Int) = x.toInt + 2 ^ 64) := by
  have hcond := BitVec.toInt_eq_toNat_cond x.toBitVec
  rw [Int64.toInt_toBitVec, Int64.toNat_toBitVec] at hcond
  have hlt := x.toUInt64.toNat_lt
  split_ifs at hcond <;> omega

end AppendRequest

namespace Buffer

variable {b : Buffer} {require : Nat} {drop : Bool}

/-- Where the sum is computed. -/
theorem WellFormed.growthSum_eq (h : b.WellFormed) (require : Nat) (drop : Bool) :
    b.growthSum require drop =
      if b.w_idx_ + require ≤ b.length_ ∨
          (drop = true ∧ b.w_idx_ - b.r_idx_ + require ≤ b.length_) then none
      else some (b.w_idx_ - b.r_idx_ + require) := by
  have hrw := h.r_le_w
  have hw := h.w_le_length
  have hlt := h.length_lt
  have hfree : sub64 b.length_ (b.w_idx_ - b.r_idx_) = b.length_ - (b.w_idx_ - b.r_idx_) := by
    unfold sub64
    omega
  unfold growthSum
  dsimp only
  rw [h.writableBytes_eq, h.readableBytes_eq, hfree]
  by_cases hroom : b.w_idx_ + require ≤ b.length_
  · rw [if_pos (by omega), if_pos (Or.inl hroom)]
  rw [if_neg (by omega)]
  by_cases hfit : drop = true ∧ b.w_idx_ - b.r_idx_ + require ≤ b.length_
  · rw [if_pos ⟨hfit.1, by omega⟩, if_pos (Or.inr hfit)]
  · rw [if_neg (fun hle => hfit ⟨hle.1, by omega⟩), if_neg (fun hor => hor.elim hroom hfit)]

/-- What `ensureWritable` asks for is computed from the sum. -/
theorem WellFormed.newLength_of_growthSum (h : b.WellFormed) {n : Nat}
    (hn : b.growthSum require drop = some n) (capped : Bool) :
    b.newLength require capped =
      if capped then some (wrap64 n) else nextPowOfTwo b.length_ (wrap64 n) := by
  rw [h.growthSum_eq] at hn
  split_ifs at hn
  obtain rfl := Option.some.inj hn
  rfl

theorem WellFormed.growthSum_lt (h : b.WellFormed) (hlength : b.length_ < 2 ^ 63)
    (hrequire : require < 2 ^ 63) {n : Nat} (hn : b.growthSum require drop = some n) :
    n < 2 ^ 64 := by
  have hw := h.w_le_length
  rw [h.growthSum_eq] at hn
  split_ifs at hn
  obtain rfl := Option.some.inj hn
  omega

/-- No block has room for `2 ^ 63` bytes. -/
theorem WellFormed.growthSum_of_le (h : b.WellFormed) (hlength : b.length_ < 2 ^ 63)
    (hrequire : 2 ^ 63 ≤ require) : b.growthSum require drop = some (b.w_idx_ - b.r_idx_ + require) := by
  rw [h.growthSum_eq, if_neg (by omega)]

/-- **When the sum does not wrap**, for a buffer whose block is an object. -/
theorem WellFormed.growthSum_lt_iff (h : b.WellFormed) (hlength : b.length_ < 2 ^ 63)
    (request : AppendRequest) (drop : Bool) :
    (∀ n, b.growthSum request.require drop = some n → n < 2 ^ 64) ↔ request.Fits b := by
  cases request with
  | memory size size_lt => exact iff_of_true (fun _ => h.growthSum_lt hlength size_lt) trivial
  | file read_bytes file_size =>
    rw [AppendRequest.require, AppendRequest.Fits, h.length_readable]
    obtain ⟨hpos, -, hlt⟩ | ⟨hneg, heq⟩ :=
      AppendRequest.toNat_toUInt64 (AppendRequest.readSize read_bytes file_size)
    · exact iff_of_true (fun _ => h.growthSum_lt hlength hlt) (.inl hpos)
    · have hmin := (AppendRequest.readSize read_bytes file_size).le_toInt
      rw [h.growthSum_of_le hlength (by omega)]
      simp only [Option.some.injEq, forall_eq']
      omega

/-! ### Both together -/

/-- **The exact condition**: `nextPowOfTwo(base, target)` returns a value of at least `target` if and
only if the base (two instead of zero), shifted by less than 64, reaches it; and `used + require` does
not wrap if and only if the size that `Append` passes on is not negative or fewer bytes are readable
than it is below zero.  The length of the new block is what that loop returns for the sum. -/
theorem growth_total_iff (base target : UInt64) {b : Buffer} (hb : b.WellFormed)
    (hlength : b.length_ < 2 ^ 63) (request : AppendRequest) (drop : Bool) :
    ((∃ n, Returns (nextPowOfTwoBody target.toNat) (growthBase base.toNat) n ∧ target.toNat ≤ n) ↔
      ∃ k < 64, target.toNat ≤ wrap64 (growthBase base.toNat * 2 ^ k)) ∧
    ((∀ n, b.growthSum request.require drop = some n → n < 2 ^ 64) ↔ request.Fits b) ∧
    ∀ sum n, b.growthSum request.require drop = some sum →
      (b.newLength request.require false = some n ↔
        Returns (nextPowOfTwoBody (wrap64 sum)) (growthBase b.length_) n) := by
  have hbase : growthBase base.toNat < 2 ^ 64 := by
    have hlt := base.toNat_lt
    unfold growthBase
    split_ifs <;> omega
  refine ⟨returns_iff hbase, hb.growthSum_lt_iff hlength request drop, fun sum n hsum => ?_⟩
  rw [hb.newLength_of_growthSum hsum false, if_neg Bool.false_ne_true]
  exact nextPowOfTwo_eq_some_iff hb.length_lt

/-- Sixteen bytes, one of which is readable. -/
def oneOfSixteen : Buffer := { sized 16 false 0 fun _ => 0 with w_idx_ := 1 }

theorem wellFormed_oneOfSixteen : oneOfSixteen.WellFormed := by
  constructor <;> simp [oneOfSixteen, sized]

instance (b : Buffer) (request : AppendRequest) : Decidable (request.Fits b) :=
  match request with
  | .memory _ _ => isTrue trivial
  | .file _ _ => inferInstanceAs (Decidable (_ ∨ _))

/-- From 3 growth gets to 100 and never to `2 ^ 64 - 1`; with one readable byte a read of up to 4096
bytes does not wrap the sum, and a read of -1 bytes does. -/
theorem growth_total_iff_three :
    (∃ n, Returns (nextPowOfTwoBody (100 : UInt64).toNat) (growthBase (3 : UInt64).toNat) n ∧
      (100 : UInt64).toNat ≤ n) ∧
    (∀ n, oneOfSixteen.growthSum (AppendRequest.file 4096 0).require false = some n → n < 2 ^ 64) ∧
    (¬ ∃ n, Returns (nextPowOfTwoBody (-1 : UInt64).toNat) (growthBase (3 : UInt64).toNat) n ∧
      (-1 : UInt64).toNat ≤ n) ∧
    ¬ ∀ n, oneOfSixteen.growthSum (AppendRequest.file (-1) 0).require false = some n →
      n < 2 ^ 64 := by
  have hlength : oneOfSixteen.length_ < 2 ^ 63 := by decide
  obtain ⟨hreach, hfits, -⟩ :=
    growth_total_iff 3 100 wellFormed_oneOfSixteen hlength (.file 4096 0) false
  obtain ⟨hnever, hwraps, -⟩ :=
    growth_total_iff 3 (-1) wellFormed_oneOfSixteen hlength (.file (-1) 0) false
  exact ⟨hreach.mpr (by decide), hfits.mpr (by decide), hnever.not.mpr (by decide),
    hwraps.not.mpr (by decide)⟩

/-- `Append(file, -1)`: to a buffer of three bytes that holds none growth never ends, and with one
readable byte the sum wraps to zero. -/
theorem not_growth_total :
    (AppendRequest.file (-1) 0).require = 2 ^ 64 - 1 ∧
      (¬ ∃ n, Returns (nextPowOfTwoBody (2 ^ 64 - 1)) (growthBase 3) n ∧ 2 ^ 64 - 1 ≤ n) ∧
      oneOfSixteen.growthSum (AppendRequest.file (-1) 0).require false = some (2 ^ 64) := by
  refine ⟨by decide, ?_, by decide⟩
  rw [returns_iff (by decide)]
  decide

end Buffer

end Lizlib
