import Lizlib.Common.Buffer

/-!
# What the buffer operations do to the readable bytes
-/

namespace Lizlib

/-! ### Sequencing -/

theorem ok_bind {ε α β : Type} (a : α) (f : α → Except ε β) : (Except.ok a >>= f) = f a := rfl

theorem error_bind {ε α β : Type} (e : ε) (f : α → Except ε β) :
    (Except.error e >>= f) = .error e := rfl

theorem bind_eq_ok {ε α β : Type} {x : Except ε α} {f : α → Except ε β} {b : β} :
    (x >>= f) = .ok b ↔ ∃ a, x = .ok a ∧ f a = .ok b := by
  cases x with
  | error e => simp [error_bind]
  | ok a => simp [ok_bind]

/-! ### Growth -/

/-- The first value of `nextPowOfTwo`'s `base`. -/
def growthBase (length : Nat) : Nat := if length = 0 then 2 else length

theorem nextPowOfTwoLoop_spec {target : Nat} (ht : target ≤ 2 ^ 63) {fuel base : Nat}
    (hbase : base < 2 ^ 64) (hfuel : target ≤ base * 2 ^ fuel) :
    ∃ k, nextPowOfTwoLoop target (fuel + 1) base = some (base * 2 ^ k) ∧
      target ≤ base * 2 ^ k ∧ base * 2 ^ k < 2 ^ 64 ∧ ∀ j < k, base * 2 ^ j < target := by
  induction fuel generalizing base with
  | zero =>
    have hle : target ≤ base := by simpa using hfuel
    refine ⟨0, ?_, by simpa using hle, by simpa using hbase, by simp⟩
    simp [nextPowOfTwoLoop, hle]
  | succ fuel ih =>
    rw [nextPowOfTwoLoop]
    by_cases hlt : base < target
    · have hdouble : wrap64 (base <<< 1) = base * 2 := by
        rw [wrap64, Nat.shiftLeft_eq]
        omega
      have hfuel' : target ≤ base * 2 * 2 ^ fuel := by
        rw [Nat.mul_assoc, ← Nat.pow_succ']
        exact hfuel
      obtain ⟨k, hk, hle, hlt64, hmin⟩ := ih (by omega) hfuel'
      have hpow : ∀ j, base * 2 * 2 ^ j = base * 2 ^ (j + 1) := fun j => by
        rw [Nat.mul_assoc, ← Nat.pow_succ']
      rw [if_pos hlt, hdouble, hk, hpow]
      rw [hpow] at hle hlt64
      refine ⟨k + 1, rfl, hle, hlt64, ?_⟩
      intro j hj
      cases j with
      | zero => simpa using hlt
      | succ j =>
        rw [← hpow]
        exact hmin j (by omega)
    · rw [if_neg hlt]
      exact ⟨0, by simp, by simpa using Nat.le_of_not_lt hlt, by simpa using hbase, by simp⟩

/-- **Growth**: up to `2^63` bytes, the new length is the first doubling of the old one (of two,
for an empty buffer) that reaches the target. -/
theorem nextPowOfTwo_spec {length target : Nat} (hlength : length < 2 ^ 64) (ht : target ≤ 2 ^ 63) :
    ∃ k, nextPowOfTwo length target = some (growthBase length * 2 ^ k) ∧
      target ≤ growthBase length * 2 ^ k ∧ growthBase length * 2 ^ k < 2 ^ 64 ∧
      ∀ j < k, growthBase length * 2 ^ j < target := by
  have hbase : growthBase length < 2 ^ 64 := by
    unfold growthBase
    split_ifs <;> omega
  have hpos : 1 ≤ growthBase length := by
    unfold growthBase
    split_ifs <;> omega
  have hfuel : target ≤ growthBase length * 2 ^ 64 := by omega
  exact nextPowOfTwoLoop_spec ht hbase hfuel

theorem le_nextPowOfTwoLoop {target n : Nat} {fuel base : Nat}
    (h : nextPowOfTwoLoop target fuel base = some n) :
    base ≤ n ∧ target ≤ n ∧ (base < 2 ^ 64 → n < 2 ^ 64) := by
  induction fuel generalizing base with
  | zero => simp [nextPowOfTwoLoop] at h
  | succ fuel ih =>
    rw [nextPowOfTwoLoop] at h
    split_ifs at h with hlt
    · obtain ⟨-, htarget, hlt64⟩ := ih h
      exact ⟨by omega, htarget, fun _ => hlt64 (Nat.mod_lt _ (by omega))⟩
    · obtain rfl := Option.some.inj h
      exact ⟨Nat.le_refl _, Nat.le_of_not_lt hlt, id⟩

theorem le_nextPowOfTwo {length target n : Nat} (h : nextPowOfTwo length target = some n) :
    length ≤ n ∧ target ≤ n ∧ (length < 2 ^ 64 → n < 2 ^ 64) := by
  obtain ⟨hbase, htarget, hlt64⟩ := le_nextPowOfTwoLoop h
  split_ifs at hbase hlt64 with hzero
  · exact ⟨by omega, htarget, fun _ => hlt64 (by omega)⟩
  · exact ⟨hbase, htarget, hlt64⟩

namespace Buffer

/-! ### Well-formed buffers -/

/-- The indices are in order and inside the block, and the block has `length_` bytes. -/
structure WellFormed (b : Buffer) : Prop where
  r_le_w : b.r_idx_ ≤ b.w_idx_
  w_le_length : b.w_idx_ ≤ b.length_
  length_lt : b.length_ < 2 ^ 64
  size : ∀ m, b.data_ = some m → m.size = b.length_
  null : b.data_ = none → b.length_ = 0
  deleter : b.aligned_ = true → b.deleter_ = true

/-- The readable bytes. -/
def readable (b : Buffer) : List UInt8 :=
  match b.data_ with
  | none => []
  | some m => m.slice b.r_idx_ (b.w_idx_ - b.r_idx_)

theorem wellFormed_default : default.WellFormed := by
  constructor <;> simp [default]

theorem wellFormed_sized {length addr : Nat} (hlength : length < 2 ^ 64) (aligned : Bool)
    (cells : Nat → UInt8) : (sized length aligned addr cells).WellFormed := by
  refine ⟨Nat.le_refl _, Nat.zero_le _, hlength, ?_, ?_, ?_⟩ <;> simp [sized]

section WellFormed

variable {b : Buffer} (h : b.WellFormed)

include h

theorem WellFormed.w_lt : b.w_idx_ < 2 ^ 64 := Nat.lt_of_le_of_lt h.w_le_length h.length_lt

theorem WellFormed.readableBytes_eq : b.readableBytes = b.w_idx_ - b.r_idx_ := by
  have := h.r_le_w
  have := h.w_lt
  unfold readableBytes sub64
  omega

theorem WellFormed.writableBytes_eq : b.writableBytes = b.length_ - b.w_idx_ := by
  have := h.w_le_length
  have := h.length_lt
  unfold writableBytes sub64
  omega

theorem WellFormed.length_readable : b.readable.length = b.w_idx_ - b.r_idx_ := by
  unfold readable
  cases hd : b.data_ with
  | none =>
    have := h.null hd
    have := h.w_le_length
    simp
    omega
  | some m => simp

theorem WellFormed.exists_data (hlength : 0 < b.length_) :
    ∃ m, b.data_ = some m ∧ m.size = b.length_ := by
  cases hd : b.data_ with
  | none =>
    have := h.null hd
    omega
  | some m => exact ⟨m, rfl, h.size m hd⟩

theorem WellFormed.reset : b.reset.WellFormed :=
  ⟨Nat.le_refl _, Nat.zero_le _, h.length_lt, h.size, h.null, h.deleter⟩

omit h in
@[simp] theorem readable_reset : b.reset.readable = [] := by
  unfold readable
  cases b.reset.data_ <;> rfl

/-! ### Loads and stores -/

theorem WellFormed.load_eq {off n : Nat} (hn : off + n ≤ b.length_) :
    b.load off n = .ok ((b.data_.map fun m => m.slice off n).getD []) := by
  unfold Buffer.load
  by_cases hzero : n = 0
  · subst hzero
    cases b.data_ <;> simp
  · obtain ⟨m, hm, hsize⟩ := h.exists_data (by omega)
    rw [if_neg hzero, hm, Option.bind_some, Block.load_eq_some _ (by omega)]
    rfl

/-- The readable bytes can be loaded. -/
theorem WellFormed.load_readable : b.load b.r_idx_ (b.w_idx_ - b.r_idx_) = .ok b.readable := by
  have := h.r_le_w
  have := h.w_le_length
  rw [h.load_eq (by omega), readable]
  cases b.data_ <;> rfl

theorem WellFormed.store_eq {off : Nat} {l : List UInt8} (hl : off + l.length ≤ b.length_) :
    b.store off l = .ok { b with data_ := b.data_.map fun m => m.write off l } := by
  unfold Buffer.store
  by_cases hnil : l = []
  · subst hnil
    cases hd : b.data_ <;> simp [← hd]
  · have hpos : 0 < l.length := List.length_pos_iff.mpr hnil
    obtain ⟨m, hm, hsize⟩ := h.exists_data (by omega)
    rw [if_neg hnil, hm, Option.bind_some, Block.store_eq_some _ (by omega)]
    rfl

theorem WellFormed.store_error {off : Nat} {l : List UInt8} (hl : b.length_ < off + l.length)
    (hnil : l ≠ []) : b.store off l = .error .outOfBlock := by
  unfold Buffer.store
  rw [if_neg hnil]
  cases hd : b.data_ with
  | none => rfl
  | some m =>
    have := h.size m hd
    rw [Option.bind_some, Block.store_eq_none _ (by omega)]
    rfl

/-- The buffer after `l` has been written at `WIndex()`. -/
def written (b : Buffer) (l : List UInt8) : Buffer :=
  { b with data_ := b.data_.map fun m => m.write b.w_idx_ l, w_idx_ := b.w_idx_ + l.length }

theorem WellFormed.written {l : List UInt8} (hl : b.w_idx_ + l.length ≤ b.length_) :
    (b.written l).WellFormed := by
  refine ⟨?_, hl, h.length_lt, ?_, ?_, h.deleter⟩
  · exact Nat.le_trans h.r_le_w (Nat.le_add_right _ _)
  · intro m hm
    obtain ⟨m', hm', rfl⟩ := Option.map_eq_some_iff.mp hm
    exact h.size m' hm'
  · intro hnone
    exact h.null (Option.map_eq_none_iff.mp hnone)

/-- Where there is room, what is written at `WIndex()` follows the readable bytes. -/
theorem WellFormed.readable_written {l : List UInt8} (hl : b.w_idx_ + l.length ≤ b.length_) :
    (b.written l).readable = b.readable ++ l := by
  have hrw := h.r_le_w
  unfold readable
  cases hd : b.data_ with
  | none =>
    have hnull := h.null hd
    have hnil : l = [] := List.length_eq_zero_iff.mp (by omega)
    simp [Buffer.written, hd, hnil]
  | some m =>
    have hlen : b.w_idx_ + l.length - b.r_idx_ = b.w_idx_ - b.r_idx_ + l.length := by omega
    have hend : b.r_idx_ + (b.w_idx_ - b.r_idx_) = b.w_idx_ := by omega
    simp only [Buffer.written, hd, Option.map_some]
    rw [hlen, Block.slice_add, hend, Block.slice_write_self, Block.slice_write_before _ (by omega)]

/-- The buffer after its readable bytes have been moved to the front. -/
def compacted (b : Buffer) : Buffer :=
  { b with
    data_ := b.data_.map fun m => m.write 0 b.readable
    r_idx_ := 0
    w_idx_ := b.readable.length }

theorem WellFormed.rearrange_eq : b.rearrange = .ok b.compacted := by
  have hused := h.readableBytes_eq
  have hlen := h.length_readable
  have hw := h.w_le_length
  unfold Buffer.rearrange
  simp only [hused]
  by_cases hzero : b.w_idx_ - b.r_idx_ = 0
  · have hnil : b.readable = [] := List.length_eq_zero_iff.mp (by omega)
    have hdata : b.data_.map (fun m => m.write 0 []) = b.data_ := by simp
    rw [if_pos hzero, compacted, hnil, hdata]
    rfl
  · rw [if_neg hzero, h.load_readable]
    simp only [bind, Except.bind]
    rw [h.store_eq (by omega)]
    simp only [compacted, hlen]
    rfl

theorem WellFormed.compacted : b.compacted.WellFormed := by
  have := h.w_le_length
  have hlen := h.length_readable
  refine ⟨Nat.zero_le _, ?_, h.length_lt, ?_, ?_, h.deleter⟩
  · simp only [Buffer.compacted, hlen]
    omega
  · intro m hm
    obtain ⟨m', hm', rfl⟩ := Option.map_eq_some_iff.mp hm
    exact h.size m' hm'
  · intro hnone
    exact h.null (Option.map_eq_none_iff.mp hnone)

omit h in
/-- **Compaction** keeps the readable bytes. -/
@[simp] theorem readable_compacted : b.compacted.readable = b.readable := by
  cases hd : b.data_ with
  | none => simp [readable, Buffer.compacted, hd]
  | some m =>
    have hself := m.slice_write_self 0 b.readable
    rw [readable, show b.compacted.data_ = some (m.write 0 b.readable) by simp [Buffer.compacted, hd]]
    exact hself

end WellFormed

/-! ### Making room -/

/-- `c` is `b` with its block replaced by one of `n` bytes that begins with the old contents. -/
structure GrownTo (b : Buffer) (n : Nat) (c : Buffer) : Prop where
  length_ : c.length_ = n
  r_idx_ : c.r_idx_ = b.r_idx_
  w_idx_ : c.w_idx_ = b.w_idx_
  deleter_ : c.deleter_ = b.deleter_
  aligned_ : c.aligned_ = b.aligned_
  data : ∃ m, c.data_ = some m ∧ m.size = n ∧
    ∀ m₀, b.data_ = some m₀ → ∀ i < b.length_, m.cells i = m₀.cells i

section GrownTo

variable {b c : Buffer} {n : Nat} (h : b.WellFormed) (hg : GrownTo b n c) (hle : b.length_ ≤ n)

include h hg hle

theorem GrownTo.wellFormed (hn : n < 2 ^ 64) : c.WellFormed := by
  obtain ⟨m, hm, hsize, -⟩ := hg.data
  refine ⟨?_, ?_, ?_, ?_, ?_, ?_⟩
  · rw [hg.r_idx_, hg.w_idx_]
    exact h.r_le_w
  · rw [hg.w_idx_, hg.length_]
    exact Nat.le_trans h.w_le_length hle
  · rw [hg.length_]
    exact hn
  · intro m' hm'
    rw [hm, Option.some.injEq] at hm'
    rw [← hm', hsize, hg.length_]
  · intro hnone
    simp [hm] at hnone
  · rw [hg.aligned_, hg.deleter_]
    exact h.deleter

omit hle in
theorem GrownTo.readable : c.readable = b.readable := by
  obtain ⟨m, hm, -, hcells⟩ := hg.data
  unfold Buffer.readable
  rw [hm, hg.r_idx_, hg.w_idx_]
  have hw := h.w_le_length
  cases hd : b.data_ with
  | none =>
    have hnull := h.null hd
    have hzero : b.w_idx_ - b.r_idx_ = 0 := by omega
    simp [hzero]
  | some m₀ =>
    apply Block.slice_congr
    intro i hi
    exact hcells m₀ hd _ (by omega)

end GrownTo

/-- A new block that is at least as long as the old one begins with its contents. -/
theorem newBlock_spec {b : Buffer} (hsize : ∀ m, b.data_ = some m → m.size = b.length_) {n : Nat}
    (hle : b.length_ ≤ n) (addr : Nat) (cells : Nat → UInt8) :
    ∃ m, b.newBlock n addr cells = .ok m ∧ m.size = n ∧
      ∀ m₀, b.data_ = some m₀ → ∀ i < b.length_, m.cells i = m₀.cells i := by
  unfold newBlock alignedRealloc realloc
  cases hd : b.data_ with
  | none => split_ifs <;> exact ⟨_, rfl, rfl, by simp⟩
  | some m =>
    have hsize := hsize m hd
    split_ifs
    · simp only
      rw [Block.load_eq_some _ (by omega), Option.bind_some,
        Block.store_eq_some _ (by simpa using hle)]
      refine ⟨_, rfl, rfl, ?_⟩
      intro m₀ hm₀ i hi
      obtain rfl : m = m₀ := Option.some.inj hm₀
      simp [Block.write, hi]
    · refine ⟨_, rfl, rfl, ?_⟩
      intro m₀ hm₀ i hi
      obtain rfl : m = m₀ := Option.some.inj hm₀
      have hin : i < m.size ∧ i < n := by omega
      simp [hin]

/-- What `ensureWritable` does on a well-formed buffer that may grow: there is room already, the
readable bytes are moved to the front, the growth never ends, there is no memory, or the buffer has
grown. -/
inductive Ensured (b : Buffer) (require : Nat) (drop : Bool) (alloc : Alloc) :
    Except Fault (Buffer × Bool) → Prop
  | room (hroom : b.w_idx_ + require ≤ b.length_) : Ensured b require drop alloc (.ok (b, true))
  | compact (hroom : b.length_ < b.w_idx_ + require) (hdrop : drop = true)
      (hfit : b.w_idx_ - b.r_idx_ + require ≤ b.length_) :
      Ensured b require drop alloc (.ok (b.compacted, true))
  | diverge (hroom : b.length_ < b.w_idx_ + require)
      (hn : nextPowOfTwo b.length_ (b.w_idx_ - b.r_idx_ + require) = none) :
      Ensured b require drop alloc (.error .diverge)
  | noMemory {n : Nat} (hroom : b.length_ < b.w_idx_ + require)
      (hn : nextPowOfTwo b.length_ (b.w_idx_ - b.r_idx_ + require) = some n)
      (halloc : alloc n = none) : Ensured b require drop alloc (.ok (b, false))
  | grow {n : Nat} {c : Buffer} (hroom : b.length_ < b.w_idx_ + require)
      (hfull : drop = true → b.length_ < b.w_idx_ - b.r_idx_ + require)
      (hn : nextPowOfTwo b.length_ (b.w_idx_ - b.r_idx_ + require) = some n)
      (halloc : alloc n ≠ none) (hg : GrownTo b n c) : Ensured b require drop alloc (.ok (c, true))

theorem WellFormed.ensureWritable_cases {b : Buffer} (h : b.WellFormed) {require : Nat}
    (drop : Bool) (alloc : Alloc) (hreq : b.w_idx_ - b.r_idx_ + require < 2 ^ 64) :
    Ensured b require drop alloc (b.ensureWritable require false drop alloc) := by
  have hrw := h.r_le_w
  have hw := h.w_le_length
  have hlt := h.length_lt
  have htarget : wrap64 (b.w_idx_ - b.r_idx_ + require) = b.w_idx_ - b.r_idx_ + require :=
    Nat.mod_eq_of_lt hreq
  have hfree : sub64 b.length_ (b.w_idx_ - b.r_idx_) = b.length_ - (b.w_idx_ - b.r_idx_) := by
    unfold sub64
    omega
  unfold ensureWritable
  simp only [h.writableBytes_eq, h.readableBytes_eq, htarget, hfree]
  by_cases hroom : require = 0 ∨ require ≤ b.length_ - b.w_idx_
  · rw [if_pos hroom]
    exact .room (by omega)
  rw [if_neg hroom]
  by_cases hfit : drop = true ∧ require ≤ b.length_ - (b.w_idx_ - b.r_idx_)
  · rw [if_pos hfit, h.rearrange_eq]
    exact .compact (by omega) hfit.1 (by omega)
  rw [if_neg hfit]
  have hfull : drop = true → b.length_ < b.w_idx_ - b.r_idx_ + require := by
    intro hdrop
    have : ¬ require ≤ b.length_ - (b.w_idx_ - b.r_idx_) := fun hle => hfit ⟨hdrop, hle⟩
    omega
  simp only [Bool.false_eq_true, if_false]
  cases hn : nextPowOfTwo b.length_ (b.w_idx_ - b.r_idx_ + require) with
  | none => exact .diverge (by omega) hn
  | some n =>
    obtain ⟨hle, -, -⟩ := le_nextPowOfTwo hn
    have hassert : ¬ (b.aligned_ = true ∧ b.deleter_ = false) := by
      rintro ⟨haligned, hdeleter⟩
      simp [h.deleter haligned] at hdeleter
    simp only [hassert, if_false]
    cases ha : alloc n with
    | none => exact .noMemory (by omega) hn ha
    | some r =>
      obtain ⟨addr, cells⟩ := r
      obtain ⟨m, hm, hsize, hcells⟩ := newBlock_spec h.size hle addr cells
      simp only [hm]
      exact .grow (by omega) hfull hn (by simp [ha])
        ⟨rfl, rfl, rfl, rfl, rfl, m, rfl, hsize, hcells⟩

theorem WellFormed.ensureWritable_room {b : Buffer} (h : b.WellFormed) {require : Nat}
    (hroom : b.w_idx_ + require ≤ b.length_) (capped drop : Bool) (alloc : Alloc) :
    b.ensureWritable require capped drop alloc = .ok (b, true) := by
  unfold ensureWritable
  have hle : require = 0 ∨ require ≤ b.writableBytes := by
    rw [h.writableBytes_eq]
    omega
  simp only [hle, if_true]
  rfl

theorem WellFormed.ensureWritable_compact {b : Buffer} (h : b.WellFormed) {require : Nat}
    (hroom : b.length_ < b.w_idx_ + require) (hfits : b.w_idx_ - b.r_idx_ + require ≤ b.length_)
    (capped : Bool) (alloc : Alloc) :
    b.ensureWritable require capped true alloc = .ok (b.compacted, true) := by
  have hw := h.w_le_length
  have hlt := h.length_lt
  have hfree : sub64 b.length_ (b.w_idx_ - b.r_idx_) = b.length_ - (b.w_idx_ - b.r_idx_) := by
    unfold sub64
    omega
  unfold ensureWritable
  dsimp only
  rw [h.writableBytes_eq, h.readableBytes_eq, hfree, if_neg (by omega),
    if_pos ⟨rfl, by omega⟩, h.rearrange_eq, ok_bind]
  rfl

/-! ### When growth leaves too little room -/

/-- Neither compaction nor growth makes room for `require` bytes: `drop_read_bytes` is off or does
not free enough, and the first doubling of the length that holds the readable bytes and the new
ones ends before `WIndex() + require`. -/
def Overruns (b : Buffer) (require : Nat) (drop : Bool) : Prop :=
  (drop = true → b.length_ < b.w_idx_ - b.r_idx_ + require) ∧
    ∃ k, b.w_idx_ - b.r_idx_ + require ≤ growthBase b.length_ * 2 ^ k ∧
      growthBase b.length_ * 2 ^ k < b.w_idx_ + require

theorem length_le_growth (n k : Nat) : n ≤ growthBase n * 2 ^ k := by
  have hpos : 1 ≤ 2 ^ k := Nat.one_le_two_pow
  have hbase : n ≤ growthBase n := by
    unfold growthBase
    split_ifs <;> omega
  exact Nat.le_trans hbase (Nat.le_mul_of_pos_right _ hpos)

theorem not_overruns_of_room {b : Buffer} {require : Nat} {drop : Bool}
    (hroom : b.w_idx_ + require ≤ b.length_) : ¬ b.Overruns require drop := by
  rintro ⟨-, k, -, hlt⟩
  have := length_le_growth b.length_ k
  omega

/-- Once the block could hold all the bytes, only compaction can still help. -/
theorem WellFormed.overruns_of_fits {b : Buffer} (h : b.WellFormed) {require : Nat} {drop : Bool}
    (hroom : b.length_ < b.w_idx_ + require)
    (hfits : b.w_idx_ - b.r_idx_ + require ≤ b.length_) :
    b.Overruns require drop ↔ drop = false := by
  have hw := h.w_le_length
  constructor
  · rintro ⟨hdrop, -⟩
    by_contra hne
    have := hdrop (by simpa using hne)
    omega
  · intro hdrop
    refine ⟨by simp [hdrop], 0, ?_⟩
    have hbase : growthBase b.length_ = b.length_ := by
      unfold growthBase
      split_ifs <;> omega
    simpa [hbase] using ⟨hfits, hroom⟩

/-- A successful `ensureWritable` keeps the readable bytes, and leaves a block that could hold them
and the new ones. -/
structure Ready (b : Buffer) (require : Nat) (c : Buffer) : Prop where
  wellFormed : c.WellFormed
  readable : c.readable = b.readable
  fits : b.w_idx_ - b.r_idx_ + require ≤ c.length_

theorem Ready.used_eq {b c : Buffer} {require : Nat} (hc : Ready b require c)
    (h : b.WellFormed) : c.w_idx_ - c.r_idx_ = b.w_idx_ - b.r_idx_ := by
  rw [← hc.wellFormed.length_readable, hc.readable, h.length_readable]

section Writable

variable {b : Buffer} (h : b.WellFormed) {require : Nat} (drop : Bool) {alloc : Alloc}
  (hreq : b.w_idx_ - b.r_idx_ + require < 2 ^ 63) (halloc : ∀ n, alloc n ≠ none)

include h hreq halloc

/-- With memory at hand `ensureWritable` succeeds, and makes room behind `WIndex()` unless growth
overruns. -/
theorem WellFormed.ensureWritable_ready :
    ∃ c, b.ensureWritable require false drop alloc = .ok (c, true) ∧ Ready b require c ∧
      (¬ b.Overruns require drop → c.w_idx_ + require ≤ c.length_) ∧
      (b.Overruns require drop → c.length_ < c.w_idx_ + require ∧ c.w_idx_ = b.w_idx_) := by
  have hrw := h.r_le_w
  have hw := h.w_le_length
  obtain ⟨k, hk, hle, hlt, hmin⟩ := nextPowOfTwo_spec h.length_lt (Nat.le_of_lt hreq)
  have hcases : Ensured b require drop alloc _ := h.ensureWritable_cases drop alloc (by omega)
  generalize b.ensureWritable require false drop alloc = r at hcases
  cases hcases with
  | room hroom =>
    refine ⟨b, rfl, ⟨h, rfl, by omega⟩, fun _ => hroom, fun ho => ?_⟩
    exact absurd ho (not_overruns_of_room hroom)
  | compact hroom hdrop hfit =>
    refine ⟨_, rfl, ⟨h.compacted, readable_compacted, hfit⟩, fun _ => ?_, fun ho => ?_⟩
    · simp only [Buffer.compacted, h.length_readable]
      exact hfit
    · have := ho.1 hdrop
      omega
  | diverge _ hn => simp [hk] at hn
  | noMemory _ _ ha => exact absurd ha (halloc _)
  | @grow n c hroom hfull hn _ hg =>
    obtain rfl : growthBase b.length_ * 2 ^ k = n := Option.some.inj (hk.symm.trans hn)
    have hgrow := length_le_growth b.length_ k
    refine ⟨c, rfl, ⟨hg.wellFormed h hgrow hlt, hg.readable h, ?_⟩, fun ho => ?_, fun ho => ?_⟩
    · rw [hg.length_]
      exact hle
    · rw [hg.length_, hg.w_idx_]
      by_contra hroom'
      exact ho ⟨hfull, k, hle, by omega⟩
    · obtain ⟨-, j, hj, hjlt⟩ := ho
      refine ⟨?_, hg.w_idx_⟩
      rw [hg.length_, hg.w_idx_]
      have hkj : k ≤ j := by
        by_contra hkj
        have := hmin j (by omega)
        omega
      have hpow : growthBase b.length_ * 2 ^ k ≤ growthBase b.length_ * 2 ^ j :=
        Nat.mul_le_mul_left _ (Nat.pow_le_pow_right (by omega) hkj)
      omega

end Writable

/-! ### Copying in -/

theorem toSigned_eq {n : Nat} (hn : n < 2 ^ 63) : toSigned n = n := if_pos hn

theorem length_of_load {b : Buffer} {off n : Nat} {l : List UInt8} (hl : b.load off n = .ok l) :
    l.length = n := by
  unfold Buffer.load at hl
  split_ifs at hl with hn
  · obtain rfl := Except.ok.inj hl
    exact hn.symm
  · cases hd : b.data_ with
    | none => simp [hd] at hl
    | some m =>
      rw [hd, Option.bind_some, Block.load] at hl
      split_ifs at hl
      · obtain rfl := Except.ok.inj hl
        simp
      · simp at hl

theorem length_of_fetch {b : Buffer} {data : Source} {n : Nat} {l : List UInt8}
    (hl : b.fetch data n = .ok l) : l.length = n := by
  unfold fetch at hl
  cases data with
  | bytes l' =>
    simp only at hl
    split_ifs at hl with hn
    obtain rfl := Except.ok.inj hl
    simp
    omega
  | other m off =>
    cases hm : m.bind fun m => m.load off n with
    | none => simp [hm] at hl
    | some l' =>
      simp only [hm, Except.ok.injEq] at hl
      subst hl
      obtain ⟨m', -, hload⟩ := Option.bind_eq_some_iff.mp hm
      unfold Block.load at hload
      split_ifs at hload
      obtain rfl := Option.some.inj hload
      simp
  | own base off =>
    simp only at hl
    split_ifs at hl
    exact length_of_load hl

/-- The readable bytes of another buffer. -/
theorem WellFormed.fetch_rPtr {b : Buffer} (h : b.WellFormed) (c : Buffer) :
    b.readableBytes = 0 ∨ c.fetch b.rPtr b.readableBytes = .ok b.readable := by
  have hw := h.w_le_length
  have hrw := h.r_le_w
  rw [h.readableBytes_eq]
  by_cases hzero : b.w_idx_ - b.r_idx_ = 0
  · exact Or.inl hzero
  · right
    obtain ⟨m, hm, hsize⟩ := h.exists_data (by omega)
    unfold fetch rPtr readable
    simp only [hm, Option.bind_some]
    rw [Block.load_eq_some _ (by omega)]

/-- The buffer's own readable bytes: nothing has moved, and they end where the copy begins. -/
theorem WellFormed.fetch_ownRPtr {b : Buffer} (h : b.WellFormed) :
    b.fetch b.ownRPtr b.readableBytes = .ok b.readable := by
  have hrw := h.r_le_w
  unfold fetch ownRPtr
  rw [h.readableBytes_eq]
  have hover : ¬ (b.r_idx_ < b.w_idx_ + (b.w_idx_ - b.r_idx_) ∧
      b.w_idx_ < b.r_idx_ + (b.w_idx_ - b.r_idx_)) := by omega
  simp only [ne_eq, not_true_eq_false, if_false, hover]
  exact h.load_readable

section Room

variable {b : Buffer} (h : b.WellFormed) {data : Source} {l : List UInt8}

include h

theorem WellFormed.memcpy_eq (hroom : b.w_idx_ + l.length ≤ b.length_)
    (hfetch : l.length = 0 ∨ b.fetch data l.length = .ok l) :
    b.memcpy data l.length = .ok { b.written l with w_idx_ := b.w_idx_ } := by
  unfold memcpy
  by_cases hzero : l.length = 0
  · have hnil := List.length_eq_zero_iff.mp hzero
    subst hnil
    simp [Buffer.written]
  · rw [if_neg hzero, hfetch.resolve_left hzero]
    exact h.store_eq hroom

theorem WellFormed.memcpy_error (data : Source) {size : Nat} (hroom : b.length_ < b.w_idx_ + size) :
    ∃ e, b.memcpy data size = .error e := by
  have hw := h.w_le_length
  have hzero : size ≠ 0 := by omega
  unfold memcpy
  rw [if_neg hzero]
  cases hf : b.fetch data size with
  | error e => exact ⟨e, rfl⟩
  | ok l =>
    have hlen := length_of_fetch hf
    have hnil : l ≠ [] := by
      rintro rfl
      exact hzero hlen.symm
    exact ⟨_, h.store_error (by omega) hnil⟩

/-- Appending where there is room. -/
theorem WellFormed.append_room (hroom : b.w_idx_ + l.length ≤ b.length_)
    (hfetch : l.length = 0 ∨ b.fetch data l.length = .ok l) (capped drop : Bool) (alloc : Alloc) :
    b.append data l.length capped drop alloc = .ok (b.written l, toSigned l.length) := by
  have hlt := h.length_lt
  have hwrap : wrap64 (b.w_idx_ + l.length) = b.w_idx_ + l.length := Nat.mod_eq_of_lt (by omega)
  unfold append
  rw [h.ensureWritable_room hroom]
  simp only [bind, Except.bind, Bool.not_true, Bool.false_eq_true, if_false]
  rw [h.memcpy_eq hroom hfetch]
  simp only [hwrap]
  rfl

end Room

section Append

variable {b : Buffer} (h : b.WellFormed) {data : Source} {size : Nat} {drop : Bool} {alloc : Alloc}
  (hreq : b.w_idx_ - b.r_idx_ + size < 2 ^ 63) (halloc : ∀ n, alloc n ≠ none)

include h hreq halloc

/-- **`Append`** adds the bytes at the end, unless growth overruns. -/
theorem WellFormed.append_ok {l : List UInt8} (hl : l.length = size)
    (hfetch : ∀ c : Buffer, l.length = 0 ∨ c.fetch data l.length = .ok l)
    (ho : ¬ b.Overruns size drop) :
    ∃ c, b.append data size false drop alloc = .ok (c, toSigned size) ∧ c.WellFormed ∧
      c.readable = b.readable ++ l := by
  subst hl
  obtain ⟨c, hc, hready, hroom, -⟩ := h.ensureWritable_ready drop hreq halloc
  have hroom := hroom ho
  have hwf := hready.wellFormed
  have happend := hwf.append_room hroom (hfetch c) false drop alloc
  refine ⟨c.written l, ?_, hwf.written hroom, ?_⟩
  · unfold append at happend ⊢
    rw [hwf.ensureWritable_room hroom] at happend
    rw [hc]
    exact happend
  · rw [hwf.readable_written hroom, hready.readable]

/-- An `Append` whose growth overruns copies outside the block. -/
theorem WellFormed.append_error (data : Source) (ho : b.Overruns size drop) :
    ∃ e, b.append data size false drop alloc = .error e := by
  obtain ⟨c, hc, hready, -, hover⟩ := h.ensureWritable_ready drop hreq halloc
  obtain ⟨e, he⟩ := hready.wellFormed.memcpy_error data (hover ho).1
  refine ⟨e, ?_⟩
  unfold append
  rw [hc]
  simp only [bind, Except.bind, Bool.not_true, Bool.false_eq_true, if_false]
  rw [he]

end Append


/-- What `Append` without `drop_read_bytes` does on a buffer whose readable bytes are at the front: the
growth never ends, there is no memory, or the bytes have been added. -/
inductive AppendedFront (b : Buffer) (l : List UInt8) : Except Fault (Buffer × Int) → Prop
  | diverge : AppendedFront b l (.error .diverge)
  | noMemory : AppendedFront b l (.ok (b, -1))
  | appended {c : Buffer} (hwf : c.WellFormed) (hr : c.r_idx_ = 0) (hlen : c.length_ < 2 ^ 63)
      (hread : c.readable = b.readable ++ l) : AppendedFront b l (.ok (c, l.length))

/-- Growth is only right for readable bytes at the front: there it leaves room for all the bytes. -/
theorem WellFormed.append_front {b : Buffer} (h : b.WellFormed) (hr : b.r_idx_ = 0)
    (hlen : b.length_ < 2 ^ 63) {l : List UInt8} (hl : l.length < 2 ^ 63) {alloc : Alloc}
    (halloc : ∀ n, 2 ^ 63 ≤ n → alloc n = none) :
    AppendedFront b l (b.append (.bytes l) l.length false false alloc) := by
  have hw := h.w_le_length
  have hfetch : ∀ c : Buffer, l.length = 0 ∨ c.fetch (.bytes l) l.length = .ok l := by
    intro c
    simp [fetch]
  -- where there is room in `c`, the rest is one copy
  have happend : ∀ c : Buffer, c.WellFormed → c.r_idx_ = 0 → c.length_ < 2 ^ 63 →
      c.readable = b.readable → c.w_idx_ + l.length ≤ c.length_ →
      b.ensureWritable l.length false false alloc = .ok (c, true) →
      AppendedFront b l (b.append (.bytes l) l.length false false alloc) := by
    intro c hwf hzero hlt hread hroom hc
    have heq : b.append (.bytes l) l.length false false alloc =
        c.append (.bytes l) l.length false false alloc := by
      unfold append
      rw [hc, hwf.ensureWritable_room hroom]
    rw [heq, hwf.append_room hroom (hfetch c), toSigned_eq hl]
    refine .appended (hwf.written hroom) hzero hlt ?_
    rw [hwf.readable_written hroom, hread]
  have hcases : Ensured b l.length false alloc _ := h.ensureWritable_cases false alloc (by omega)
  generalize hres : b.ensureWritable l.length false false alloc = r at hcases
  cases hcases with
  | room hroom => exact happend b h hr hlen rfl hroom hres
  | compact _ hdrop => cases hdrop
  | diverge =>
    unfold append
    rw [hres, error_bind]
    exact .diverge
  | noMemory =>
    unfold append
    rw [hres, ok_bind]
    exact .noMemory
  | @grow n c hroom _ hn ha hg =>
    obtain ⟨hle, htarget, -⟩ := le_nextPowOfTwo hn
    have hlt : n < 2 ^ 63 := by
      by_contra hbig
      exact ha (halloc n (by omega))
    refine happend c (hg.wellFormed h hle (by omega)) (hg.r_idx_.trans hr) ?_ (hg.readable h) ?_ hres
    · rw [hg.length_]
      exact hlt
    · rw [hg.length_, hg.w_idx_]
      omega

/-- `AppendBasic` is `Append` of the object representation. -/
theorem appendBasic_eq_append (b : Buffer) {v : List UInt8} (hv : v.length < 2 ^ 63)
    (capped drop : Bool) (alloc : Alloc) :
    b.appendBasic v capped drop alloc = b.append (.bytes v) v.length capped drop alloc := by
  have hmemcpy : ∀ c : Buffer, c.memcpy (.bytes v) v.length = c.store c.w_idx_ v := by
    intro c
    unfold memcpy fetch
    by_cases hzero : v.length = 0
    · rw [if_pos hzero, List.length_eq_zero_iff.mp hzero]
      rfl
    · simp only [hzero, if_false, Nat.lt_irrefl, List.take_length]
      rfl
  unfold appendBasic append
  simp only [hmemcpy, toSigned_eq hv]

/-! ### Appending a buffer -/

/-- Whether the second `ensureWritable` of `Append(buffer)` overruns: compaction helps then even
where growth has overrun. -/
theorem Ready.overruns_iff {b c : Buffer} (h : b.WellFormed) {size : Nat} {drop : Bool}
    (hc : Ready b size c) (hroom : ¬ b.Overruns size drop → c.w_idx_ + size ≤ c.length_)
    (hover : b.Overruns size drop → c.length_ < c.w_idx_ + size) :
    c.Overruns size drop ↔ drop = false ∧ b.Overruns size false := by
  by_cases ho : b.Overruns size drop
  · have hfits := hc.fits
    rw [← hc.used_eq h] at hfits
    rw [hc.wellFormed.overruns_of_fits (hover ho) hfits]
    constructor
    · rintro rfl
      exact ⟨rfl, ho⟩
    · exact fun hd => hd.1
  · apply iff_of_false (not_overruns_of_room (hroom ho))
    rintro ⟨rfl, ho'⟩
    exact ho ho'

section AppendBuffer

variable {b : Buffer} (h : b.WellFormed) (drop : Bool) {alloc alloc' : Alloc}
  (halloc : ∀ n, alloc n ≠ none) (halloc' : ∀ n, alloc' n ≠ none)

include h halloc halloc'

section Other

variable {s : Buffer} (hs : s.WellFormed) (hreq : b.w_idx_ - b.r_idx_ + s.readableBytes < 2 ^ 63)

include hs hreq

/-- The two stages of `Append(buffer)` and `Transfer(from)`: the room asked for first, and the copy,
which succeeds unless growth overruns with `drop_read_bytes` off. -/
theorem WellFormed.appendOther :
    ∃ c, b.ensureWritable s.readableBytes false drop alloc = .ok (c, true) ∧
      (¬ (drop = false ∧ b.Overruns s.readableBytes false) →
        ∃ d, c.append s.rPtr s.readableBytes false drop alloc' =
            .ok (d, toSigned s.readableBytes) ∧ d.WellFormed ∧
          d.readable = b.readable ++ s.readable) ∧
      (drop = false ∧ b.Overruns s.readableBytes false →
        ∃ e, c.append s.rPtr s.readableBytes false drop alloc' = .error e) := by
  obtain ⟨c, hc, hready, hroom, hover⟩ := h.ensureWritable_ready drop hreq halloc
  have hiff := hready.overruns_iff h hroom fun ho => (hover ho).1
  have hlen : s.readable.length = s.readableBytes := by
    rw [hs.length_readable, hs.readableBytes_eq]
  rw [← hready.used_eq h] at hreq
  refine ⟨c, hc, fun ho => ?_, fun ho => ?_⟩
  · rw [← hready.readable]
    refine hready.wellFormed.append_ok hreq halloc' hlen (fun d => ?_) (fun ho' => ho (hiff.mp ho'))
    rw [hlen]
    exact hs.fetch_rPtr d
  · exact hready.wellFormed.append_error hreq halloc' _ (hiff.mpr ho)

/-- **`Append(buffer)`** adds the other buffer's readable bytes at the end, unless growth overruns
with `drop_read_bytes` off. -/
theorem WellFormed.appendBuffer_other :
    (¬ (drop = false ∧ b.Overruns s.readableBytes false) →
        ∃ d, b.appendBuffer (some s) false drop alloc alloc' =
            .ok (d, toSigned s.readableBytes) ∧ d.WellFormed ∧
          d.readable = b.readable ++ s.readable) ∧
      (drop = false ∧ b.Overruns s.readableBytes false →
        ∃ e, b.appendBuffer (some s) false drop alloc alloc' = .error e) := by
  obtain ⟨c, hc, hok, herr⟩ := h.appendOther drop halloc halloc' hs hreq
  have heq : b.appendBuffer (some s) false drop alloc alloc'
      = c.append s.rPtr s.readableBytes false drop alloc' := by
    unfold appendBuffer
    dsimp only [Option.getD_some]
    rw [hc, ok_bind]
    dsimp only
    rw [if_neg (by decide)]
  rw [heq]
  exact ⟨hok, herr⟩

omit halloc halloc' hs hreq h in
/-- A buffer whose readable bytes have all been consumed. -/
theorem WellFormed.drained (hs : s.WellFormed) :
    WellFormed { s with r_idx_ := s.w_idx_ } ∧ readable { s with r_idx_ := s.w_idx_ } = [] := by
  refine ⟨⟨Nat.le_refl _, hs.w_le_length, hs.length_lt, hs.size, hs.null, hs.deleter⟩, ?_⟩
  unfold readable
  cases s.data_ <;> simp

/-- **`Transfer(from)`** moves all readable bytes of the other buffer, unless growth overruns with
`drop_read_bytes` off. -/
theorem WellFormed.transfer_other (hsize : s.readableBytes < 2 ^ 63) :
    (¬ (drop = false ∧ b.Overruns s.readableBytes false) →
        ∃ d s', b.transfer s false drop alloc alloc' = .ok (d, s', toSigned s.readableBytes) ∧
          d.WellFormed ∧ d.readable = b.readable ++ s.readable ∧ s'.WellFormed ∧
          s'.readable = []) ∧
      (drop = false ∧ b.Overruns s.readableBytes false →
        ∃ e, b.transfer s false drop alloc alloc' = .error e) := by
  obtain ⟨c, hc, hok, herr⟩ := h.appendOther drop halloc halloc' hs hreq
  unfold transfer
  dsimp only
  rw [hc, ok_bind]
  dsimp only
  rw [if_neg (by decide)]
  have hw := hs.w_lt
  have hrw := hs.r_le_w
  have hbytes := hs.readableBytes_eq
  constructor
  · intro ho
    obtain ⟨d, hd, hwf, hread⟩ := hok ho
    rw [hd, ok_bind]
    dsimp only
    rw [toSigned_eq hsize]
    by_cases hzero : s.readableBytes = 0
    · rw [if_neg (by omega)]
      refine ⟨d, s, rfl, hwf, hread, hs, ?_⟩
      have hlen := hs.length_readable
      exact List.length_eq_zero_iff.mp (by omega)
    · have hpos : (0 : Int) < s.readableBytes := by omega
      have hr : wrap64 (s.r_idx_ + s.readableBytes) = s.w_idx_ := by
        unfold wrap64
        omega
      rw [if_pos hpos, Int.toNat_natCast, hr]
      exact ⟨d, _, rfl, hwf, hread, hs.drained⟩
  · intro ho
    obtain ⟨e, he⟩ := herr ho
    exact ⟨e, by rw [he, error_bind]⟩

end Other

section Self

variable (hreq : b.w_idx_ - b.r_idx_ + b.readableBytes < 2 ^ 63)

include hreq

/-- The two stages of `Append(*this)` and `Transfer(*this)`: the copy succeeds unless growth
overruns.  Compaction does not help, since the source pointer was taken before it. -/
theorem WellFormed.appendSelf :
    ∃ c, b.ensureWritable b.readableBytes false drop alloc = .ok (c, true) ∧
      (¬ b.Overruns b.readableBytes drop → c.WellFormed ∧ c.readable = b.readable ∧
        c.w_idx_ + c.readable.length ≤ c.length_ ∧
        c.append c.ownRPtr b.readableBytes false drop alloc' =
            .ok (c.written c.readable, toSigned b.readableBytes)) ∧
      (b.Overruns b.readableBytes drop →
        ∃ e, c.append c.ownRPtr b.readableBytes false drop alloc' = .error e) := by
  obtain ⟨c, hc, hready, hroom, hover⟩ := h.ensureWritable_ready drop hreq halloc
  have hwf := hready.wellFormed
  have hused := hready.used_eq h
  have hbytes := h.readableBytes_eq
  have hlen : c.readable.length = b.readableBytes := by
    rw [hready.readable, h.length_readable, hbytes]
  refine ⟨c, hc, fun ho => ?_, fun ho => ?_⟩
  · have hroom := hroom ho
    rw [← hlen] at hroom ⊢
    refine ⟨hwf, hready.readable, hroom, hwf.append_room hroom (Or.inr ?_) false drop alloc'⟩
    rw [hwf.length_readable, ← hwf.readableBytes_eq]
    exact hwf.fetch_ownRPtr
  · obtain ⟨hsmall, hw⟩ := hover ho
    have hfits := hready.fits
    cases drop with
    | false =>
      have ho' : c.Overruns b.readableBytes false :=
        (hwf.overruns_of_fits hsmall (by omega)).mpr rfl
      exact hwf.append_error (by omega) halloc' _ ho'
    | true =>
      -- the bytes have moved to the front and the copy reads where they were
      have hfull := ho.1 rfl
      have hwlen := h.w_le_length
      have hrw := hwf.r_le_w
      have hbase : c.compacted.data_.map Block.addr = c.data_.map Block.addr := by
        cases hd : c.data_ <;> simp [Buffer.compacted, hd]
      have hfetch : c.compacted.fetch c.ownRPtr b.readableBytes = .error .overlap := by
        have hoverlap : c.r_idx_ < c.compacted.w_idx_ + b.readableBytes ∧
            c.compacted.w_idx_ < c.r_idx_ + b.readableBytes := by
          simp only [Buffer.compacted, hlen]
          omega
        unfold fetch ownRPtr
        dsimp only
        rw [if_neg (not_not.mpr hbase), if_pos hoverlap]
      refine ⟨.overlap, ?_⟩
      unfold append memcpy
      rw [hwf.ensureWritable_compact hsmall (by omega), ok_bind]
      dsimp only
      rw [if_neg (by decide), if_neg (by omega), hfetch]
      rfl

/-- **`Append(*this)`** doubles the readable bytes, unless growth overruns. -/
theorem WellFormed.appendBuffer_self :
    (¬ b.Overruns b.readableBytes drop →
        ∃ d, b.appendBuffer none false drop alloc alloc' = .ok (d, toSigned b.readableBytes) ∧
          d.WellFormed ∧ d.readable = b.readable ++ b.readable) ∧
      (b.Overruns b.readableBytes drop →
        ∃ e, b.appendBuffer none false drop alloc alloc' = .error e) := by
  obtain ⟨c, hc, hok, herr⟩ := h.appendSelf drop halloc halloc' hreq
  have heq : b.appendBuffer none false drop alloc alloc'
      = c.append c.ownRPtr b.readableBytes false drop alloc' := by
    unfold appendBuffer
    dsimp only [Option.getD_none]
    rw [hc, ok_bind]
    dsimp only
    rw [if_neg (by decide)]
  rw [heq]
  refine ⟨fun ho => ?_, herr⟩
  obtain ⟨hwf, hread, hroom, hd⟩ := hok ho
  refine ⟨_, hd, hwf.written hroom, ?_⟩
  rw [hwf.readable_written hroom, hread]

omit h halloc halloc' hreq in
/-- Consuming the first `n` readable bytes. -/
theorem WellFormed.advance (h : b.WellFormed) {n : Nat} (hn : n ≤ b.w_idx_ - b.r_idx_) :
    WellFormed { b with r_idx_ := b.r_idx_ + n } ∧
      readable { b with r_idx_ := b.r_idx_ + n } = b.readable.drop n := by
  have hrw := h.r_le_w
  refine ⟨⟨?_, h.w_le_length, h.length_lt, h.size, h.null, h.deleter⟩, ?_⟩
  · simp only
    omega
  · unfold readable
    cases hd : b.data_ with
    | none => simp
    | some m =>
      have hsub : b.w_idx_ - (b.r_idx_ + n) = b.w_idx_ - b.r_idx_ - n := by omega
      simp only [hsub]
      rw [Block.drop_slice _ hn]

/-- **`Transfer(*this)`** leaves the readable bytes as they are, unless growth overruns. -/
theorem WellFormed.transferSelf_spec (hsize : b.readableBytes < 2 ^ 63) :
    (¬ b.Overruns b.readableBytes drop →
        ∃ d, b.transferSelf false drop alloc alloc' = .ok (d, toSigned b.readableBytes) ∧
          d.WellFormed ∧ d.readable = b.readable) ∧
      (b.Overruns b.readableBytes drop →
        ∃ e, b.transferSelf false drop alloc alloc' = .error e) := by
  obtain ⟨c, hc, hok, herr⟩ := h.appendSelf drop halloc halloc' hreq
  unfold transferSelf
  dsimp only
  rw [hc, ok_bind]
  dsimp only
  rw [if_neg (by decide)]
  constructor
  · intro ho
    obtain ⟨hwf, hread, hroom, hd⟩ := hok ho
    have hlen : c.readable.length = b.readableBytes := by
      rw [hread, h.length_readable, h.readableBytes_eq]
    have hwf' := hwf.written hroom
    have hread' := hwf.readable_written hroom
    rw [hd, ok_bind]
    dsimp only
    rw [toSigned_eq hsize]
    by_cases hzero : b.readableBytes = 0
    · rw [if_neg (by omega)]
      have hnil : c.readable = [] := List.length_eq_zero_iff.mp (by omega)
      refine ⟨_, rfl, hwf', ?_⟩
      rw [hread', hnil, ← hread, hnil, List.append_nil]
    · have hlt := hwf'.w_lt
      have hrw := hwf'.r_le_w
      have hle : b.readableBytes ≤ (c.written c.readable).w_idx_ - (c.written c.readable).r_idx_ := by
        rw [← hwf'.length_readable, hread', List.length_append]
        omega
      have hwrap : wrap64 ((c.written c.readable).r_idx_ + b.readableBytes)
          = (c.written c.readable).r_idx_ + b.readableBytes := Nat.mod_eq_of_lt (by omega)
      obtain ⟨hadv, hadv'⟩ := hwf'.advance hle
      rw [if_pos (by omega), Int.toNat_natCast, hwrap]
      refine ⟨_, rfl, hadv, ?_⟩
      rw [hadv', hread', ← hlen, List.drop_left, hread]
  · intro ho
    obtain ⟨e, he⟩ := herr ho
    exact ⟨e, by rw [he, error_bind]⟩

end Self

end AppendBuffer

/-! ### Reading -/

section Read

variable {b : Buffer} (h : b.WellFormed)

include h

/-- The first readable bytes can be copied out. -/
theorem WellFormed.load_front {n : Nat} (hn : n ≤ b.readable.length) :
    b.load b.r_idx_ n = .ok (b.readable.take n) := by
  have hw := h.w_le_length
  have hrw := h.r_le_w
  rw [h.length_readable] at hn
  rw [h.load_eq (by omega)]
  unfold readable
  cases b.data_ with
  | none => simp
  | some m => simp [Block.take_slice _ hn]

theorem WellFormed.consumed_spec {n : Nat} (hn : n ≤ b.readable.length) (always : Bool) :
    ∃ c, consumed { b with r_idx_ := b.r_idx_ + n } always = .ok c ∧ c.WellFormed ∧
      c.readable = b.readable.drop n ∧ (always = true → c.r_idx_ = 0) ∧
      c.length_ = b.length_ := by
  obtain ⟨hwf, hread⟩ := h.advance (h.length_readable ▸ hn)
  unfold consumed
  split_ifs with hc
  · refine ⟨_, hwf.rearrange_eq, hwf.compacted, ?_, fun _ => rfl, rfl⟩
    rw [readable_compacted, hread]
  · exact ⟨_, rfl, hwf, hread, fun ha => absurd (Or.inr ha) hc, rfl⟩

theorem WellFormed.wrap_advance {n : Nat} (hn : n ≤ b.readable.length) :
    wrap64 (b.r_idx_ + n) = b.r_idx_ + n := by
  have hlt := h.w_lt
  have hrw := h.r_le_w
  rw [h.length_readable] at hn
  exact Nat.mod_eq_of_lt (by omega)

/-- **`Retrieve`** drops readable bytes from the front. -/
theorem WellFormed.retrieve_spec {n : Nat} (hn : n ≤ b.readable.length) (always : Bool) :
    ∃ c, b.retrieve n always = .ok c ∧ c.WellFormed ∧ c.readable = b.readable.drop n ∧
      (always = true → c.r_idx_ = 0) ∧ c.length_ = b.length_ := by
  have hmin : min (b.r_idx_ + n) b.w_idx_ = b.r_idx_ + n := by
    have hrw := h.r_le_w
    rw [h.length_readable] at hn
    omega
  unfold retrieve
  rw [h.wrap_advance hn, hmin]
  exact h.consumed_spec hn always

/-- **`Read`** copies the readable bytes out from the front and drops them. -/
theorem WellFormed.read_spec (hlen : b.readable.length < 2 ^ 63) (size : Nat) (always : Bool) :
    ∃ c ret, b.read size always = .ok (c, ret, b.readable.take size) ∧ c.WellFormed ∧
      c.readable = b.readable.drop size := by
  unfold Buffer.read
  by_cases hd : b.data_ = none
  · have hnil : b.readable = [] := by simp [readable, hd]
    exact ⟨b, -1, by simp [hd, hnil], h, by simp [hnil]⟩
  have hbytes : b.readableBytes = b.readable.length := by
    rw [h.readableBytes_eq, h.length_readable]
  have hmin : min (size : Int) (toSigned b.readableBytes) = (min size b.readable.length : Nat) := by
    rw [hbytes, toSigned_eq hlen]
    omega
  have hn : min size b.readable.length ≤ b.readable.length := Nat.min_le_right _ _
  have htake : b.readable.take (min size b.readable.length) = b.readable.take size :=
    List.take_eq_take_min.symm
  have hdrop : b.readable.drop (min size b.readable.length) = b.readable.drop size := by
    rcases Nat.le_total size b.readable.length with hle | hle
    · rw [Nat.min_eq_left hle]
    · rw [Nat.min_eq_right hle, List.drop_length, List.drop_eq_nil_of_le hle]
  obtain ⟨c, hc, hwf, hread, -⟩ := h.consumed_spec hn always
  refine ⟨c, (min size b.readable.length : Nat), ?_, hwf, hread.trans hdrop⟩
  dsimp only
  rw [if_neg (by simpa using hd), hmin, if_neg (by omega), Int.toNat_natCast, h.load_front hn,
    ok_bind, h.wrap_advance hn, hc, ok_bind, htake]
  rfl

/-- **`ReadBasic`** copies `size` readable bytes out from the front and drops them, if there are
that many. -/
theorem WellFormed.readBasic_spec (hlen : b.readable.length < 2 ^ 63) (size : Nat) :
    (size ≤ b.readable.length → b.data_ ≠ none →
        ∃ c, b.readBasic size = .ok (c, some (b.readable.take size)) ∧ c.WellFormed ∧
          c.readable = b.readable.drop size) ∧
      (b.readable.length < size ∨ b.data_ = none → b.readBasic size = .ok (b, none)) := by
  have hbytes : b.readableBytes = b.readable.length := by
    rw [h.readableBytes_eq, h.length_readable]
  unfold readBasic
  rw [hbytes, toSigned_eq hlen]
  constructor
  · intro hn hd
    obtain ⟨hwf, hread⟩ := h.advance (h.length_readable ▸ hn)
    rw [if_neg (by simpa using hd), if_neg (by omega), h.load_front hn, ok_bind, h.wrap_advance hn]
    exact ⟨_, rfl, hwf, hread⟩
  · rintro (hn | hd)
    · rw [if_pos (show (b.readable.length : Int) < size by omega)]
      split_ifs <;> rfl
    · rw [hd]
      rfl

end Read

end Buffer

end Lizlib
