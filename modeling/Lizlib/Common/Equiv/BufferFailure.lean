import Lizlib.Common.Equiv.BufferGrowth

/-!
# Failed operations

An operation on a buffer that returns a negative value has not appended or consumed anything, but
it may have compacted or grown the buffer before it failed.

* `InOrder.ensureWritable_keeps`: whether there is memory or not, `ensureWritable` keeps the
  readable bytes.
* `InOrder.failed_keeps`: a failed operation keeps the readable bytes of the buffer and of the buffer
  it takes its bytes from.
-/

namespace Lizlib

namespace Buffer

/-- `RIndex() ≤ WIndex() ≤ length_`, inside the block, if there is one. -/
structure InOrder (b : Buffer) : Prop where
  r_le_w : b.r_idx_ ≤ b.w_idx_
  w_le_length : b.w_idx_ ≤ b.length_
  length_lt : b.length_ < 2 ^ 64
  size : ∀ m, b.data_ = some m → m.size = b.length_
  null : b.data_ = none → b.w_idx_ = 0

/-! ### Making room -/

section InOrder

variable {b c : Buffer} (h : b.InOrder)

include h

theorem InOrder.readableBytes_eq : b.readableBytes = b.w_idx_ - b.r_idx_ := by
  have hrw := h.r_le_w
  have hw := h.w_le_length
  have hlt := h.length_lt
  unfold readableBytes sub64
  omega

theorem InOrder.length_readable : b.readable.length = b.w_idx_ - b.r_idx_ := by
  unfold readable
  cases hd : b.data_ with
  | none =>
    have hw := h.null hd
    show 0 = b.w_idx_ - b.r_idx_
    omega
  | some m => exact Block.length_slice m

theorem InOrder.reset : b.reset.InOrder :=
  ⟨Nat.le_refl _, Nat.zero_le _, h.length_lt, h.size, fun _ => rfl⟩

/-- **Compaction** keeps the readable bytes. -/
theorem InOrder.rearrange_keeps (hc : b.rearrange = .ok c) :
    c.InOrder ∧ c.readable = b.readable := by
  have hrw := h.r_le_w
  have hw := h.w_le_length
  have hlen := h.length_readable
  unfold rearrange at hc
  rw [h.readableBytes_eq] at hc
  dsimp only at hc
  by_cases hzero : b.w_idx_ - b.r_idx_ = 0
  · rw [if_pos hzero] at hc
    obtain rfl := Except.ok.inj hc
    have hnil : b.readable = [] := List.length_eq_zero_iff.mp (by omega)
    exact ⟨h.reset, by rw [readable_reset, hnil]⟩
  rw [if_neg hzero] at hc
  cases hd : b.data_ with
  | none =>
    have hnull := h.null hd
    omega
  | some m =>
    have hsize := h.size m hd
    have hread : b.readable = m.slice b.r_idx_ (b.w_idx_ - b.r_idx_) := by
      unfold readable
      rw [hd]
    have hnil : b.readable ≠ [] := by
      rw [← List.length_pos_iff]
      omega
    have hload : b.load b.r_idx_ (b.w_idx_ - b.r_idx_) = .ok b.readable := by
      unfold load
      rw [if_neg hzero, hd, Option.bind_some, Block.load_eq_some _ (by omega), hread]
      rfl
    have hstore : b.store 0 b.readable = .ok { b with data_ := some (m.write 0 b.readable) } := by
      unfold store
      rw [if_neg hnil, hd, Option.bind_some, Block.store_eq_some _ (by omega)]
      rfl
    rw [hload, ok_bind, hstore, ok_bind] at hc
    obtain rfl := Except.ok.inj hc
    constructor
    · refine ⟨Nat.zero_le _, ?_, h.length_lt, ?_, fun hnone => by cases hnone⟩
      · show b.w_idx_ - b.r_idx_ ≤ b.length_
        omega
      · intro m' hm'
        obtain rfl := Option.some.inj hm'
        exact hsize
    · show (m.write 0 b.readable).slice 0 (b.w_idx_ - b.r_idx_) = b.readable
      rw [← hlen, Block.slice_write_self]

/-- **Growth** keeps the readable bytes. -/
theorem InOrder.newBlock_keeps {n addr : Nat} {cells : Nat → UInt8} {m : Block UInt8}
    (hle : b.length_ ≤ n) (hlt : n < 2 ^ 64) (hm : b.newBlock n addr cells = .ok m) :
    InOrder { b with data_ := some m, length_ := n } ∧
      readable { b with data_ := some m, length_ := n } = b.readable := by
  obtain ⟨m', hm', hsize, hcells⟩ := newBlock_spec h.size hle addr cells
  obtain rfl : m' = m := Except.ok.inj (hm'.symm.trans hm)
  have hw := h.w_le_length
  refine ⟨⟨h.r_le_w, Nat.le_trans hw hle, hlt, ?_, fun hnone => by cases hnone⟩, ?_⟩
  · intro m'' hm''
    obtain rfl := Option.some.inj hm''
    exact hsize
  · unfold readable
    dsimp only
    cases hd : b.data_ with
    | none =>
      have hzero : b.w_idx_ - b.r_idx_ = 0 := by
        rw [h.null hd]
        omega
      rw [hzero, Block.slice_zero]
    | some m₀ =>
      apply Block.slice_congr
      intro i hi
      exact hcells m₀ hd _ (by omega)

/-- **`ensureWritable`** keeps the readable bytes, whether it succeeds or not. -/
theorem InOrder.ensureWritable_keeps {n : Nat} {drop ok : Bool} {alloc : Alloc}
    (hc : b.ensureWritable n false drop alloc = .ok (c, ok)) :
    c.InOrder ∧ c.readable = b.readable := by
  cases ensureWritable_cases hc with
  | kept => exact ⟨h, rfl⟩
  | compact hd => exact h.rearrange_keeps hd
  | grown hn hm =>
    rw [if_neg Bool.false_ne_true] at hn
    -- the new length is a power of two below `2^64`, and no smaller than the old one
    obtain ⟨hle, -, hlt⟩ := le_nextPowOfTwo hn
    exact h.newBlock_keeps hle (hlt h.length_lt) hm

end InOrder

/-! ### The operations -/

/-- An operation that may fail, with `capped=false`. -/
inductive Op where
  /-- `Append(data, size)` -/
  | append (data : Source) (size : Nat)
  /-- `AppendBasic(v)` -/
  | appendBasic (v : List UInt8)
  /-- `Append(slice)` -/
  | appendSlice (slice : Slice)
  /-- `Append(file, read_bytes)` -/
  | appendFile (page : Nat) (file : FileRead) (read_bytes : Nat)
  /-- `Append(buffer)`, where `none` stands for `*this`. -/
  | appendBuffer (buffer : Option Buffer)
  /-- `Transfer(from)`, where `none` stands for `*this`. -/
  | transfer (source : Option Buffer)
  /-- `Read(file, size)` -/
  | readFile (page : Nat) (size : Int) (written : Option Nat)
  /-- The end of `Read(file, size)`, whatever `writev` has made of its slices. -/
  | writev (ret : Int)

namespace Op

/-- The buffer the bytes come from, where it is another one. -/
def source : Op → Option Buffer
  | appendBuffer buffer => buffer
  | transfer source => source
  | _ => none

/-- Carries the operation out: the buffer, the one the bytes came from, and what is returned. -/
def run (op : Op) (drop_read_bytes : Bool) (alloc alloc' : Alloc) (b : Buffer) :
    Except Fault (Buffer × Option Buffer × Int) :=
  match op with
  | append data size => do
    let (b, ret) ← b.append data size false drop_read_bytes alloc
    return (b, none, ret)
  | appendBasic v => do
    let (b, ret) ← b.appendBasic v false drop_read_bytes alloc
    return (b, none, ret)
  | appendSlice slice => do
    let (b, ret) ← b.appendSlice slice false drop_read_bytes alloc alloc'
    return (b, none, ret)
  | appendFile page file read_bytes => do
    let (b, ret) ← b.appendFile page file read_bytes false drop_read_bytes alloc
    return (b, none, ret)
  | appendBuffer buffer => do
    let (b, ret) ← b.appendBuffer buffer false drop_read_bytes alloc alloc'
    return (b, buffer, ret)
  | transfer none => do
    let (b, ret) ← b.transferSelf false drop_read_bytes alloc alloc'
    return (b, none, ret)
  | transfer (some source) => do
    let (b, source, ret) ← b.transfer source false drop_read_bytes alloc alloc'
    return (b, some source, ret)
  | readFile page size written => do
    let (b, ret) ← b.readFile page size written
    return (b, none, ret)
  | writev ret => .ok (b.wroteOut ret, none, ret)

/-- What is appended is an object of at most `PTRDIFF_MAX` bytes. -/
def Sized (b : Buffer) : Op → Prop
  | append _ size => size < 2 ^ 63
  | appendBuffer buffer => (buffer.getD b).readableBytes < 2 ^ 63
  | transfer source => (source.getD b).readableBytes < 2 ^ 63
  | _ => True

end Op

/-! ### What fails keeps the bytes -/

theorem toSigned_nonneg {n : Nat} (hn : n < 2 ^ 63) : 0 ≤ toSigned n := by
  rw [toSigned_eq hn]
  exact Int.natCast_nonneg n

section Failed

variable {b c : Buffer} (h : b.InOrder) {drop : Bool} {alloc alloc' : Alloc} {ret : Int}

include h

theorem InOrder.append_failed {data : Source} {size : Nat} (hsize : size < 2 ^ 63)
    (hc : b.append data size false drop alloc = .ok (c, ret)) (hneg : ret < 0) :
    c.readable = b.readable := by
  cases append_cases hc with
  | refused hd => exact (h.ensureWritable_keeps hd).2
  | copied =>
    have hnonneg := toSigned_nonneg hsize
    omega

theorem InOrder.appendBasic_failed {v : List UInt8}
    (hc : b.appendBasic v false drop alloc = .ok (c, ret)) (hneg : ret < 0) :
    c.readable = b.readable := by
  unfold appendBasic at hc
  obtain ⟨⟨d, ok⟩, hd, hc⟩ := bind_eq_ok.mp hc
  obtain ⟨-, hread⟩ := h.ensureWritable_keeps hd
  cases ok with
  | false =>
    obtain ⟨rfl, -⟩ := Prod.mk.inj (Except.ok.inj hc)
    exact hread
  | true =>
    obtain ⟨e, -, hc⟩ := bind_eq_ok.mp hc
    obtain ⟨-, rfl⟩ := Prod.mk.inj (Except.ok.inj hc)
    omega

/-- The second `ensureWritable` may fail after the first one has moved the bytes. -/
theorem InOrder.askedTwice_failed {size : Nat} (hsize : size < 2 ^ 63)
    (hc : AskedTwice b size false drop alloc alloc' c ret) (hneg : ret < 0) :
    c.readable = b.readable := by
  cases hc with
  | refused hd => exact (h.ensureWritable_keeps hd).2
  | appended hd hc =>
    obtain ⟨hin, hread⟩ := h.ensureWritable_keeps hd
    rw [hin.append_failed hsize hc hneg, hread]

theorem InOrder.appendSlice_failed {slice : Slice}
    (hc : b.appendSlice slice false drop alloc alloc' = .ok (c, ret)) (hneg : ret < 0) :
    c.readable = b.readable := by
  obtain ⟨d, hd, rfl⟩ := appendSlice_cases hc
  rw [if_neg (by omega)]
  exact h.askedTwice_failed slice.length_lt hd hneg

theorem InOrder.appendBuffer_failed {buffer : Option Buffer}
    (hsize : (buffer.getD b).readableBytes < 2 ^ 63)
    (hc : b.appendBuffer buffer false drop alloc alloc' = .ok (c, ret)) (hneg : ret < 0) :
    c.readable = b.readable :=
  h.askedTwice_failed hsize (appendBuffer_cases hc) hneg

theorem InOrder.transfer_failed {source s' : Buffer} (hsize : source.readableBytes < 2 ^ 63)
    (hc : b.transfer source false drop alloc alloc' = .ok (c, s', ret)) (hneg : ret < 0) :
    c.readable = b.readable ∧ s' = source := by
  obtain ⟨hd, hs'⟩ := transfer_cases hc
  rw [if_neg (by omega)] at hs'
  exact ⟨h.askedTwice_failed hsize hd hneg, hs'⟩

theorem InOrder.transferSelf_failed (hsize : b.readableBytes < 2 ^ 63)
    (hc : b.transferSelf false drop alloc alloc' = .ok (c, ret)) (hneg : ret < 0) :
    c.readable = b.readable := by
  obtain ⟨d, hd, rfl⟩ := transferSelf_cases hc
  rw [if_neg (by omega)]
  exact h.askedTwice_failed hsize hd hneg

theorem InOrder.appendFile_failed {page read_bytes : Nat} {file : FileRead}
    (hc : b.appendFile page file read_bytes false drop alloc = .ok (c, ret)) (hneg : ret < 0) :
    c.readable = b.readable := by
  unfold appendFile at hc
  obtain ⟨⟨d, ok⟩, hd, hc⟩ := bind_eq_ok.mp hc
  obtain ⟨-, hread⟩ := h.ensureWritable_keeps hd
  cases ok with
  | false =>
    obtain ⟨rfl, -⟩ := Prod.mk.inj (Except.ok.inj hc)
    exact hread
  | true =>
    cases hresult : file.result with
    | none =>
      rw [hresult] at hc
      obtain ⟨rfl, -⟩ := Prod.mk.inj (Except.ok.inj hc)
      exact hread
    | some l =>
      rw [hresult] at hc
      obtain ⟨e, -, hc⟩ := bind_eq_ok.mp hc
      obtain ⟨-, rfl⟩ := Prod.mk.inj (Except.ok.inj hc)
      omega

omit h in
theorem wroteOut_failed (hneg : ret < 0) : b.wroteOut ret = b := by
  unfold wroteOut
  rw [if_neg (by omega)]

/-- A `Read(file)` that takes one `write` ends as the vectored one does. -/
theorem InOrder.readFile_eq_wroteOut {page : Nat} {size : Int} {written : Option Nat}
    (hc : b.readFile page size written = .ok (c, ret)) : c = b.wroteOut ret := by
  have hr : wrap64 b.r_idx_ = b.r_idx_ := by
    have hrw := h.r_le_w
    have hw := h.w_le_length
    have hlt := h.length_lt
    exact Nat.mod_eq_of_lt (by omega)
  unfold readFile at hc
  split at hc
  · obtain ⟨rfl, rfl⟩ := Prod.mk.inj (Except.ok.inj hc)
    rfl
  dsimp only at hc
  generalize (if size = -1 then toSigned b.readableBytes
    else min size (toSigned b.readableBytes)) = n at hc
  split_ifs at hc
  obtain ⟨l, -, hc⟩ := bind_eq_ok.mp hc
  cases written with
  | none =>
    obtain ⟨rfl, rfl⟩ := Prod.mk.inj (Except.ok.inj hc)
    rfl
  | some k =>
    obtain ⟨rfl, rfl⟩ := Prod.mk.inj (Except.ok.inj hc)
    unfold wroteOut
    generalize min k n.toNat = count
    cases count with
    | zero =>
      -- `Read` stores `r_idx_ + 0`, where `wroteOut` leaves it alone
      rw [if_neg (by decide), Nat.add_zero, hr]
    | succ count => rw [if_pos (by omega), Int.toNat_natCast]

/-- **A failed operation** keeps the readable bytes of the buffer, and of the one it takes its bytes
from. -/
theorem InOrder.failed_keeps (op : Op) (hsize : op.Sized b) {s' : Option Buffer}
    (hc : op.run drop alloc alloc' b = .ok (c, s', ret)) (hneg : ret < 0) :
    c.readable = b.readable ∧ s'.map readable = op.source.map readable := by
  unfold Op.run at hc
  cases op with
  | append data size =>
    obtain ⟨⟨d, ret'⟩, hd, hc⟩ := bind_eq_ok.mp hc
    obtain ⟨⟩ := Except.ok.inj hc
    exact ⟨h.append_failed hsize hd hneg, rfl⟩
  | appendBasic v =>
    obtain ⟨⟨d, ret'⟩, hd, hc⟩ := bind_eq_ok.mp hc
    obtain ⟨⟩ := Except.ok.inj hc
    exact ⟨h.appendBasic_failed hd hneg, rfl⟩
  | appendSlice slice =>
    obtain ⟨⟨d, ret'⟩, hd, hc⟩ := bind_eq_ok.mp hc
    obtain ⟨⟩ := Except.ok.inj hc
    exact ⟨h.appendSlice_failed hd hneg, rfl⟩
  | appendFile page file read_bytes =>
    obtain ⟨⟨d, ret'⟩, hd, hc⟩ := bind_eq_ok.mp hc
    obtain ⟨⟩ := Except.ok.inj hc
    exact ⟨h.appendFile_failed hd hneg, rfl⟩
  | appendBuffer buffer =>
    obtain ⟨⟨d, ret'⟩, hd, hc⟩ := bind_eq_ok.mp hc
    obtain ⟨⟩ := Except.ok.inj hc
    exact ⟨h.appendBuffer_failed hsize hd hneg, rfl⟩
  | transfer source =>
    cases source with
    | none =>
      obtain ⟨⟨d, ret'⟩, hd, hc⟩ := bind_eq_ok.mp hc
      obtain ⟨⟩ := Except.ok.inj hc
      exact ⟨h.transferSelf_failed hsize hd hneg, rfl⟩
    | some source =>
      obtain ⟨⟨d, s, ret'⟩, hd, hc⟩ := bind_eq_ok.mp hc
      obtain ⟨⟩ := Except.ok.inj hc
      obtain ⟨hread, rfl⟩ := h.transfer_failed hsize hd hneg
      exact ⟨hread, rfl⟩
  | readFile page size written =>
    obtain ⟨⟨d, ret'⟩, hd, hc⟩ := bind_eq_ok.mp hc
    obtain ⟨⟩ := Except.ok.inj hc
    rw [h.readFile_eq_wroteOut hd, wroteOut_failed hneg]
    exact ⟨rfl, rfl⟩
  | writev ret' =>
    obtain ⟨⟩ := Except.ok.inj hc
    rw [wroteOut_failed hneg]
    exact ⟨rfl, rfl⟩

end Failed

theorem WellFormed.inOrder {b : Buffer} (h : b.WellFormed) : b.InOrder := by
  refine ⟨h.r_le_w, h.w_le_length, h.length_lt, h.size, fun hnone => ?_⟩
  have hw := h.w_le_length
  rw [h.null hnone] at hw
  omega

/-- The first `ensureWritable` of a `Transfer` has moved the bytes to a new block when the second one
finds no memory. -/
theorem failed_keeps_halfRead :
    let op := Op.transfer (some halfRead)
    halfRead.InOrder ∧ op.Sized halfRead ∧
      ∃ c s' ret, op.run false (fun _ => some (8, fun _ => 0)) (fun _ => none) halfRead =
          .ok (c, s', ret) ∧ ret < 0 ∧
        c.readable = halfRead.readable ∧ s'.map readable = op.source.map readable := by
  have hin := wellFormed_halfRead.inOrder
  have hsize : (Op.transfer (some halfRead)).Sized halfRead := by
    show halfRead.readableBytes < 2 ^ 63
    decide
  have hret : (match (Op.transfer (some halfRead)).run false (fun _ => some (8, fun _ => 0))
      (fun _ => none) halfRead with
    | .ok (_, _, ret) => decide (ret = -1)
    | .error _ => false) = true := by decide +kernel
  cases hrun : (Op.transfer (some halfRead)).run false (fun _ => some (8, fun _ => 0))
      (fun _ => none) halfRead with
  | error e => simp [hrun] at hret
  | ok r =>
    obtain ⟨c, s', ret⟩ := r
    rw [hrun, decide_eq_true_eq] at hret
    have hneg : ret < 0 := by omega
    exact ⟨hin, hsize, c, s', ret, hrun, hneg, hin.failed_keeps _ hsize hrun hneg⟩

end Buffer

end Lizlib
