import Lizlib.Common.Equiv.Buffer

/-!
# The block of a buffer

Whatever becomes of the indices, an operation that returns leaves a block of `length_` bytes
(`Backed`), so that after `Reset` the buffer is well-formed again (`Backed.reset`).

* `Reshaped`, `Appended`, `AskedTwice`: what an operation has done when it returns.
-/

namespace Lizlib

namespace Buffer

/-- The block of `b` has `length_` bytes. -/
structure Backed (b : Buffer) : Prop where
  length_lt : b.length_ < 2 ^ 64
  size : ∀ m, b.data_ = some m → m.size = b.length_
  null : b.data_ = none → b.length_ = 0
  deleter : b.aligned_ = true → b.deleter_ = true

/-! ### What has been done when an operation returns -/

section Cases

variable {b c : Buffer} {require size : Nat} {data : Source} {capped drop ok : Bool}
  {alloc alloc' : Alloc} {ret : Int}

/-- `ensureWritable` leaves the buffer alone, compacts it, or gives it a new block. -/
inductive Reshaped (b : Buffer) (require : Nat) (capped : Bool) : Buffer → Bool → Prop
  | kept {ok : Bool} : Reshaped b require capped b ok
  | compact {c : Buffer} (hc : b.rearrange = .ok c) : Reshaped b require capped c true
  | grown {n addr : Nat} {cells : Nat → UInt8} {m : Block UInt8}
      (hn : (if capped = true then some (wrap64 (b.readableBytes + require))
        else nextPowOfTwo b.length_ (wrap64 (b.readableBytes + require))) = some n)
      (hm : b.newBlock n addr cells = .ok m) :
      Reshaped b require capped { b with data_ := some m, length_ := n } true

theorem ensureWritable_cases (hc : b.ensureWritable require capped drop alloc = .ok (c, ok)) :
    Reshaped b require capped c ok := by
  unfold Buffer.ensureWritable at hc
  dsimp only at hc
  by_cases hroom : require = 0 ∨ require ≤ b.writableBytes
  · rw [if_pos hroom] at hc
    obtain ⟨rfl, rfl⟩ := Prod.mk.inj (Except.ok.inj hc)
    exact .kept
  rw [if_neg hroom] at hc
  by_cases hfit : drop = true ∧ require ≤ sub64 b.length_ b.readableBytes
  · rw [if_pos hfit] at hc
    obtain ⟨d, hd, hc⟩ := bind_eq_ok.mp hc
    obtain ⟨rfl, rfl⟩ := Prod.mk.inj (Except.ok.inj hc)
    exact .compact hd
  rw [if_neg hfit] at hc
  cases hn : (if capped = true then some (wrap64 (b.readableBytes + require))
      else nextPowOfTwo b.length_ (wrap64 (b.readableBytes + require))) with
  | none =>
    rw [hn] at hc
    cases hc
  | some n =>
    rw [hn] at hc
    dsimp only at hc
    split_ifs at hc
    cases ha : alloc n with
    | none =>
      rw [ha] at hc
      obtain ⟨rfl, rfl⟩ := Prod.mk.inj (Except.ok.inj hc)
      exact .kept
    | some r =>
      rw [ha] at hc
      obtain ⟨m, hm, hc⟩ := bind_eq_ok.mp hc
      obtain ⟨rfl, rfl⟩ := Prod.mk.inj (Except.ok.inj hc)
      exact .grown hn hm

/-- `Append` has found no room, or has copied. -/
inductive Appended (b : Buffer) (data : Source) (size : Nat) (capped drop : Bool) (alloc : Alloc) :
    Buffer → Int → Prop
  | refused {c : Buffer} (hd : b.ensureWritable size capped drop alloc = .ok (c, false)) :
      Appended b data size capped drop alloc c (-1)
  | copied {d e : Buffer} (hd : b.ensureWritable size capped drop alloc = .ok (d, true))
      (he : d.memcpy data size = .ok e) :
      Appended b data size capped drop alloc { e with w_idx_ := wrap64 (e.w_idx_ + size) }
        (toSigned size)

theorem append_cases (hc : b.append data size capped drop alloc = .ok (c, ret)) :
    Appended b data size capped drop alloc c ret := by
  unfold Buffer.append at hc
  obtain ⟨⟨d, ok⟩, hd, hc⟩ := bind_eq_ok.mp hc
  cases ok with
  | false =>
    obtain ⟨rfl, rfl⟩ := Prod.mk.inj (Except.ok.inj hc)
    exact .refused hd
  | true =>
    obtain ⟨e, he, hc⟩ := bind_eq_ok.mp hc
    obtain ⟨rfl, rfl⟩ := Prod.mk.inj (Except.ok.inj hc)
    exact .copied hd he

/-- `Append(slice)`, `Append(buffer)` and `Transfer` ask for room, and then have `Append` ask for it
again. -/
inductive AskedTwice (b : Buffer) (size : Nat) (capped drop : Bool) (alloc alloc' : Alloc) :
    Buffer → Int → Prop
  | refused {c : Buffer} (hd : b.ensureWritable size capped drop alloc = .ok (c, false)) :
      AskedTwice b size capped drop alloc alloc' c (-1)
  | appended {c d : Buffer} {data : Source} {ret : Int}
      (hd : b.ensureWritable size capped drop alloc = .ok (d, true))
      (hc : d.append data size capped drop alloc' = .ok (c, ret)) :
      AskedTwice b size capped drop alloc alloc' c ret

/-- Asks for room, appends what is at `data` then, and moves an index on by what has been appended. -/
theorem askedTwice_advance (data : Buffer → Source) (advance : Buffer → Int → Buffer)
    (hc : (do
      let (b, ok) ← b.ensureWritable size capped drop alloc
      if !ok then return (b, -1)
      let (b, ret) ← b.append (data b) size capped drop alloc'
      if 0 < ret then return (advance b ret, ret)
      else return (b, ret)) = .ok (c, ret)) :
    ∃ d, AskedTwice b size capped drop alloc alloc' d ret ∧
      c = if 0 < ret then advance d ret else d := by
  obtain ⟨⟨d, ok⟩, hd, hc⟩ := bind_eq_ok.mp hc
  cases ok with
  | false =>
    obtain ⟨rfl, rfl⟩ := Prod.mk.inj (Except.ok.inj hc)
    exact ⟨d, .refused hd, rfl⟩
  | true =>
    obtain ⟨⟨e, ret'⟩, he, hc⟩ := bind_eq_ok.mp hc
    dsimp only at hc
    split_ifs at hc with hpos
    · obtain ⟨rfl, rfl⟩ := Prod.mk.inj (Except.ok.inj hc)
      exact ⟨e, .appended hd he, (if_pos hpos).symm⟩
    · obtain ⟨rfl, rfl⟩ := Prod.mk.inj (Except.ok.inj hc)
      exact ⟨e, .appended hd he, (if_neg hpos).symm⟩

theorem appendSlice_cases {slice : Slice}
    (hc : b.appendSlice slice capped drop alloc alloc' = .ok (c, ret)) :
    ∃ d, AskedTwice b slice.length_ capped drop alloc alloc' d ret ∧
      c = if 0 < ret then { d with w_idx_ := wrap64 (d.w_idx_ + ret.toNat) } else d :=
  askedTwice_advance (fun _ => slice.data_)
    (fun d ret => { d with w_idx_ := wrap64 (d.w_idx_ + ret.toNat) }) hc

theorem appendBuffer_cases {buffer : Option Buffer}
    (hc : b.appendBuffer buffer capped drop alloc alloc' = .ok (c, ret)) :
    AskedTwice b (buffer.getD b).readableBytes capped drop alloc alloc' c ret := by
  unfold Buffer.appendBuffer at hc
  obtain ⟨⟨d, ok⟩, hd, hc⟩ := bind_eq_ok.mp hc
  cases ok with
  | false =>
    obtain ⟨rfl, rfl⟩ := Prod.mk.inj (Except.ok.inj hc)
    exact .refused hd
  | true => exact .appended hd hc

theorem transfer_cases {source s' : Buffer}
    (hc : b.transfer source capped drop alloc alloc' = .ok (c, s', ret)) :
    AskedTwice b source.readableBytes capped drop alloc alloc' c ret ∧
      s' = if 0 < ret then { source with r_idx_ := wrap64 (source.r_idx_ + ret.toNat) }
        else source := by
  unfold Buffer.transfer at hc
  obtain ⟨⟨d, ok⟩, hd, hc⟩ := bind_eq_ok.mp hc
  cases ok with
  | false =>
    obtain ⟨rfl, hrest⟩ := Prod.mk.inj (Except.ok.inj hc)
    obtain ⟨rfl, rfl⟩ := Prod.mk.inj hrest
    exact ⟨.refused hd, rfl⟩
  | true =>
    obtain ⟨⟨e, ret'⟩, he, hc⟩ := bind_eq_ok.mp hc
    dsimp only at hc
    split_ifs at hc with hpos
    · obtain ⟨rfl, hrest⟩ := Prod.mk.inj (Except.ok.inj hc)
      obtain ⟨rfl, rfl⟩ := Prod.mk.inj hrest
      exact ⟨.appended hd he, (if_pos hpos).symm⟩
    · obtain ⟨rfl, hrest⟩ := Prod.mk.inj (Except.ok.inj hc)
      obtain ⟨rfl, rfl⟩ := Prod.mk.inj hrest
      exact ⟨.appended hd he, (if_neg hpos).symm⟩

theorem transferSelf_cases (hc : b.transferSelf capped drop alloc alloc' = .ok (c, ret)) :
    ∃ d, AskedTwice b b.readableBytes capped drop alloc alloc' d ret ∧
      c = if 0 < ret then { d with r_idx_ := wrap64 (d.r_idx_ + ret.toNat) } else d :=
  askedTwice_advance ownRPtr (fun d ret => { d with r_idx_ := wrap64 (d.r_idx_ + ret.toNat) }) hc

end Cases

/-! ### What keeps the block -/

theorem WellFormed.backed {b : Buffer} (h : b.WellFormed) : b.Backed :=
  ⟨h.length_lt, h.size, h.null, h.deleter⟩

section Backed

variable {b c : Buffer} (h : b.Backed)

include h

/-- **After `Reset`** nothing is left of what has happened to the indices. -/
theorem Backed.reset : b.reset.WellFormed :=
  ⟨Nat.le_refl _, Nat.zero_le _, h.length_lt, h.size, h.null, h.deleter⟩

theorem Backed.indices (r w : Nat) : Backed { b with r_idx_ := r, w_idx_ := w } :=
  ⟨h.length_lt, h.size, h.null, h.deleter⟩

theorem Backed.clear : b.clear.Backed := by
  refine ⟨?_, ?_, fun _ => rfl, h.deleter⟩
  · show 0 < 2 ^ 64
    omega
  · intro m hm
    cases hm

/-! ### Copies -/

theorem Backed.store {off : Nat} {l : List UInt8} (hc : b.store off l = .ok c) :
    c.Backed ∧ c.r_idx_ = b.r_idx_ ∧ c.w_idx_ = b.w_idx_ := by
  unfold Buffer.store at hc
  split_ifs at hc with hnil
  · obtain rfl := Except.ok.inj hc
    exact ⟨h, rfl, rfl⟩
  · cases hm : b.data_.bind fun m => m.store off l with
    | none => simp [hm] at hc
    | some m =>
      obtain ⟨m₀, hm₀, hstore⟩ := Option.bind_eq_some_iff.mp hm
      rw [hm] at hc
      obtain rfl := Except.ok.inj hc
      refine ⟨⟨h.length_lt, ?_, ?_, h.deleter⟩, rfl, rfl⟩
      · intro m' hm'
        obtain rfl : m = m' := Option.some.inj hm'
        unfold Block.store at hstore
        split_ifs at hstore
        rw [← Option.some.inj hstore, Block.size_write]
        exact h.size m₀ hm₀
      · intro hnone
        cases hnone

theorem Backed.memcpy {data : Source} {size : Nat} (hc : b.memcpy data size = .ok c) : c.Backed := by
  unfold Buffer.memcpy at hc
  split_ifs at hc with hzero
  · obtain rfl := Except.ok.inj hc
    exact h
  · obtain ⟨l, -, hl⟩ := bind_eq_ok.mp hc
    exact (h.store hl).1

theorem Backed.rearrange (hc : b.rearrange = .ok c) : c.Backed := by
  unfold Buffer.rearrange at hc
  dsimp only at hc
  split_ifs at hc with hzero
  · obtain rfl := Except.ok.inj hc
    exact h.indices 0 0
  · obtain ⟨l, -, hc⟩ := bind_eq_ok.mp hc
    obtain ⟨d, hd, hc⟩ := bind_eq_ok.mp hc
    obtain rfl := Except.ok.inj hc
    exact (h.store hd).1.indices _ _

/-! ### Growth -/

omit h in
theorem size_newBlock {n addr : Nat} {cells : Nat → UInt8} {m : Block UInt8}
    (hm : b.newBlock n addr cells = .ok m) : m.size = n := by
  unfold newBlock alignedRealloc realloc at hm
  cases hd : b.data_ with
  | none =>
    rw [hd] at hm
    split_ifs at hm <;> exact (Except.ok.inj hm) ▸ rfl
  | some m₀ =>
    rw [hd] at hm
    dsimp only at hm
    split_ifs at hm
    · cases hmove : (m₀.load 0 b.length_).bind (Block.store ⟨addr, n, cells⟩ 0) with
      | none => simp [hmove] at hm
      | some m' =>
        obtain ⟨l, -, hl⟩ := Option.bind_eq_some_iff.mp hmove
        rw [hmove, Except.ok.injEq] at hm
        unfold Block.store at hl
        split_ifs at hl
        rw [← hm, ← Option.some.inj hl]
        rfl
    · exact (Except.ok.inj hm) ▸ rfl

theorem Backed.ensureWritable {require : Nat} {capped drop ok : Bool} {alloc : Alloc}
    (hc : b.ensureWritable require capped drop alloc = .ok (c, ok)) : c.Backed := by
  cases ensureWritable_cases hc with
  | kept => exact h
  | compact hd => exact h.rearrange hd
  | @grown n addr cells m hn hm =>
    refine ⟨?_, ?_, ?_, h.deleter⟩
    · split_ifs at hn
      · rw [← Option.some.inj hn]
        exact Nat.mod_lt _ (by omega)
      · exact (le_nextPowOfTwo hn).2.2 h.length_lt
    · intro m' hm'
      rw [← Option.some.inj hm']
      exact size_newBlock hm
    · intro hnone
      cases hnone

/-! ### The operations -/

section Operations

variable {capped drop : Bool} {alloc alloc' : Alloc} {ret : Int}

theorem Backed.append {data : Source} {size : Nat}
    (hc : b.append data size capped drop alloc = .ok (c, ret)) : c.Backed := by
  cases append_cases hc with
  | refused hd => exact h.ensureWritable hd
  | copied hd he => exact ((h.ensureWritable hd).memcpy he).indices _ _

theorem Backed.appendBasic {v : List UInt8}
    (hc : b.appendBasic v capped drop alloc = .ok (c, ret)) : c.Backed := by
  unfold Buffer.appendBasic at hc
  obtain ⟨⟨d, ok⟩, hd, hc⟩ := bind_eq_ok.mp hc
  have hback := h.ensureWritable hd
  cases ok with
  | false =>
    obtain ⟨rfl, -⟩ := Prod.mk.inj (Except.ok.inj hc)
    exact hback
  | true =>
    obtain ⟨e, he, hc⟩ := bind_eq_ok.mp hc
    obtain ⟨rfl, -⟩ := Prod.mk.inj (Except.ok.inj hc)
    exact (hback.store he).1.indices _ _

theorem Backed.askedTwice {size : Nat} (hc : AskedTwice b size capped drop alloc alloc' c ret) :
    c.Backed := by
  cases hc with
  | refused hd => exact h.ensureWritable hd
  | appended hd hc => exact (h.ensureWritable hd).append hc

theorem Backed.appendSlice {slice : Slice}
    (hc : b.appendSlice slice capped drop alloc alloc' = .ok (c, ret)) : c.Backed := by
  obtain ⟨d, hd, rfl⟩ := appendSlice_cases hc
  have hback := h.askedTwice hd
  split_ifs
  · exact hback.indices _ _
  · exact hback

theorem Backed.appendBuffer {buffer : Option Buffer}
    (hc : b.appendBuffer buffer capped drop alloc alloc' = .ok (c, ret)) : c.Backed :=
  h.askedTwice (appendBuffer_cases hc)

theorem Backed.transfer {source s' : Buffer}
    (hc : b.transfer source capped drop alloc alloc' = .ok (c, s', ret)) : c.Backed :=
  h.askedTwice (transfer_cases hc).1

/-- The buffer `Transfer` takes the bytes from. -/
theorem Backed.transfer_from {dest d' : Buffer}
    (hc : dest.transfer b capped drop alloc alloc' = .ok (d', c, ret)) : c.Backed := by
  obtain ⟨-, rfl⟩ := transfer_cases hc
  split_ifs
  · exact h.indices _ _
  · exact h

theorem Backed.transferSelf (hc : b.transferSelf capped drop alloc alloc' = .ok (c, ret)) :
    c.Backed := by
  obtain ⟨d, hd, rfl⟩ := transferSelf_cases hc
  have hback := h.askedTwice hd
  split_ifs
  · exact hback.indices _ _
  · exact hback

theorem Backed.scatter {slices : List (Nat × Nat)} {l : List UInt8}
    (hc : b.scatter slices l = .ok c) : c.Backed := by
  induction slices generalizing b l with
  | nil => exact Except.ok.inj hc ▸ h
  | cons slice slices ih =>
    obtain ⟨d, hd, hc⟩ := bind_eq_ok.mp hc
    exact ih (h.store hd).1 hc

theorem Backed.appendFile {page read_bytes : Nat} {file : FileRead}
    (hc : b.appendFile page file read_bytes capped drop alloc = .ok (c, ret)) : c.Backed := by
  unfold Buffer.appendFile at hc
  obtain ⟨⟨d, ok⟩, hd, hc⟩ := bind_eq_ok.mp hc
  have hback := h.ensureWritable hd
  cases ok with
  | false =>
    obtain ⟨rfl, -⟩ := Prod.mk.inj (Except.ok.inj hc)
    exact hback
  | true =>
    cases hresult : file.result with
    | none =>
      rw [hresult] at hc
      obtain ⟨rfl, -⟩ := Prod.mk.inj (Except.ok.inj hc)
      exact hback
    | some l =>
      rw [hresult] at hc
      obtain ⟨e, he, hc⟩ := bind_eq_ok.mp hc
      obtain ⟨rfl, -⟩ := Prod.mk.inj (Except.ok.inj hc)
      exact (hback.scatter he).indices _ _

theorem Backed.consumed {always : Bool} (hc : b.consumed always = .ok c) : c.Backed := by
  unfold Buffer.consumed at hc
  split_ifs at hc
  · exact h.rearrange hc
  · exact Except.ok.inj hc ▸ h

theorem Backed.read {size : Int} {always : Bool} {l : List UInt8}
    (hc : b.read size always = .ok (c, ret, l)) : c.Backed := by
  unfold Buffer.read at hc
  dsimp only at hc
  split_ifs at hc
  · obtain ⟨rfl, -⟩ := Prod.mk.inj (Except.ok.inj hc)
    exact h
  · obtain ⟨l', -, hc⟩ := bind_eq_ok.mp hc
    obtain ⟨d, hd, hc⟩ := bind_eq_ok.mp hc
    obtain ⟨rfl, -⟩ := Prod.mk.inj (Except.ok.inj hc)
    exact (h.indices _ _).consumed hd

theorem Backed.readFile {page : Nat} {size : Int} {written : Option Nat}
    (hc : b.readFile page size written = .ok (c, ret)) : c.Backed := by
  unfold Buffer.readFile at hc
  split at hc
  · obtain ⟨rfl, -⟩ := Prod.mk.inj (Except.ok.inj hc)
    exact h
  · dsimp only at hc
    split_ifs at hc
    all_goals
      obtain ⟨l, -, hc⟩ := bind_eq_ok.mp hc
      cases written with
      | none =>
        obtain ⟨rfl, -⟩ := Prod.mk.inj (Except.ok.inj hc)
        exact h
      | some n =>
        obtain ⟨rfl, -⟩ := Prod.mk.inj (Except.ok.inj hc)
        exact h.indices _ _

theorem Backed.readBasic {size : Nat} {v : Option (List UInt8)}
    (hc : b.readBasic size = .ok (c, v)) : c.Backed := by
  unfold Buffer.readBasic at hc
  split_ifs at hc
  · obtain ⟨rfl, -⟩ := Prod.mk.inj (Except.ok.inj hc)
    exact h
  · obtain ⟨rfl, -⟩ := Prod.mk.inj (Except.ok.inj hc)
    exact h
  · obtain ⟨l, -, hc⟩ := bind_eq_ok.mp hc
    obtain ⟨rfl, -⟩ := Prod.mk.inj (Except.ok.inj hc)
    exact h.indices _ _

theorem Backed.retrieve {n : Nat} {always : Bool} (hc : b.retrieve n always = .ok c) : c.Backed :=
  (h.indices _ _).consumed hc

end Operations

end Backed

end Buffer

end Lizlib
