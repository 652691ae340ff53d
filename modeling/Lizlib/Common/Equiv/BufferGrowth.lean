import Lizlib.Common.Equiv.Backed

/-!
# Capped growth, and appending a slice

* `ensureWritable_eq`: what `ensureWritable` does on a well-formed buffer, for every combination of
  its flags.
* `madeRoom_iff`: a capped `ensureWritable` makes room if the block has it already, if compaction
  does, or if nothing has been consumed; with consumed bytes in front the new block is too short.
* `agree_iff`: `Append(slice)` does what `Append(data, size)` does only where nothing is appended.
-/

namespace Lizlib

namespace Buffer

/-! ### One equation for `ensureWritable` -/

/-- The length `ensureWritable` asks for; `none` if growth never ends. -/
def newLength (b : Buffer) (require : Nat) (capped : Bool) : Option Nat :=
  if capped then some (wrap64 (b.w_idx_ - b.r_idx_ + require))
  else nextPowOfTwo b.length_ (wrap64 (b.w_idx_ - b.r_idx_ + require))

section Growth

variable {b : Buffer} (h : b.WellFormed)

include h

theorem WellFormed.newLength_lt {require n : Nat} {capped : Bool}
    (hn : b.newLength require capped = some n) : n < 2 ^ 64 := by
  unfold newLength at hn
  cases capped with
  | false =>
    obtain ⟨-, -, hlt⟩ := le_nextPowOfTwo hn
    exact hlt h.length_lt
  | true =>
    obtain rfl := Option.some.inj hn
    exact Nat.mod_lt _ (by decide)

theorem WellFormed.ensureWritable_eq (require : Nat) (capped drop : Bool) (alloc : Alloc) :
    b.ensureWritable require capped drop alloc =
      if b.w_idx_ + require ≤ b.length_ then .ok (b, true)
      else if drop = true ∧ b.w_idx_ - b.r_idx_ + require ≤ b.length_ then .ok (b.compacted, true)
      else match b.newLength require capped with
        | none => .error .diverge
        | some n => match alloc n with
          | none => .ok (b, false)
          | some (addr, cells) => (b.newBlock n addr cells).map fun m =>
              ({ b with data_ := some m, length_ := n }, true) := by
  have hrw := h.r_le_w
  have hw := h.w_le_length
  have hlt := h.length_lt
  by_cases hroom : b.w_idx_ + require ≤ b.length_
  · rw [if_pos hroom, h.ensureWritable_room hroom]
  rw [if_neg hroom]
  by_cases hfit : drop = true ∧ b.w_idx_ - b.r_idx_ + require ≤ b.length_
  · rw [if_pos hfit, hfit.1, h.ensureWritable_compact (by omega) hfit.2]
  rw [if_neg hfit]
  have hfree : sub64 b.length_ (b.w_idx_ - b.r_idx_) = b.length_ - (b.w_idx_ - b.r_idx_) := by
    unfold sub64
    omega
  have hfit' : ¬ (drop = true ∧ require ≤ b.length_ - (b.w_idx_ - b.r_idx_)) := by
    rintro ⟨hdrop, hle⟩
    exact hfit ⟨hdrop, by omega⟩
  have hassert : ¬ (b.aligned_ = true ∧ b.deleter_ = false) := by
    rintro ⟨haligned, hdeleter⟩
    simp [h.deleter haligned] at hdeleter
  unfold ensureWritable
  dsimp only
  rw [h.writableBytes_eq, h.readableBytes_eq, hfree, if_neg (by omega), if_neg hfit']
  show (match b.newLength require capped with
    | none => _
    | some n => _) = _
  cases b.newLength require capped with
  | none => rfl
  | some n =>
    dsimp only
    rw [if_neg hassert]
    cases alloc n with
    | none => rfl
    | some r =>
      obtain ⟨addr, cells⟩ := r
      dsimp only
      cases b.newBlock n addr cells <;> rfl

/-! ### Capped growth -/

/-- The old block has been copied inside the new one, and where `ensureWritable` returns `true` the
indices are in order and inside the block, the readable bytes are the old ones, and there is room
for `require` more. -/
def MadeRoom (b : Buffer) (require : Nat) : Except Fault (Buffer × Bool) → Prop
  | .error _ => False
  | .ok (_, false) => True
  | .ok (c, true) => c.r_idx_ ≤ c.w_idx_ ∧ c.w_idx_ ≤ c.length_ ∧ c.readable = b.readable ∧
      require ≤ c.writableBytes

omit h in
theorem WellFormed.madeRoom {c : Buffer} (hc : c.WellFormed) {require : Nat}
    (hread : c.readable = b.readable) (hroom : c.w_idx_ + require ≤ c.length_) :
    b.MadeRoom require (.ok (c, true)) := by
  have hw := hc.writableBytes_eq
  show _ ∧ _ ∧ _ ∧ _
  exact ⟨hc.r_le_w, hc.w_le_length, hread, by omega⟩

/-- A new block with room for all the bytes behind the old `WIndex()`. -/
theorem WellFormed.madeRoom_newBlock {n require : Nat} (hn : b.w_idx_ + require ≤ n)
    (hle : b.length_ ≤ n) (hlt : n < 2 ^ 64) (addr : Nat) (cells : Nat → UInt8) :
    b.MadeRoom require ((b.newBlock n addr cells).map fun m =>
      ({ b with data_ := some m, length_ := n }, true)) := by
  obtain ⟨m, hm, hsize, hcells⟩ := newBlock_spec h.size hle addr cells
  have hg : GrownTo b n { b with data_ := some m, length_ := n } :=
    ⟨rfl, rfl, rfl, rfl, rfl, m, rfl, hsize, hcells⟩
  rw [hm]
  exact (hg.wellFormed h hle hlt).madeRoom (hg.readable h) hn

omit h in
/-- A new block that is too short for all the bytes behind the old `WIndex()`, whatever has been
copied into it. -/
theorem not_madeRoom_newBlock {n require : Nat} (hpos : 0 < require) (hn : n < b.w_idx_ + require)
    (hlt : n < 2 ^ 64) (addr : Nat) (cells : Nat → UInt8) :
    ¬ b.MadeRoom require ((b.newBlock n addr cells).map fun m =>
      ({ b with data_ := some m, length_ := n }, true)) := by
  cases b.newBlock n addr cells with
  | error e => exact id
  | ok m =>
    rintro ⟨-, hw, -, hroom⟩
    unfold writableBytes sub64 at hroom
    dsimp only at hw hroom
    omega

/-- **Capped growth** makes room if and only if there is room already, or the bytes to be dropped
are enough, or there are none in front of the readable ones. -/
theorem WellFormed.madeRoom_iff {require : Nat} (hpos : 0 < require) (hlt : require < 2 ^ 64)
    (drop : Bool) {alloc : Alloc} (halloc : alloc (wrap64 (b.readableBytes + require)) ≠ none) :
    b.MadeRoom require (b.ensureWritable require true drop alloc) ↔
      b.w_idx_ + require ≤ b.length_ ∨
      (drop = true ∧ b.w_idx_ - b.r_idx_ + require ≤ b.length_) ∨
      (b.r_idx_ = 0 ∧ b.w_idx_ + require < 2 ^ 64) := by
  have hrw := h.r_le_w
  have hw := h.w_le_length
  have hlen := h.length_lt
  rw [h.readableBytes_eq] at halloc
  rw [h.ensureWritable_eq]
  by_cases hroom : b.w_idx_ + require ≤ b.length_
  · rw [if_pos hroom]
    exact iff_of_true (h.madeRoom rfl hroom) (Or.inl hroom)
  rw [if_neg hroom]
  by_cases hfit : drop = true ∧ b.w_idx_ - b.r_idx_ + require ≤ b.length_
  · rw [if_pos hfit]
    apply iff_of_true _ (Or.inr (Or.inl hfit))
    apply h.compacted.madeRoom readable_compacted
    show b.readable.length + require ≤ b.length_
    rw [h.length_readable]
    exact hfit.2
  rw [if_neg hfit]
  show b.MadeRoom require (match alloc (wrap64 (b.w_idx_ - b.r_idx_ + require)) with
    | none => _
    | some (addr, cells) => _) ↔ _
  obtain ⟨⟨addr, cells⟩, ha⟩ := Option.ne_none_iff_exists'.mp halloc
  rw [ha]
  by_cases hfront : b.r_idx_ = 0 ∧ b.w_idx_ + require < 2 ^ 64
  · have hn : wrap64 (b.w_idx_ - b.r_idx_ + require) = b.w_idx_ + require := by
      unfold wrap64
      omega
    apply iff_of_true _ (Or.inr (Or.inr hfront))
    apply h.madeRoom_newBlock <;> omega
  · have hn : wrap64 (b.w_idx_ - b.r_idx_ + require) < b.w_idx_ + require := by
      -- consumed bytes in front shorten the target, and so does a wrap
      unfold wrap64
      omega
    apply iff_of_false
    · exact not_madeRoom_newBlock hpos hn (Nat.mod_lt _ (by omega)) addr cells
    · rintro (hr | hf | hf)
      · exact hroom hr
      · exact hfit hf
      · exact hfront hf

end Growth

/-- Four bytes, two of them consumed. -/
def halfRead : Buffer := { sized 4 false 0 fun _ => 0 with r_idx_ := 2, w_idx_ := 4 }

theorem wellFormed_halfRead : halfRead.WellFormed := by
  constructor <;> simp [halfRead, sized]

/-- Four bytes, and nothing written yet. -/
def unwritten : Buffer := sized 4 false 0 fun _ => 0

theorem wellFormed_unwritten : unwritten.WellFormed := wellFormed_sized (by omega) false _

/-- Behind four bytes of which two are consumed, room for one more is made if these are dropped, and
not otherwise; with nothing consumed there is room behind a longer block. -/
theorem madeRoom_iff_halfRead :
    let alloc : Alloc := fun _ => some (0, fun _ => 0)
    halfRead.WellFormed ∧ unwritten.WellFormed ∧
      halfRead.MadeRoom 1 (halfRead.ensureWritable 1 true true alloc) ∧
      ¬ halfRead.MadeRoom 1 (halfRead.ensureWritable 1 true false alloc) ∧
      unwritten.MadeRoom 5 (unwritten.ensureWritable 5 true false alloc) := by
  intro alloc
  have halloc : ∀ n, alloc n ≠ none := fun n => Option.some_ne_none _
  have hhalf := fun drop =>
    wellFormed_halfRead.madeRoom_iff (show 0 < 1 by omega) (by omega) drop (halloc _)
  have hfour :=
    wellFormed_unwritten.madeRoom_iff (show 0 < 5 by omega) (by omega) false (halloc _)
  exact ⟨wellFormed_halfRead, wellFormed_unwritten, (hhalf true).mpr (by decide),
    (hhalf false).not.mpr (by decide), hfour.mpr (.inr (.inr ⟨rfl, by decide⟩))⟩

/-- One more byte is asked for behind four, of which two are consumed: the block shrinks to three
bytes, and `WIndex()` stays at four. -/
theorem not_madeRoom_halfRead : halfRead.WellFormed ∧
    ¬ halfRead.MadeRoom 1 (halfRead.ensureWritable 1 true false fun _ => some (0, fun _ => 0)) := by
  refine ⟨wellFormed_halfRead, ?_⟩
  rw [wellFormed_halfRead.ensureWritable_eq, if_neg (by decide), if_neg (by decide)]
  have hn : halfRead.newLength 1 true = some 3 := rfl
  rw [hn]
  exact not_madeRoom_newBlock (by omega) (by decide) (by omega) 0 fun _ => 0

/-! ### Appending a slice -/

/-- `ensureWritable` gives up: there is no room, no compaction would make it, and there is no
memory. -/
def Refused (b : Buffer) (require : Nat) (capped drop : Bool) (alloc : Alloc) : Prop :=
  b.length_ < b.w_idx_ + require ∧ ¬ (drop = true ∧ b.w_idx_ - b.r_idx_ + require ≤ b.length_) ∧
    ∃ n, b.newLength require capped = some n ∧ alloc n = none

/-- What `Append(slice)` does and what `Append(slice.Data(), slice.Length())` does: the same buffer
and the same value come back, the indices are in order and inside the block, and the slice's bytes
have been added to the readable ones, unless a negative value says that nothing has been. -/
def Agree (b : Buffer) (slice : Slice) (r r' : Except Fault (Buffer × Int)) : Prop :=
  ∃ c ret, r = .ok (c, ret) ∧ r' = .ok (c, ret) ∧ c.r_idx_ ≤ c.w_idx_ ∧ c.w_idx_ ≤ c.length_ ∧
    (0 ≤ ret → ∃ l, (slice.length_ = 0 ∧ l = [] ∨ b.fetch slice.data_ slice.length_ = .ok l) ∧
      c.readable = b.readable ++ l) ∧
    (ret < 0 → c.readable = b.readable)

section Slice

variable {b : Buffer} (h : b.WellFormed) {require : Nat} {capped drop : Bool} {alloc : Alloc}

include h

theorem WellFormed.ensureWritable_refused (hr : b.Refused require capped drop alloc) :
    b.ensureWritable require capped drop alloc = .ok (b, false) := by
  obtain ⟨hroom, hfit, n, hn, ha⟩ := hr
  rw [h.ensureWritable_eq, if_neg (by omega), if_neg hfit, hn]
  dsimp only
  rw [ha]

theorem WellFormed.refused_of_false {c : Buffer}
    (hc : b.ensureWritable require capped drop alloc = .ok (c, false)) :
    b.Refused require capped drop alloc := by
  rw [h.ensureWritable_eq] at hc
  split_ifs at hc with hroom hfit
  · simp at hc
  · simp at hc
  refine ⟨by omega, hfit, ?_⟩
  cases hn : b.newLength require capped with
  | none => simp [hn] at hc
  | some n =>
    refine ⟨n, rfl, ?_⟩
    rw [hn] at hc
    dsimp only at hc
    cases ha : alloc n with
    | none => rfl
    | some r =>
      rw [ha] at hc
      dsimp only at hc
      cases hm : b.newBlock n r.1 r.2 <;> simp [hm, Except.map] at hc

end Slice

/-- A copy that stays inside the block has room behind `WIndex()`. -/
theorem Backed.room_of_memcpy {c d : Buffer} (hc : c.Backed) {data : Source} {size : Nat}
    (hpos : 0 < size) (hd : c.memcpy data size = .ok d) : c.w_idx_ + size ≤ c.length_ := by
  unfold Buffer.memcpy at hd
  rw [if_neg (by omega)] at hd
  cases hf : c.fetch data size with
  | error e => simp [hf, error_bind] at hd
  | ok l =>
    have hlen := length_of_fetch hf
    rw [hf, ok_bind, Buffer.store] at hd
    have hnil : l ≠ [] := by
      rintro rfl
      simp at hlen
      omega
    rw [if_neg hnil] at hd
    cases hm : c.data_ with
    | none => simp [hm] at hd
    | some m =>
      rw [hm, Option.bind_some] at hd
      have hsize := hc.size m hm
      by_contra hroom
      rw [Block.store_eq_none _ (by omega)] at hd
      simp at hd

/-- With room behind `WIndex()` nothing has to be done. -/
theorem Backed.ensureWritable_room {c : Buffer} (hc : c.Backed) {size : Nat}
    (hroom : c.w_idx_ + size ≤ c.length_) (capped drop : Bool) (alloc : Alloc) :
    c.ensureWritable size capped drop alloc = .ok (c, true) := by
  have hlt := hc.length_lt
  have hle : size ≤ c.writableBytes := by
    unfold writableBytes sub64
    omega
  unfold Buffer.ensureWritable
  dsimp only
  rw [if_pos (Or.inr hle)]
  rfl

section Append

variable {b c d : Buffer} {data : Source} {size : Nat} {capped drop : Bool} {alloc alloc' : Alloc}
  (hd : b.ensureWritable size capped drop alloc = .ok (d, true))

include hd

/-- An `Append` that returns has copied, and has moved the write index on by `size`. -/
theorem append_of_ensured {ret : Int} (hc : b.append data size capped drop alloc = .ok (c, ret)) :
    c.w_idx_ < 2 ^ 64 ∧ ret = toSigned size ∧ ∃ e, d.memcpy data size = .ok e := by
  cases append_cases hc with
  | refused hd' => cases hd.symm.trans hd'
  | @copied d' e hd' he =>
    obtain ⟨rfl, -⟩ := Prod.mk.inj (Except.ok.inj (hd.symm.trans hd'))
    exact ⟨Nat.mod_lt _ (by omega), rfl, e, he⟩

/-- Asking for the room first makes no difference to `Append`. -/
theorem append_eq_of_ensured (hd' : d.ensureWritable size capped drop alloc' = .ok (d, true)) :
    b.append data size capped drop alloc = d.append data size capped drop alloc' := by
  unfold append
  rw [hd, hd']

end Append

/-- `Append(slice)` moves the write index on twice. -/
theorem WellFormed.appendSlice_twice {b c d : Buffer} (h : b.WellFormed) {slice : Slice}
    {capped drop : Bool} {alloc alloc' : Alloc} {ret : Int} (hne : slice.length_ ≠ 0)
    (hens : b.ensureWritable slice.length_ capped drop alloc = .ok (d, true))
    (happend : b.append slice.data_ slice.length_ capped drop alloc = .ok (c, ret)) :
    ret = slice.length_ ∧ b.appendSlice slice capped drop alloc alloc' =
      .ok ({ c with w_idx_ := wrap64 (c.w_idx_ + ret.toNat) }, ret) := by
  have hsize := slice.length_lt
  -- the copy stayed inside the block, so the second `ensureWritable` finds the room made
  obtain ⟨hw, hret, e, hcopy⟩ := append_of_ensured hens happend
  have hbacked := h.backed.ensureWritable hens
  have hroom := hbacked.room_of_memcpy (by omega) hcopy
  have hd := hbacked.ensureWritable_room hroom capped drop alloc'
  rw [append_eq_of_ensured hens hd] at happend
  rw [toSigned_eq hsize] at hret
  refine ⟨hret, ?_⟩
  unfold appendSlice
  dsimp only
  rw [hens, ok_bind]
  dsimp only
  rw [if_neg (by decide), happend, ok_bind]
  dsimp only
  rw [if_pos (by omega)]
  rfl

section Agree

variable {b : Buffer} (h : b.WellFormed) {slice : Slice} {capped drop : Bool} {alloc : Alloc}
  (alloc' : Alloc)

include h

/-- Nothing is appended. -/
theorem WellFormed.agree_of_zero (hzero : slice.length_ = 0) :
    b.Agree slice (b.appendSlice slice capped drop alloc alloc')
      (b.append slice.data_ slice.length_ capped drop alloc) := by
  have hroom : b.w_idx_ + slice.length_ ≤ b.length_ := by
    have hle := h.w_le_length
    omega
  have hlt := h.w_lt
  have hwrap : wrap64 b.w_idx_ = b.w_idx_ := Nat.mod_eq_of_lt hlt
  have happend : ∀ a, b.append slice.data_ slice.length_ capped drop a = .ok (b, 0) := by
    intro a
    unfold append memcpy
    rw [h.ensureWritable_room hroom, ok_bind]
    dsimp only
    rw [if_neg (by decide), if_pos hzero, ok_bind, hzero, Nat.add_zero, hwrap]
    rfl
  refine ⟨b, 0, ?_, happend alloc, h.r_le_w, h.w_le_length, ?_, by omega⟩
  · unfold appendSlice
    dsimp only
    rw [h.ensureWritable_room hroom, ok_bind]
    dsimp only
    rw [if_neg (by decide), happend alloc']
    rfl
  · intro _
    exact ⟨[], Or.inl ⟨hzero, rfl⟩, (List.append_nil _).symm⟩

/-- There is no memory. -/
theorem WellFormed.agree_of_refused (hr : b.Refused slice.length_ capped drop alloc) :
    b.Agree slice (b.appendSlice slice capped drop alloc alloc')
      (b.append slice.data_ slice.length_ capped drop alloc) := by
  have hens := h.ensureWritable_refused hr
  refine ⟨b, -1, ?_, ?_, h.r_le_w, h.w_le_length, by omega, fun _ => rfl⟩
  · unfold appendSlice
    dsimp only
    rw [hens]
    rfl
  · unfold append
    rw [hens]
    rfl

end Agree

/-- **`Append(slice)`** agrees with `Append(slice.Data(), slice.Length())` if and only if there is
nothing to append or no memory for it: otherwise it moves the write index on twice. -/
theorem WellFormed.agree_iff {b : Buffer} (h : b.WellFormed) (slice : Slice) (capped drop : Bool)
    (alloc alloc' : Alloc) :
    b.Agree slice (b.appendSlice slice capped drop alloc alloc')
        (b.append slice.data_ slice.length_ capped drop alloc) ↔
      slice.length_ = 0 ∨ b.Refused slice.length_ capped drop alloc := by
  have hsize := slice.length_lt
  constructor
  · rintro ⟨c, ret, hslice, happend, -⟩
    by_cases hzero : slice.length_ = 0
    · exact Or.inl hzero
    right
    cases hens : b.ensureWritable slice.length_ capped drop alloc with
    | error e =>
      unfold append at happend
      rw [hens] at happend
      cases happend
    | ok p =>
      obtain ⟨d, ok⟩ := p
      cases ok with
      | false => exact h.refused_of_false hens
      | true =>
        exfalso
        obtain ⟨hret, htwice⟩ := h.appendSlice_twice hzero hens happend
        rw [htwice] at hslice
        have hc := congrArg Buffer.w_idx_ (Prod.mk.inj (Except.ok.inj hslice)).1
        have hsame : wrap64 (c.w_idx_ + ret.toNat) = c.w_idx_ := hc
        rw [hret, Int.toNat_natCast] at hsame
        have hlt := (append_of_ensured hens happend).1
        unfold wrap64 at hsame
        omega
  · rintro (hzero | hr)
    · exact h.agree_of_zero alloc' hzero
    · exact h.agree_of_refused alloc' hr

/-- A slice of one byte. -/
def oneByte : Slice := ⟨.bytes [7], 1, by omega⟩

/-- To four readable bytes that fill their block nothing is appended without memory, by either
operation; with memory they differ. -/
theorem agree_iff_full :
    let b := { sized 4 false 0 fun _ => 0 with w_idx_ := 4 }
    let none' : Alloc := fun _ => none
    let some' : Alloc := fun _ => some (0, fun _ => 0)
    b.WellFormed ∧
      b.Agree oneByte (b.appendSlice oneByte false false none' none')
        (b.append oneByte.data_ oneByte.length_ false false none') ∧
      ¬ b.Agree oneByte (b.appendSlice oneByte false false some' some')
        (b.append oneByte.data_ oneByte.length_ false false some') := by
  intro b none' some'
  have hb : b.WellFormed := by
    constructor <;> simp [b, sized]
  refine ⟨hb, (hb.agree_iff oneByte false false none' none').mpr ?_,
    (hb.agree_iff oneByte false false some' some').not.mpr ?_⟩
  · exact .inr ⟨by decide, by decide, 8, rfl, rfl⟩
  · rintro (hzero | ⟨-, -, n, -, hrefused⟩)
    · exact absurd hzero (by decide)
    · cases hrefused

/-- One byte is appended to an empty buffer of four: `Append(data, size)` leaves one readable byte,
and `Append(slice)` two. -/
theorem oneByte_not_agree :
    let b := sized 4 false 0 fun _ => 0
    b.WellFormed ∧
      ¬ b.Agree oneByte (b.appendSlice oneByte false false (fun _ => none) fun _ => none)
        (b.append oneByte.data_ oneByte.length_ false false fun _ => none) := by
  intro b
  refine ⟨wellFormed_sized (by omega) false _, ?_⟩
  rintro ⟨c, ret, hslice, happend, -⟩
  have htwo : (b.appendSlice oneByte false false (fun _ => none) fun _ => none).toOption.map
      (fun r => r.1.w_idx_) = some 2 := by
    decide
  have hone : (b.append oneByte.data_ oneByte.length_ false false fun _ => none).toOption.map
      (fun r => r.1.w_idx_) = some 1 := by
    decide
  rw [hslice] at htwo
  rw [happend] at hone
  exact absurd (htwo.symm.trans hone) (by decide)

end Buffer

end Lizlib
