import Lizlib.Common.Equiv.BufferGrowth
import Lizlib.Data.Pieces

/-!
# Reading from a file into a buffer

`Append(file)` has the kernel fill the rest of the page at `WIndex()`, the whole units behind it and
what is left over.  These slices lie one behind the other (`readSlices_eq`), so filling them is
one copy (`scatter_eq`), and into a buffer whose readable bytes are at the front the bytes of the
file are appended (`appendFile_front`).
-/

namespace Lizlib

/-! ### The slices -/

theorem le_ceilPageAlignAddr (page p : Nat) : p ≤ ceilPageAlignAddr page p := by
  unfold ceilPageAlignAddr
  have hpos : 0 < 2 ^ page := Nat.two_pow_pos page
  have hdiv := Nat.div_add_mod (p + 2 ^ page) (2 ^ page)
  have hmod := Nat.mod_lt (p + 2 ^ page) hpos
  rw [Nat.mul_comm] at hdiv
  omega

namespace Buffer

/-- **The slices** of `Append(file)` lie one behind the other from `WIndex()` on, and hold
`read_size` bytes. -/
theorem readSlices_eq (b : Buffer) (page read_size : Nat) :
    ∃ ns, b.readSlices page read_size = inRow b.w_idx_ ns ∧ ns.sum = read_size := by
  unfold readSlices
  dsimp only
  have hceil := le_ceilPageAlignAddr page ((b.data_.map Block.addr).getD 0 + b.w_idx_)
  generalize (b.data_.map Block.addr).getD 0 = data at hceil ⊢
  generalize ceilPageAlignAddr page (data + b.w_idx_) = next_page at hceil ⊢
  by_cases hfits : read_size ≤ next_page - (data + b.w_idx_)
  · rw [if_pos hfits]
    exact ⟨[read_size], rfl, by simp⟩
  · rw [if_neg hfits]
    generalize hremain : next_page - (data + b.w_idx_) = page_remain at hfits ⊢
    generalize hleft : read_size - page_remain = left
    refine ⟨page_remain :: (List.replicate (left / kFileRWUnit) kFileRWUnit ++
      [left % kFileRWUnit]), ?_, ?_⟩
    · rw [inRow, ← map_range_eq_inRow]
      congr 1
      apply List.map_congr_left
      intro i _
      have hoff : next_page + i * kFileRWUnit - data = b.w_idx_ + page_remain + i * kFileRWUnit := by
        omega
      rw [hoff, Nat.add_sub_cancel]
    · have hdiv := Nat.div_add_mod left kFileRWUnit
      rw [Nat.mul_comm] at hdiv
      simp only [List.sum_cons, List.sum_append, List.sum_replicate_nat, List.sum_nil]
      omega

/-- **Filling slices in a row** is one copy. -/
theorem WellFormed.scatter_eq {b : Buffer} (h : b.WellFormed) {off : Nat} {ns : List Nat}
    {l : List UInt8} (hroom : off + ns.sum ≤ b.length_) (hl : l.length ≤ ns.sum) :
    b.scatter (inRow off ns) l =
      .ok { b with data_ := b.data_.map fun m => m.write off l } := by
  induction ns generalizing b off l with
  | nil =>
    obtain rfl : l = [] := List.length_eq_zero_iff.mp (by simpa using hl)
    cases hd : b.data_ <;> simp [inRow, scatter, ← hd]
  | cons n ns ih =>
    rw [List.sum_cons] at hroom hl
    have htake : (l.take n).length ≤ n := List.length_take_le n l
    have hdrop : (l.drop n).length ≤ ns.sum := by
      rw [List.length_drop]
      omega
    unfold inRow scatter
    rw [h.store_eq (by omega), ok_bind]
    have hwf : WellFormed { b with data_ := b.data_.map fun m => m.write off (l.take n) } := by
      refine ⟨h.r_le_w, h.w_le_length, h.length_lt, ?_, ?_, h.deleter⟩
      · intro m hm
        obtain ⟨m', hm', rfl⟩ := Option.map_eq_some_iff.mp hm
        exact h.size m' hm'
      · intro hnone
        exact h.null (Option.map_eq_none_iff.mp hnone)
    have hroom' : off + n + ns.sum ≤ b.length_ := by omega
    rw [ih hwf hroom' hdrop]
    cases hd : b.data_ with
    | none => rfl
    | some m =>
      -- the first slice is full, or the rest of the bytes is empty
      have hwrite : (m.write off (l.take n)).write (off + n) (l.drop n) = m.write off l := by
        by_cases hn : n ≤ l.length
        · have hlen : (l.take n).length = n := by
            rw [List.length_take]
            omega
          have happend := m.write_append off (l.take n) (l.drop n)
          rwa [hlen, List.take_append_drop] at happend
        · rw [List.drop_eq_nil_of_le (by omega), Block.write_nil, List.take_of_length_le (by omega)]
      simp only [Option.map_some, hwrite]

/-! ### The bytes of a file -/

/-- Where `ensureWritable` has left the room asked for, it has kept the readable bytes. -/
theorem WellFormed.ensureWritable_keeps {b : Buffer} (h : b.WellFormed) {n : Nat}
    {capped drop ok : Bool} {alloc : Alloc} {c : Buffer}
    (hc : b.ensureWritable n capped drop alloc = .ok (c, ok))
    (hroom : ok = true → c.w_idx_ + n ≤ c.length_) : c.WellFormed ∧ c.readable = b.readable := by
  rw [h.ensureWritable_eq] at hc
  by_cases hfree : b.w_idx_ + n ≤ b.length_
  · rw [if_pos hfree] at hc
    obtain ⟨rfl, rfl⟩ := Prod.mk.inj (Except.ok.inj hc)
    exact ⟨h, rfl⟩
  rw [if_neg hfree] at hc
  by_cases hfit : drop = true ∧ b.w_idx_ - b.r_idx_ + n ≤ b.length_
  · rw [if_pos hfit] at hc
    obtain ⟨rfl, rfl⟩ := Prod.mk.inj (Except.ok.inj hc)
    exact ⟨h.compacted, readable_compacted⟩
  rw [if_neg hfit] at hc
  cases hlength : b.newLength n capped with
  | none => simp [hlength] at hc
  | some n' =>
    simp only [hlength] at hc
    cases ha : alloc n' with
    | none =>
      simp only [ha] at hc
      obtain ⟨rfl, rfl⟩ := Prod.mk.inj (Except.ok.inj hc)
      exact ⟨h, rfl⟩
    | some r =>
      simp only [ha] at hc
      cases hm : b.newBlock n' r.1 r.2 with
      | error e => simp [hm, Except.map] at hc
      | ok m =>
        rw [hm] at hc
        obtain ⟨rfl, rfl⟩ := Prod.mk.inj (Except.ok.inj hc)
        -- the new block holds all bytes up to `WIndex() + n`, and so those of the old one
        have hlong : b.w_idx_ + n ≤ n' := hroom rfl
        have hle : b.length_ ≤ n' := by omega
        obtain ⟨m', hm', hsize, hcells⟩ := newBlock_spec h.size hle r.1 r.2
        obtain rfl : m' = m := Except.ok.inj (hm'.symm.trans hm)
        have hg : GrownTo b n' { b with data_ := some m', length_ := n' } :=
          ⟨rfl, rfl, rfl, rfl, rfl, m', rfl, hsize, hcells⟩
        exact ⟨hg.wellFormed h hle (h.newLength_lt hlength), hg.readable h⟩

/-- The `read_size` of `Append(file, read_bytes)`. -/
def readSize (file : FileRead) (read_bytes : Nat) : Nat :=
  if 0 < file.size then min read_bytes file.size.toNat else read_bytes

/-- **The slices** of `Append(file)` tile the `read_size` bytes from `WPtr()` on. -/
theorem tiles_readSlices (b : Buffer) (page read_size : Nat) :
    Tiles (b.readSlices page read_size) b.w_idx_ read_size := by
  obtain ⟨ns, hslices, rfl⟩ := b.readSlices_eq page read_size
  rw [hslices]
  exact tiles_inRow b.w_idx_ ns

/-- `Append(file)` once `ensureWritable` has left the room asked for. -/
theorem WellFormed.appendFile_ensured {b c : Buffer} (hwf : c.WellFormed) (page : Nat)
    (file : FileRead) (read_bytes : Nat) {capped drop : Bool} {alloc : Alloc}
    (hc : b.ensureWritable (readSize file read_bytes) capped drop alloc = .ok (c, true))
    (hroom : c.w_idx_ + readSize file read_bytes ≤ c.length_) :
    b.appendFile page file read_bytes capped drop alloc =
      match file.result with
      | none => .ok (c, -1)
      | some l => .ok (c.written (l.take (readSize file read_bytes)),
          (l.take (readSize file read_bytes)).length) := by
  have hsize : (if 0 < file.size then min read_bytes file.size.toNat else read_bytes) =
      readSize file read_bytes := rfl
  unfold appendFile
  dsimp only
  rw [hsize, hc, ok_bind]
  generalize readSize file read_bytes = n at hroom ⊢
  dsimp only
  rw [if_neg (by decide)]
  cases file.result with
  | none => rfl
  | some l =>
    have hlt := hwf.length_lt
    obtain ⟨ns, hslices, hsum⟩ := c.readSlices_eq page n
    have hlen : (l.take n).length ≤ n := List.length_take_le n l
    have hwrap : wrap64 (c.w_idx_ + (l.take n).length) = c.w_idx_ + (l.take n).length :=
      Nat.mod_eq_of_lt (by omega)
    dsimp only
    rw [hslices, sum_inRow, hsum, hwf.scatter_eq (by omega) (by omega), ok_bind]
    dsimp only
    rw [hwrap]
    rfl

/-- **`Append(file)`** wherever `ensureWritable` has left the room asked for: the slices tile that
room, a call that returns a count appends exactly the bytes of the file, one that returns a negative
value keeps the readable bytes, and where there is room a read that has delivered bytes returns
their count. -/
theorem WellFormed.appendFile_exact {b : Buffer} (h : b.WellFormed) (page : Nat) (file : FileRead)
    (read_bytes : Nat) (capped drop : Bool) (alloc : Alloc) {c : Buffer} {ok : Bool}
    (hc : b.ensureWritable (readSize file read_bytes) capped drop alloc = .ok (c, ok))
    (hroom : ok = true → c.w_idx_ + readSize file read_bytes ≤ c.length_) :
    Tiles (c.readSlices page (readSize file read_bytes)) c.w_idx_ (readSize file read_bytes) ∧
      ∃ d ret, b.appendFile page file read_bytes capped drop alloc = .ok (d, ret) ∧
        (ret < 0 → d.readable = b.readable) ∧
        (0 ≤ ret → ∃ l, file.result = some l ∧ ret = (l.take (readSize file read_bytes)).length ∧
          d.readable = b.readable ++ l.take (readSize file read_bytes)) ∧
        (ok = true → ∀ l, file.result = some l →
          ret = (l.take (readSize file read_bytes)).length) := by
  refine ⟨c.tiles_readSlices page _, ?_⟩
  obtain ⟨hwf, hread⟩ := h.ensureWritable_keeps hc hroom
  cases ok with
  | false =>
    refine ⟨c, -1, ?_, fun _ => hread, fun hneg => absurd hneg (by decide), fun hok => by cases hok⟩
    have hsize : (if 0 < file.size then min read_bytes file.size.toNat else read_bytes) =
        readSize file read_bytes := rfl
    unfold appendFile
    dsimp only
    rw [hsize, hc, ok_bind]
    rfl
  | true =>
    have hfit := hroom rfl
    rw [hwf.appendFile_ensured page file read_bytes hc hfit]
    cases hresult : file.result with
    | none =>
      exact ⟨c, -1, rfl, fun _ => hread, fun hneg => absurd hneg (by decide), fun _ _ hl => by cases hl⟩
    | some l =>
      have hlen := List.length_take_le (readSize file read_bytes) l
      refine ⟨_, _, rfl, fun hneg => absurd hneg (by omega), fun _ => ⟨l, rfl, rfl, ?_⟩,
        fun _ l' hl => by rw [Option.some.inj hl]⟩
      rw [hwf.readable_written (by omega), hread]

/-- Four bytes are asked for in one-byte pages, and one is delivered: it is appended. -/
theorem appendFile_exact_sized :
    let b := sized 8 false 5 fun _ => 0
    let file : FileRead := ⟨-1, some [7]⟩
    b.WellFormed ∧ b.ensureWritable (readSize file 4) false false (fun _ => none) = .ok (b, true) ∧
      b.w_idx_ + readSize file 4 ≤ b.length_ ∧
      Tiles (b.readSlices 0 (readSize file 4)) b.w_idx_ (readSize file 4) ∧
      ∃ d, b.appendFile 0 file 4 false false (fun _ => none) = .ok (d, 1) ∧
        d.readable = b.readable ++ [7] := by
  have h : (sized 8 false 5 fun _ => 0).WellFormed := wellFormed_sized (by omega) false _
  have hroom : (sized 8 false 5 fun _ => 0).w_idx_ + readSize ⟨-1, some [7]⟩ 4 ≤ 8 := by decide
  have hc := h.ensureWritable_room hroom false false fun _ => none
  obtain ⟨htiles, d, ret, hd, -, happend, hcount⟩ :=
    h.appendFile_exact 0 ⟨-1, some [7]⟩ 4 false false _ hc fun _ => hroom
  obtain rfl : ret = 1 := hcount rfl [7] rfl
  obtain ⟨l, hl, -, hread⟩ := happend (by decide)
  obtain rfl : [7] = l := Option.some.inj hl
  exact ⟨h, hc, hroom, htiles, d, hd, hread⟩

/-! ### Writing to a file -/

/-- How many bytes `Read(file, size)` is to write out: all of them for `-1`. -/
def frontCount (b : Buffer) (size : Int) : Nat :=
  if size = -1 then b.readable.length else min size.toNat b.readable.length

/-- `Read(file, size)` writes out the front: the slices are all set and tile the first bytes from
`RPtr()` on, and a call that returns a count drops as many bytes from the front. -/
def WritesFront (b : Buffer) (page : Nat) (size : Int) : Prop :=
  (∃ slices, b.writeSlices page size = slices.map some ∧
      Tiles slices b.r_idx_ (b.frontCount size)) ∧
    ∀ written, ∃ c ret, b.readFile page size written = .ok (c, ret) ∧
      (0 ≤ ret → c.r_idx_ = b.r_idx_ + ret.toNat ∧ c.readable = b.readable.drop ret.toNat)

/-- The front ends before the page behind `RPtr()`, counted from `WPtr()`. -/
def EndsInPage (b : Buffer) (m : Block UInt8) (page : Nat) (size : Int) : Prop :=
  m.addr + b.w_idx_ + b.frontCount size ≤ ceilPageAlignAddr page (m.addr + b.r_idx_)

section WriteOut

variable {b : Buffer} (h : b.WellFormed) (hlen : b.length_ < 2 ^ 63)

include h hlen

theorem WellFormed.frontCount_eq {size : Int} (hsize : -1 ≤ size) :
    (if size = -1 then toSigned b.readableBytes else min size (toSigned b.readableBytes)) =
      b.frontCount size := by
  have hw := h.w_le_length
  have hbytes : toSigned b.readableBytes = b.readable.length := by
    rw [h.readableBytes_eq, ← h.length_readable]
    apply toSigned_eq
    rw [h.length_readable]
    omega
  unfold frontCount
  rw [hbytes]
  split_ifs
  · rfl
  · omega

omit h hlen in
theorem frontCount_le (size : Int) : b.frontCount size ≤ b.readable.length := by
  unfold frontCount
  split_ifs
  · exact Nat.le_refl _
  · exact Nat.min_le_right _ _

omit h hlen in
theorem endsInPage_iff (m : Block UInt8) (page : Nat) (size : Int) :
    ((b.frontCount size : Nat) : Int) ≤
      ceilPageAlignAddr page (m.addr + b.r_idx_) - (m.addr + b.w_idx_) ↔
        b.EndsInPage m page size := by
  unfold EndsInPage
  omega

variable {m : Block UInt8} (hd : b.data_ = some m) {page : Nat} {size : Int} (hsize : -1 ≤ size)

include hd hsize

/-- One `write` takes the whole front. -/
theorem WellFormed.writeSlices_single (hends : b.EndsInPage m page size) :
    b.writeSlices page size = [some (b.r_idx_, b.frontCount size)] := by
  unfold writeSlices
  rw [h.frontCount_eq hlen hsize, hd]
  show (if _ ≤ (ceilPageAlignAddr page (m.addr + b.r_idx_) - (m.addr + b.w_idx_) : Int) then _
    else _) = _
  rw [if_pos ((endsInPage_iff m page size).mpr hends), Int.toNat_natCast]

/-- On the vectored path the loop starts at the second slice. -/
theorem WellFormed.writeSlices_vectored (hends : ¬ b.EndsInPage m page size) :
    (b.writeSlices page size).head? = some none := by
  unfold writeSlices
  rw [h.frontCount_eq hlen hsize, hd]
  show List.head? (if _ ≤ (ceilPageAlignAddr page (m.addr + b.r_idx_) - (m.addr + b.w_idx_) : Int)
    then _ else _) = _
  rw [if_neg (mt (endsInPage_iff m page size).mp hends)]
  rfl

/-- A `write` of the front: what it has taken is dropped. -/
theorem WellFormed.readFile_single (hends : b.EndsInPage m page size) (written : Option Nat) :
    ∃ c ret, b.readFile page size written = .ok (c, ret) ∧
      (0 ≤ ret → c.r_idx_ = b.r_idx_ + ret.toNat ∧ c.readable = b.readable.drop ret.toNat) := by
  have hle := b.frontCount_le size
  have hfits := (endsInPage_iff m page size).mpr hends
  unfold readFile
  rw [hd]
  dsimp only
  rw [h.frontCount_eq hlen hsize, if_neg (by omega), Int.toNat_natCast, h.load_front hle, ok_bind]
  cases written with
  | none => exact ⟨_, -1, rfl, fun hneg => absurd hneg (by decide)⟩
  | some n =>
    have hn : min n (b.frontCount size) ≤ b.readable.length := by omega
    obtain ⟨-, hread⟩ := h.advance (h.length_readable ▸ hn)
    rw [hd] at hread
    refine ⟨_, _, rfl, fun _ => ?_⟩
    rw [h.wrap_advance hn, Int.toNat_natCast]
    exact ⟨rfl, hread⟩

/-- **`Read(file)`** writes out the front if and only if one `write` does it: the vectored path
never sets its first slice. -/
theorem WellFormed.writesFront_iff : b.WritesFront page size ↔ b.EndsInPage m page size := by
  by_cases hends : b.EndsInPage m page size
  · refine iff_of_true ⟨⟨[(b.r_idx_, b.frontCount size)], ?_, ?_⟩, ?_⟩ hends
    · exact h.writeSlices_single hlen hd hsize hends
    · have htile := tiles_inRow b.r_idx_ [b.frontCount size]
      rwa [List.sum_singleton] at htile
    · exact h.readFile_single hlen hd hsize hends
  · refine iff_of_false ?_ hends
    rintro ⟨⟨slices, heq, -⟩, -⟩
    have hfirst := h.writeSlices_vectored hlen hd hsize hends
    rw [heq] at hfirst
    cases slices <;> cases hfirst

end WriteOut

/-- One page, full. -/
def fullPage : Buffer := { sized 4096 true 4096 fun _ => 0 with w_idx_ := 4096 }

theorem wellFormed_fullPage : fullPage.WellFormed := by
  constructor <;> simp [fullPage, sized]

theorem writesFront_iff_fullPage :
    fullPage.WellFormed ∧ fullPage.length_ < 2 ^ 63 ∧
      fullPage.data_ = some ⟨4096, 4096, fun _ => 0⟩ ∧ (-1 : Int) ≤ 0 ∧
      (fullPage.WritesFront 13 0 ↔ fullPage.EndsInPage ⟨4096, 4096, fun _ => 0⟩ 13 0) :=
  have hlen : fullPage.length_ < 2 ^ 63 := by decide
  ⟨wellFormed_fullPage, hlen, rfl, by decide,
    wellFormed_fullPage.writesFront_iff hlen rfl (by decide)⟩

/-- A full page of 4096 bytes is to be written out: the rest of the page is counted from `WPtr()`,
which is at its end, and the first slice is never set. -/
theorem fullPage_not_writesFront : fullPage.WellFormed ∧ ¬ fullPage.WritesFront 12 (-1) := by
  refine ⟨wellFormed_fullPage, ?_⟩
  rintro ⟨⟨slices, heq, -⟩, -⟩
  have hfirst : (fullPage.writeSlices 12 (-1)).head? = some none := by decide
  rw [heq] at hfirst
  cases slices <;> cases hfirst

/-! ### Into the front of a buffer -/

section Front

variable {b : Buffer} (h : b.WellFormed) (hr : b.r_idx_ = 0) {n : Nat}
  (hn : b.w_idx_ + n ≤ 2 ^ 63)

include h hr hn

/-- With the readable bytes at the front the new length holds them and the new ones. -/
theorem WellFormed.newLength_front (capped : Bool) :
    ∃ n', b.newLength n capped = some n' ∧ b.w_idx_ + n ≤ n' := by
  have htarget : wrap64 (b.w_idx_ - b.r_idx_ + n) = b.w_idx_ + n := by
    unfold wrap64
    omega
  unfold newLength
  rw [htarget]
  cases capped with
  | true => exact ⟨_, rfl, Nat.le_refl _⟩
  | false =>
    obtain ⟨k, hk, hle, -⟩ := nextPowOfTwo_spec h.length_lt hn
    exact ⟨_, hk, hle⟩

/-- With the readable bytes at the front `ensureWritable` makes room, or there is no memory. -/
theorem WellFormed.ensureWritable_front (capped drop : Bool) (alloc : Alloc) :
    ((∃ k, alloc k = none) ∧ b.ensureWritable n capped drop alloc = .ok (b, false)) ∨
      ∃ c, b.ensureWritable n capped drop alloc = .ok (c, true) ∧ c.WellFormed ∧ c.r_idx_ = 0 ∧
        c.readable = b.readable ∧ c.w_idx_ + n ≤ c.length_ := by
  rw [h.ensureWritable_eq]
  by_cases hfree : b.w_idx_ + n ≤ b.length_
  · rw [if_pos hfree]
    exact Or.inr ⟨b, rfl, h, hr, rfl, hfree⟩
  rw [if_neg hfree]
  have hfit : ¬ (drop = true ∧ b.w_idx_ - b.r_idx_ + n ≤ b.length_) := by
    rintro ⟨-, hle⟩
    omega
  rw [if_neg hfit]
  obtain ⟨n', hn', hlong⟩ := h.newLength_front hr hn capped
  rw [hn']
  dsimp only
  cases ha : alloc n' with
  | none => exact Or.inl ⟨⟨n', ha⟩, rfl⟩
  | some r =>
    have hle : b.length_ ≤ n' := by omega
    obtain ⟨m, hm, hsize, hcells⟩ := newBlock_spec h.size hle r.1 r.2
    have hg : GrownTo b n' { b with data_ := some m, length_ := n' } :=
      ⟨rfl, rfl, rfl, rfl, rfl, m, rfl, hsize, hcells⟩
    dsimp only
    rw [hm]
    exact Or.inr ⟨_, rfl, hg.wellFormed h hle (h.newLength_lt hn'), hr, hg.readable h, hlong⟩

/-- **`Append(file)`** appends the bytes that have been read, and returns their number unless
nothing has been read. -/
theorem WellFormed.appendFile_front {file : FileRead} (hsize : file.size ≤ 0)
    (hl : ∀ l, file.result = some l → l.length ≤ n) (page : Nat) (alloc : Alloc) :
    ∃ c ret, b.appendFile page file n false false alloc = .ok (c, ret) ∧ c.WellFormed ∧
      c.r_idx_ = 0 ∧ c.readable = b.readable ++ b.bytesRead file n false false alloc ∧
      (ret = -1 ∧ b.bytesRead file n false false alloc = [] ∨
        ret = (b.bytesRead file n false false alloc).length ∧
          file.result = some (b.bytesRead file n false false alloc)) := by
  have hread_size : readSize file n = n := if_neg (by omega)
  have hsize' : (if 0 < file.size then min n file.size.toNat else n) = n := hread_size
  rcases h.ensureWritable_front hr hn false false alloc with ⟨-, hc⟩ | ⟨c, hc, hwf, hzero, hread, hroom⟩
  · have hnone : b.bytesRead file n false false alloc = [] := by
      unfold bytesRead
      dsimp only
      rw [hsize', hc]
    rw [hnone, List.append_nil]
    refine ⟨b, -1, ?_, h, hr, rfl, .inl ⟨rfl, rfl⟩⟩
    unfold appendFile
    dsimp only
    rw [hsize', hc]
    rfl
  have hc' : b.ensureWritable (readSize file n) false false alloc = .ok (c, true) :=
    hread_size.symm ▸ hc
  have hbytes : b.bytesRead file n false false alloc = (file.result.getD []).take n := by
    unfold bytesRead
    dsimp only
    rw [hsize', hc]
  rw [hwf.appendFile_ensured page file n hc' (by omega), hread_size, hbytes]
  cases hresult : file.result with
  | none =>
    rw [Option.getD_none, List.take_nil, List.append_nil]
    exact ⟨c, -1, rfl, hwf, hzero, hread, .inl ⟨rfl, rfl⟩⟩
  | some l =>
    have hlen := hl l hresult
    have hfit : c.w_idx_ + l.length ≤ c.length_ := by omega
    rw [Option.getD_some]
    dsimp only
    rw [List.take_of_length_le hlen]
    refine ⟨c.written l, l.length, rfl, hwf.written hfit, hzero, ?_, .inr ⟨rfl, rfl⟩⟩
    rw [hwf.readable_written hfit, hread]

end Front

/-- For a target of at most `2 ^ 62` the growth stops below `2 ^ 63`. -/
theorem nextPowOfTwo_lt {length target n : Nat} (hlength : length < 2 ^ 63) (ht : target ≤ 2 ^ 62)
    (h : nextPowOfTwo length target = some n) : n < 2 ^ 63 := by
  have hlt : length < 2 ^ 64 := by omega
  have htop : target ≤ 2 ^ 63 := by omega
  obtain ⟨k, hk, -, -, hmin⟩ := nextPowOfTwo_spec hlt htop
  obtain rfl := Option.some.inj (h.symm.trans hk)
  cases k with
  | zero =>
    unfold growthBase
    split_ifs <;> omega
  | succ k =>
    have hlast := hmin k (Nat.lt_succ_self k)
    rw [Nat.pow_succ, ← Nat.mul_assoc]
    omega

/-- **`Append` at the front** succeeds as long as there is memory. -/
theorem WellFormed.append_granted {b : Buffer} (h : b.WellFormed) (hr : b.r_idx_ = 0)
    (hlen : b.length_ < 2 ^ 63) {l : List UInt8} (hl : b.w_idx_ + l.length ≤ 2 ^ 62) {alloc : Alloc}
    (halloc : ∀ n < 2 ^ 63, alloc n ≠ none) :
    ∃ c, b.append (.bytes l) l.length false false alloc = .ok (c, l.length) := by
  have hok : ∃ c, b.ensureWritable l.length false false alloc = .ok (c, true) := by
    have htarget : b.w_idx_ - b.r_idx_ + l.length ≤ 2 ^ 62 := by omega
    have hcases : Ensured b l.length false alloc _ := h.ensureWritable_cases false alloc (by omega)
    generalize b.ensureWritable l.length false false alloc = r at hcases ⊢
    cases hcases with
    | room => exact ⟨b, rfl⟩
    | compact _ hdrop => cases hdrop
    | diverge _ hn =>
      have htop : b.w_idx_ - b.r_idx_ + l.length ≤ 2 ^ 63 := by omega
      obtain ⟨k, hk, -⟩ := nextPowOfTwo_spec h.length_lt htop
      cases hn.symm.trans hk
    | noMemory _ hn hnone => exact absurd hnone (halloc _ (nextPowOfTwo_lt hlen htarget hn))
    | grow => exact ⟨_, rfl⟩
  obtain ⟨c, hc⟩ := hok
  rcases h.ensureWritable_front hr (show b.w_idx_ + l.length ≤ 2 ^ 63 by omega) false false alloc with
    ⟨-, hfalse⟩ | ⟨c, hc, hwf, -, -, hroom⟩
  · cases hfalse.symm.trans hc
  · have hfetch : l.length = 0 ∨ c.fetch (.bytes l) l.length = .ok l := by
      right
      simp [fetch]
    have happend := hwf.append_room hroom hfetch false false alloc
    rw [toSigned_eq (by omega)] at happend
    refine ⟨c.written l, ?_⟩
    unfold append at happend ⊢
    rw [hwf.ensureWritable_room hroom] at happend
    rw [hc]
    exact happend

end Buffer

end Lizlib
