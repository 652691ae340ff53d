import Lizlib.Common.BufferPool
import Lizlib.Common.Equiv.Buffer

/-!
# When the buffer refines a byte FIFO

`ensureWritable` grows to the first doubling of `length_` that holds the readable bytes and the new
ones, but leaves the readable bytes where they are: behind a consumed prefix the new bytes may not
fit (`Buffer.Overruns`).

* `onBuffers_spec`: one operation on well-formed buffers, with and without an overrun.
* `refines_iff_noOverrun`: exactly which runs refine the FIFOs all along.
-/

namespace Lizlib

open Function

/-- The operation does not make a buffer's growth overrun.  `Append(buffer)` and `Transfer(from)`
ask for room twice: with `drop_read_bytes` the second time compacts, which helps unless the source
is the buffer itself. -/
def BufferLabel.NoOverrun {ι : Type*} (buf : ι → Buffer) (q : ι → List UInt8) :
    BufferLabel ι → Prop
  | append i l drop _ | appendBasic i l drop _ => ¬ (buf i).Overruns l.length drop
  | appendBuffer i j drop _ _ | transfer i j drop _ _ =>
    (i = j → ¬ (buf i).Overruns (q i).length drop) ∧
      (i ≠ j → drop = false → ¬ (buf i).Overruns (q j).length false)
  | _ => True

theorem Granted.alloc_ne_none (g : Granted) (n : Nat) : g.alloc n ≠ none := by
  simp [Granted.alloc]

namespace BufferCtor

variable (ctor : BufferCtor)

theorem wellFormed_make : ctor.make.WellFormed := by
  cases ctor with
  | default => exact Buffer.wellFormed_default
  | sized length aligned addr cells =>
    exact Buffer.wellFormed_sized (by have := length.isLt; omega) aligned cells

theorem readable_make : ctor.make.readable = [] := by
  cases ctor <;> simp [make, Buffer.readable, Buffer.default, Buffer.sized]

theorem indices_make : ctor.make.r_idx_ = 0 ∧ ctor.make.w_idx_ = 0 := by
  cases ctor <;> exact ⟨rfl, rfl⟩

end BufferCtor

namespace BufferPool

variable {ι : Type*}

/-- The buffers hold what the FIFOs hold. -/
structure Agree (buf : ι → Buffer) (q : ι → List UInt8) : Prop where
  wellFormed : ∀ i, (buf i).WellFormed
  readable : ∀ i, (buf i).readable = q i

theorem Agree.update [DecidableEq ι] {buf : ι → Buffer} {q : ι → List UInt8} (h : Agree buf q)
    {i : ι} {b : Buffer} {l : List UInt8} (hb : b.WellFormed) (hl : b.readable = l) :
    Agree (update buf i b) (update q i l) := by
  constructor
  · intro k
    by_cases hk : k = i
    · subst hk
      simpa using hb
    · simpa [hk] using h.wellFormed k
  · intro k
    by_cases hk : k = i
    · subst hk
      simpa using hl
    · simpa [hk] using h.readable k

/-- An operation that keeps the contents. -/
theorem Agree.keep [DecidableEq ι] {buf : ι → Buffer} {q : ι → List UInt8} (h : Agree buf q)
    {i : ι} {b : Buffer} (hb : b.WellFormed) (hl : b.readable = q i) :
    Agree (Function.update buf i b) q := by
  have hq : Agree _ (Function.update q i (q i)) := h.update hb hl
  rwa [update_eq_self] at hq

theorem Agree.readableBytes_eq {buf : ι → Buffer} {q : ι → List UInt8} (h : Agree buf q) (i : ι) :
    (buf i).readableBytes = (q i).length := by
  rw [(h.wellFormed i).readableBytes_eq, ← (h.wellFormed i).length_readable, h.readable i]

theorem Agree.used_eq {buf : ι → Buffer} {q : ι → List UInt8} (h : Agree buf q) (i : ι) :
    (buf i).w_idx_ - (buf i).r_idx_ = (q i).length := by
  rw [← (h.wellFormed i).length_readable, h.readable i]

variable [DecidableEq ι]

omit [DecidableEq ι] in
theorem fetch_bytes (c : Buffer) (l : List UInt8) :
    l.length = 0 ∨ c.fetch (.bytes l) l.length = .ok l := by
  right
  simp [Buffer.fetch]

theorem append_spec {buf : ι → Buffer} {q : ι → List UInt8} (h : Agree buf q) {i : ι}
    {l : List UInt8} {drop : Bool} {g : Granted} (hl : (q i).length + l.length < 2 ^ 63) :
    (¬ (buf i).Overruns l.length drop → ∃ buf',
        (BufferLabel.append i l drop g).onBuffers buf = .ok (buf', []) ∧
          Agree buf' (update q i (q i ++ l))) ∧
      ((buf i).Overruns l.length drop →
        ∃ e, (BufferLabel.append i l drop g).onBuffers buf = .error e) := by
  have hreq : (buf i).w_idx_ - (buf i).r_idx_ + l.length < 2 ^ 63 := by rw [h.used_eq]; exact hl
  constructor
  · intro ho
    obtain ⟨b, hb, hwf, hread⟩ := (h.wellFormed i).append_ok hreq (Granted.alloc_ne_none g) rfl
      (fun c => fetch_bytes c l) ho
    refine ⟨update buf i b, ?_, h.update hwf ?_⟩
    · simp only [BufferLabel.onBuffers, hb]
      rfl
    · rw [hread, h.readable i]
  · intro ho
    obtain ⟨e, he⟩ := (h.wellFormed i).append_error hreq (Granted.alloc_ne_none g) (.bytes l) ho
    refine ⟨e, ?_⟩
    simp only [BufferLabel.onBuffers, he]
    rfl

theorem appendBuffer_spec {buf : ι → Buffer} {q : ι → List UInt8} (h : Agree buf q) {i j : ι}
    {drop : Bool} {g g' : Granted} (hl : (q i).length + (q j).length < 2 ^ 63) :
    ((BufferLabel.appendBuffer i j drop g g').NoOverrun buf q → ∃ buf',
        (BufferLabel.appendBuffer i j drop g g').onBuffers buf = .ok (buf', []) ∧
          Agree buf' (update q i (q i ++ q j))) ∧
      (¬ (BufferLabel.appendBuffer i j drop g g').NoOverrun buf q →
        ∃ e, (BufferLabel.appendBuffer i j drop g g').onBuffers buf = .error e) := by
  simp only [BufferLabel.NoOverrun, BufferLabel.onBuffers]
  have hbytes := h.readableBytes_eq
  by_cases hij : i = j
  · subst hij
    obtain ⟨hok, herr⟩ := (h.wellFormed i).appendBuffer_self drop (Granted.alloc_ne_none g) (Granted.alloc_ne_none g')
      (by rw [h.used_eq, hbytes]; exact hl)
    rw [hbytes] at hok herr
    simp only [if_true, true_implies, ne_eq, not_true_eq_false, false_implies, and_true, not_not]
    refine ⟨fun ho => ?_, fun ho => ?_⟩
    · obtain ⟨b, hb, hwf, hread⟩ := hok ho
      refine ⟨update buf i b, by rw [hb]; rfl, h.update hwf ?_⟩
      rw [hread, h.readable i]
    · obtain ⟨e, he⟩ := herr ho
      exact ⟨e, by rw [he]; rfl⟩
  · obtain ⟨hok, herr⟩ := (h.wellFormed i).appendBuffer_other drop (Granted.alloc_ne_none g)
      (Granted.alloc_ne_none g') (h.wellFormed j) (by rw [h.used_eq, hbytes]; exact hl)
    rw [hbytes] at hok herr
    simp only [hij, if_false, false_implies, true_and, ne_eq, not_false_eq_true, true_implies]
    refine ⟨fun ho => ?_, fun ho => ?_⟩
    · obtain ⟨b, hb, hwf, hread⟩ := hok fun hd => ho hd.1 hd.2
      refine ⟨update buf i b, by rw [hb]; rfl, h.update hwf ?_⟩
      rw [hread, h.readable i, h.readable j]
    · obtain ⟨e, he⟩ := herr (by simpa using ho)
      exact ⟨e, by rw [he]; rfl⟩

theorem transfer_spec {buf : ι → Buffer} {q : ι → List UInt8} (h : Agree buf q) {i j : ι}
    {drop : Bool} {g g' : Granted} (hl : (q i).length + (q j).length < 2 ^ 63) :
    ((BufferLabel.transfer i j drop g g').NoOverrun buf q → ∃ buf',
        (BufferLabel.transfer i j drop g g').onBuffers buf = .ok (buf', []) ∧
          Agree buf' (if i = j then q else update (update q i (q i ++ q j)) j [])) ∧
      (¬ (BufferLabel.transfer i j drop g g').NoOverrun buf q →
        ∃ e, (BufferLabel.transfer i j drop g g').onBuffers buf = .error e) := by
  simp only [BufferLabel.NoOverrun, BufferLabel.onBuffers]
  have hbytes := h.readableBytes_eq
  have hsize : (buf j).readableBytes < 2 ^ 63 := by
    rw [hbytes]
    omega
  by_cases hij : i = j
  · subst hij
    obtain ⟨hok, herr⟩ := (h.wellFormed i).transferSelf_spec drop (Granted.alloc_ne_none g) (Granted.alloc_ne_none g')
      (by rw [h.used_eq, hbytes]; exact hl) hsize
    rw [hbytes] at hok herr
    simp only [if_true, true_implies, ne_eq, not_true_eq_false, false_implies, and_true, not_not]
    refine ⟨fun ho => ?_, fun ho => ?_⟩
    · obtain ⟨b, hb, hwf, hread⟩ := hok ho
      refine ⟨update buf i b, by rw [hb]; rfl, h.keep hwf ?_⟩
      rw [hread, h.readable i]
    · obtain ⟨e, he⟩ := herr ho
      exact ⟨e, by rw [he]; rfl⟩
  · obtain ⟨hok, herr⟩ := (h.wellFormed i).transfer_other drop (Granted.alloc_ne_none g)
      (Granted.alloc_ne_none g') (h.wellFormed j) (by rw [h.used_eq, hbytes]; exact hl) hsize
    rw [hbytes] at hok herr
    simp only [hij, if_false, false_implies, true_and, ne_eq, not_false_eq_true, true_implies]
    refine ⟨fun ho => ?_, fun ho => ?_⟩
    · obtain ⟨b, source, hb, hwf, hread, hwf', hread'⟩ := hok fun hd => ho hd.1 hd.2
      refine ⟨update (update buf i b) j source, by rw [hb]; rfl, (h.update hwf ?_).update hwf' hread'⟩
      rw [hread, h.readable i, h.readable j]
    · obtain ⟨e, he⟩ := herr (by simpa using ho)
      exact ⟨e, by rw [he]; rfl⟩

theorem readBasic_spec {buf : ι → Buffer} {q : ι → List UInt8} (h : Agree buf q) {i : ι}
    (hlt : (q i).length < 2 ^ 63) (size : Nat) :
    ∃ buf', (BufferLabel.readBasic i size).onBuffers buf =
        .ok (buf', ((BufferLabel.readBasic i size).onFifos q).2) ∧
      Agree buf' ((BufferLabel.readBasic i size).onFifos q).1 := by
  obtain ⟨hok, hshort⟩ := (h.wellFormed i).readBasic_spec (by rw [h.readable i]; exact hlt) size
  rw [h.readable i] at hok hshort
  simp only [BufferLabel.onBuffers, BufferLabel.onFifos]
  by_cases hsize : size ≤ (q i).length
  · rw [if_pos hsize]
    by_cases hd : (buf i).data_ = none
    · -- only a type of no bytes could be read from a null block
      have hnil : q i = [] := by
        rw [← h.readable i, Buffer.readable, hd]
      have hupdate : update q i ((q i).drop size) = q := by
        rw [hnil, List.drop_nil, ← hnil, update_eq_self]
      refine ⟨update buf i (buf i), by rw [hshort (Or.inr hd), hnil, List.take_nil]; rfl, ?_⟩
      rw [hupdate, update_eq_self]
      exact h
    · obtain ⟨b, hb, hwf, hread⟩ := hok hsize hd
      exact ⟨update buf i b, by rw [hb]; rfl, h.update hwf hread⟩
  · rw [if_neg hsize, hshort (Or.inl (by omega))]
    refine ⟨update buf i (buf i), rfl, ?_⟩
    rw [update_eq_self]
    exact h

/-- **One operation** on buffers that agree with their FIFOs: without an overrun they agree
afterwards, and the same bytes have come out; with one the operation faults. -/
theorem onBuffers_spec {buf : ι → Buffer} {q : ι → List UInt8} (h : Agree buf q)
    (hlt : ∀ i, (q i).length < 2 ^ 63) {l : BufferLabel ι} (hl : l.Allowed q) :
    (l.NoOverrun buf q → ∃ buf', l.onBuffers buf = .ok (buf', (l.onFifos q).2) ∧
        Agree buf' (l.onFifos q).1) ∧
      (¬ l.NoOverrun buf q → ∃ e, l.onBuffers buf = .error e) := by
  cases l with
  | append i l drop g =>
    obtain ⟨hok, herr⟩ := append_spec h hl
    exact ⟨hok, fun ho => herr (not_not.mp ho)⟩
  | appendBasic i v drop g =>
    have heq : (BufferLabel.appendBasic i v drop g).onBuffers buf
        = (BufferLabel.append i v drop g).onBuffers buf := by
      have hv : v.length < 2 ^ 63 := by
        have : (q i).length + v.length < 2 ^ 63 := hl
        omega
      simp only [BufferLabel.onBuffers, Buffer.appendBasic_eq_append _ hv]
    obtain ⟨hok, herr⟩ := append_spec h hl
    rw [heq]
    exact ⟨hok, fun ho => herr (not_not.mp ho)⟩
  | appendBuffer i j drop g g' => exact appendBuffer_spec h hl
  | transfer i j drop g g' => exact transfer_spec h hl
  | read i size always =>
    obtain ⟨b, ret, hb, hwf, hread⟩ := (h.wellFormed i).read_spec
      (by rw [h.readable i]; exact hlt i) size always
    refine ⟨fun _ => ⟨update buf i b, ?_, h.update hwf ?_⟩, fun hn => absurd trivial hn⟩
    · simp only [BufferLabel.onBuffers, hb, BufferLabel.onFifos, h.readable i]
      rfl
    · rw [hread, h.readable i]
  | readBasic i size =>
    exact ⟨fun _ => readBasic_spec h (hlt i) size, fun hn => absurd trivial hn⟩
  | retrieve i n always =>
    have hn : n ≤ (buf i).readable.length := by
      rw [h.readable i]
      exact hl
    obtain ⟨b, hb, hwf, hread, -⟩ := (h.wellFormed i).retrieve_spec hn always
    refine ⟨fun _ => ⟨update buf i b, ?_, h.update hwf ?_⟩, fun hn => absurd trivial hn⟩
    · simp only [BufferLabel.onBuffers, hb]
      rfl
    · rw [hread, h.readable i]
  | rearrange i =>
    have hb := (h.wellFormed i).rearrange_eq
    refine ⟨fun _ => ⟨update buf i (buf i).compacted, ?_, h.keep (h.wellFormed i).compacted ?_⟩,
      fun hn => absurd trivial hn⟩
    · simp only [BufferLabel.onBuffers, hb]
      rfl
    · rw [Buffer.readable_compacted, h.readable i]
  | reset i =>
    exact ⟨fun _ => ⟨_, rfl, h.update (h.wellFormed i).reset Buffer.readable_reset⟩,
      fun hn => absurd trivial hn⟩

/-! ### Whole runs -/

/-- What the users of buffers may rely on: no copy has reached outside a block or gone wrong
otherwise, the indices are in order, every block has `Length()` bytes, and the buffers hold and
have given back the same bytes as the FIFOs. -/
structure Refines (s : BufferPool ι) : Prop where
  no_fault : s.fault = none
  r_le_w : ∀ i, (s.buf i).r_idx_ ≤ (s.buf i).w_idx_
  w_le_length : ∀ i, (s.buf i).w_idx_ ≤ (s.buf i).length_
  block : ∀ i m, (s.buf i).data_ = some m → m.size = (s.buf i).length_
  readable : ∀ i, (s.buf i).readable = s.fifo i
  out : s.out = s.fifoOut

/-- The step does not make a buffer's growth overrun. -/
def NoOverrun (l : BufferLabel ι) (s : BufferPool ι) : Prop := l.NoOverrun s.buf s.fifo

/-- What holds as long as the buffers refine the FIFOs. -/
structure Inv (s : BufferPool ι) : Prop where
  wellFormed : ∀ i, (s.buf i).WellFormed
  length_lt : ∀ i, (s.fifo i).length < 2 ^ 63

/-- Allowed operations keep every FIFO below `2^63` bytes. -/
theorem length_onFifos_lt {q : ι → List UInt8} (hlt : ∀ i, (q i).length < 2 ^ 63)
    {l : BufferLabel ι} (hl : l.Allowed q) (k : ι) : ((l.onFifos q).1 k).length < 2 ^ 63 := by
  have hupdate : ∀ {r : ι → List UInt8} {i : ι} {x : List UInt8}, (∀ k, (r k).length < 2 ^ 63) →
      x.length < 2 ^ 63 → ∀ k, (update r i x k).length < 2 ^ 63 := by
    intro r i x hr hx k
    rw [update_apply]
    split_ifs
    · exact hx
    · exact hr k
  cases l with
  | append i l drop g => exact hupdate hlt (by simpa [BufferLabel.Allowed] using hl) k
  | appendBasic i v drop g => exact hupdate hlt (by simpa [BufferLabel.Allowed] using hl) k
  | appendBuffer i j drop g g' => exact hupdate hlt (by simpa [BufferLabel.Allowed] using hl) k
  | transfer i j drop g g' =>
    simp only [BufferLabel.onFifos]
    split_ifs
    · exact hlt k
    · exact hupdate (hupdate hlt (by simpa [BufferLabel.Allowed] using hl)) (by simp) k
  | read i size always =>
    refine hupdate hlt ?_ k
    have := hlt i
    rw [List.length_drop]
    omega
  | readBasic i size =>
    simp only [BufferLabel.onFifos]
    split_ifs
    · refine hupdate hlt ?_ k
      have := hlt i
      rw [List.length_drop]
      omega
    · exact hlt k
  | retrieve i n always =>
    refine hupdate hlt ?_ k
    have := hlt i
    rw [List.length_drop]
    omega
  | rearrange i => exact hlt k
  | reset i => exact hupdate hlt (by simp) k

/-- One operation on buffers that refine their FIFOs. -/
theorem step_spec {l : BufferLabel ι} {s t : BufferPool ι} (h : Inv s) (hs : Refines s)
    (ht : BufferPool.step l s = some t) :
    (NoOverrun l s → Refines t ∧ Inv t) ∧ (¬ NoOverrun l s → ¬ Refines t) := by
  have hagree : Agree s.buf s.fifo := ⟨h.wellFormed, hs.readable⟩
  unfold step at ht
  split_ifs at ht with hen
  obtain ⟨hok, herr⟩ := onBuffers_spec hagree h.length_lt hen.2
  constructor
  · intro hno
    obtain ⟨buf', hbuf, hagree'⟩ := hok hno
    rw [hbuf, Option.some.injEq] at ht
    subst ht
    refine ⟨⟨hs.no_fault, ?_, ?_, ?_, hagree'.readable, ?_⟩, ?_⟩
    · exact fun i => (hagree'.wellFormed i).r_le_w
    · exact fun i => (hagree'.wellFormed i).w_le_length
    · exact fun i => (hagree'.wellFormed i).size
    · simp only [hs.out]
    · exact ⟨hagree'.wellFormed, length_onFifos_lt h.length_lt hen.2⟩
  · intro hno ht'
    obtain ⟨e, he⟩ := herr hno
    rw [he, Option.some.injEq] at ht
    subst ht
    simpa using ht'.no_fault

omit [DecidableEq ι] in
theorem inv_start (ctor : ι → BufferCtor) : Inv (start ctor) ∧ Refines (start ctor) := by
  have hwf : ∀ i, ((ctor i).make).WellFormed := fun i => (ctor i).wellFormed_make
  refine ⟨⟨hwf, fun _ => by simp [start]⟩, rfl, ?_, ?_, ?_, ?_, rfl⟩
  · exact fun i => (hwf i).r_le_w
  · exact fun i => (hwf i).w_le_length
  · exact fun i => (hwf i).size
  · exact fun i => (ctor i).readable_make

/-- **The runs that refine byte FIFOs**: along a schedule the buffers refine the FIFOs in every
state, if and only if no operation makes a buffer's growth overrun. -/
theorem refines_iff_noOverrun (ctor : ι → BufferCtor) (ls : List (BufferLabel ι)) :
    (bufferPool ι).AllStates Refines ls (start ctor) ↔
      (bufferPool ι).AllSteps NoOverrun ls (start ctor) := by
  obtain ⟨hinv, hrefines⟩ := inv_start ctor
  refine System.allStates_iff_allSteps (fun l s t h hs ht ht' => ?_) (fun l s t h hs ht => ?_) ls
    hinv hrefines
  · obtain ⟨hok, herr⟩ := step_spec h hs ht
    by_cases hno : NoOverrun l s
    · exact (hok hno).2
    · exact absurd ht' (herr hno)
  · obtain ⟨hok, herr⟩ := step_spec h hs ht
    refine ⟨fun ht' => ?_, fun hno => (hok hno).1⟩
    by_contra hno
    exact herr hno ht'

/-- Sixteen bytes fill the buffer, ten are read without rearranging, and eight more are appended:
fourteen bytes would fit into the sixteen, so the length stays as it is, and the copy starts at
offset sixteen. -/
def overrun : List (BufferLabel Unit) :=
  [.append () (List.replicate 16 0) false fun _ => (0, fun _ => 0), .read () 10 false,
    .append () (List.replicate 8 1) false fun _ => (0, fun _ => 0)]

theorem overrun_not_refines :
    ∃ s, (bufferPool Unit).Reachable s ∧ ¬ Refines s := by
  have hrun : ((bufferPool Unit).run overrun
      (start fun _ => .sized 16 false 0 fun _ => 0)).map BufferPool.fault =
        some (some .outOfBlock) := by
    decide
  obtain ⟨s, hs, hfault⟩ := Option.map_eq_some_iff.mp hrun
  refine ⟨s, System.reachable_of_run ⟨_, rfl⟩ hs, fun h => ?_⟩
  simp [h.no_fault] at hfault

end BufferPool

end Lizlib
