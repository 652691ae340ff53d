import Lizlib.Common.Equiv.BufferFile
import Lizlib.Common.Equiv.BufferPool

/-!
# Values through a chain of buffers

Values of basic types go into a fresh buffer with `AppendBasic`, from buffer to buffer with
`Append(buffer)` and `Transfer`, and come out of the last one with `ReadBasic`.  Nothing is consumed
before the end of the chain, so the readable bytes of every buffer are at its front, where growth is
right (`append_front_room`).

* `appendBasics_spec`, `passOn_spec`, `readBasics_spec`: the three stages, by induction on the
  values and on the hops.
* `roundTrip`: the values that come out are those that went in.
-/

namespace Lizlib

namespace Buffer

/-! ### The chain -/

/-- A value of a basic type: its object representation. -/
structure Basic where
  bytes : List UInt8
  sizeof_pos : bytes ≠ []

/-- The flags of a call, and the memory each of its calls of `ensureWritable` is given. -/
structure Flags where
  capped : Bool
  drop_read_bytes : Bool
  memory : Granted
  memory' : Granted

/-- The way from one buffer to the next: `Transfer` or `Append(buffer)`, into a fresh buffer. -/
structure Hop where
  transfer : Bool
  ctor : BufferCtor
  flags : Flags

/-- `AppendBasic` of the values in order: the buffer, and what the calls return. -/
def appendBasics : List (Basic × Flags) → Buffer → Except Fault (Buffer × List Int)
  | [], b => .ok (b, [])
  | (v, f) :: vs, b => do
    let (b, ret) ← b.appendBasic v.bytes f.capped f.drop_read_bytes f.memory.alloc
    let (b, rets) ← appendBasics vs b
    return (b, ret :: rets)

/-- One hop: the next buffer, and the one before it as it is left. -/
def Hop.pass (hop : Hop) (b : Buffer) : Except Fault (Buffer × Buffer) :=
  if hop.transfer then do
    let (next, b, _) ← hop.ctor.make.transfer b hop.flags.capped hop.flags.drop_read_bytes
      hop.flags.memory.alloc hop.flags.memory'.alloc
    return (next, b)
  else do
    let (next, _) ← hop.ctor.make.appendBuffer (some b) hop.flags.capped hop.flags.drop_read_bytes
      hop.flags.memory.alloc hop.flags.memory'.alloc
    return (next, b)

/-- The hops in order: the last buffer, and for each hop the buffer it starts from, before and after
it. -/
def passOn : List Hop → Buffer → Except Fault (Buffer × List (Buffer × Buffer))
  | [], b => .ok (b, [])
  | hop :: hops, b => do
    let (next, left) ← hop.pass b
    let (last, trace) ← passOn hops next
    return (last, (b, left) :: trace)

/-- `ReadBasic` of types of the given sizes in order: the buffer, and what the calls return. -/
def readBasics : List Nat → Buffer → Except Fault (Buffer × List (Option (List UInt8)))
  | [], b => .ok (b, [])
  | size :: sizes, b => do
    let (b, v) ← b.readBasic size
    let (b, vs) ← readBasics sizes b
    return (b, v :: vs)

/-- The bytes of some values. -/
def basicBytes (vs : List (Basic × Flags)) : List UInt8 := vs.flatMap fun v => v.1.bytes

/-! ### At the front -/

/-- A well-formed buffer that holds `l` at its front. -/
structure Holds (b : Buffer) (l : List UInt8) : Prop where
  wellFormed : b.WellFormed
  r_idx_ : b.r_idx_ = 0
  readable : b.readable = l

theorem Holds.w_idx_ {b : Buffer} {l : List UInt8} (h : b.Holds l) : b.w_idx_ = l.length := by
  have hlen := h.wellFormed.length_readable
  rw [h.readable, h.r_idx_] at hlen
  exact hlen.symm

theorem holds_make (ctor : BufferCtor) : ctor.make.Holds [] :=
  ⟨ctor.wellFormed_make, ctor.indices_make.1, ctor.readable_make⟩

theorem Holds.written {b : Buffer} {l l' : List UInt8} (h : b.Holds l)
    (hroom : b.w_idx_ + l'.length ≤ b.length_) : (b.written l').Holds (l ++ l') := by
  refine ⟨h.wellFormed.written hroom, h.r_idx_, ?_⟩
  rw [h.wellFormed.readable_written hroom, h.readable]

section Front

variable {b : Buffer} {l : List UInt8} (h : b.Holds l) (f : Flags)

include h

/-- With memory at hand `ensureWritable` makes room behind what is held. -/
theorem Holds.ensureWritable {n : Nat} (hn : l.length + n < 2 ^ 63) :
    ∃ c, b.ensureWritable n f.capped f.drop_read_bytes f.memory.alloc = .ok (c, true) ∧
      c.Holds l ∧ c.w_idx_ + n ≤ c.length_ := by
  have hw := h.w_idx_
  rcases h.wellFormed.ensureWritable_front h.r_idx_ (show b.w_idx_ + n ≤ 2 ^ 63 by omega) f.capped
    f.drop_read_bytes f.memory.alloc with ⟨⟨k, hk⟩, -⟩ | ⟨c, hc, hwf, hr, hread, hroom⟩
  · exact absurd hk (f.memory.alloc_ne_none k)
  · exact ⟨c, hc, ⟨hwf, hr, hread.trans h.readable⟩, hroom⟩

theorem Holds.appendBasic (v : Basic) (hn : l.length + v.bytes.length < 2 ^ 63) :
    ∃ c, b.appendBasic v.bytes f.capped f.drop_read_bytes f.memory.alloc =
      .ok (c, v.bytes.length) ∧ c.Holds (l ++ v.bytes) := by
  obtain ⟨c, hc, hholds, hroom⟩ := h.ensureWritable f hn
  have hfetch : v.bytes.length = 0 ∨ c.fetch (.bytes v.bytes) v.bytes.length = .ok v.bytes := by
    right
    simp [fetch]
  have happend := hholds.wellFormed.append_room hroom hfetch f.capped f.drop_read_bytes f.memory.alloc
  rw [toSigned_eq (by omega)] at happend
  refine ⟨c.written v.bytes, ?_, hholds.written hroom⟩
  rw [appendBasic_eq_append b (by omega)]
  unfold append at happend ⊢
  rw [hholds.wellFormed.ensureWritable_room hroom] at happend
  rw [hc]
  exact happend

/-- **`AppendBasic`** of values in order adds their bytes. -/
theorem appendBasics_spec (vs : List (Basic × Flags))
    (hn : l.length + (basicBytes vs).length < 2 ^ 63) :
    ∃ c, appendBasics vs b = .ok (c, vs.map fun v => (v.1.bytes.length : Int)) ∧
      c.Holds (l ++ basicBytes vs) := by
  induction vs generalizing b l with
  | nil => exact ⟨b, rfl, by rw [basicBytes, List.flatMap_nil, List.append_nil]; exact h⟩
  | cons v vs ih =>
    have hcons : basicBytes (v :: vs) = v.1.bytes ++ basicBytes vs := rfl
    rw [hcons, List.length_append] at hn
    obtain ⟨c, hc, hholds⟩ := h.appendBasic v.2 v.1 (by omega)
    obtain ⟨d, hd, hdholds⟩ := ih hholds (by rw [List.length_append]; omega)
    refine ⟨d, ?_, ?_⟩
    · unfold appendBasics
      rw [hc, ok_bind]
      dsimp only
      rw [hd]
      rfl
    · rwa [hcons, ← List.append_assoc]

end Front

/-! ### From buffer to buffer -/

section Hops

variable {b : Buffer} {l : List UInt8} (h : b.Holds l) (hl : l.length < 2 ^ 63)

include h hl

omit hl in
theorem Holds.readableBytes_eq : b.readableBytes = l.length := by
  rw [h.wellFormed.readableBytes_eq, ← h.wellFormed.length_readable, h.readable]

/-- What the two stages of `Append(buffer)` and `Transfer` leave in a fresh buffer. -/
theorem Holds.copied (ctor : BufferCtor) (f : Flags) :
    ∃ c d, ctor.make.ensureWritable b.readableBytes f.capped f.drop_read_bytes f.memory.alloc =
        .ok (c, true) ∧
      c.append b.rPtr b.readableBytes f.capped f.drop_read_bytes f.memory'.alloc =
        .ok (d, l.length) ∧ d.Holds l := by
  have hbytes := h.readableBytes_eq
  obtain ⟨c, hc, hholds, hroom⟩ := (holds_make ctor).ensureWritable f (n := b.readableBytes) (by
    rw [hbytes, List.length_nil]
    omega)
  have hfetch := h.wellFormed.fetch_rPtr c
  rw [h.readable, hbytes] at hfetch
  rw [hbytes] at hc hroom ⊢
  have happend := hholds.wellFormed.append_room hroom hfetch f.capped f.drop_read_bytes f.memory'.alloc
  rw [toSigned_eq hl] at happend
  exact ⟨c, c.written l, hc, happend, hholds.written hroom⟩

/-- What a hop leaves behind: nothing to read after `Transfer`, the buffer itself after
`Append(buffer)`. -/
def Hop.Left (l : List UInt8) (hop : Hop) (sides : Buffer × Buffer) : Prop :=
  sides.1.readable = l ∧ if hop.transfer then sides.2.readable = [] else sides.2 = sides.1

theorem Holds.pass (hop : Hop) :
    ∃ next left, hop.pass b = .ok (next, left) ∧ next.Holds l ∧ hop.Left l (b, left) := by
  obtain ⟨c, d, hc, hd, hholds⟩ := h.copied hl hop.ctor hop.flags
  unfold Hop.pass Hop.Left
  by_cases htransfer : hop.transfer = true
  · rw [if_pos htransfer]
    unfold transfer
    dsimp only
    rw [hc, ok_bind]
    dsimp only
    rw [if_neg (by decide), hd, ok_bind]
    dsimp only
    by_cases hzero : l.length = 0
    · have hnil := List.length_eq_zero_iff.mp hzero
      rw [if_neg (by omega)]
      refine ⟨d, b, rfl, hholds, h.readable, ?_⟩
      rw [if_pos htransfer, h.readable, hnil]
    · have hr : wrap64 (b.r_idx_ + l.length) = b.w_idx_ := by
        rw [h.r_idx_, h.w_idx_]
        unfold wrap64
        omega
      rw [if_pos (by omega), Int.toNat_natCast, hr]
      refine ⟨d, _, rfl, hholds, h.readable, ?_⟩
      rw [if_pos htransfer]
      exact h.wellFormed.drained.2
  · rw [if_neg htransfer]
    unfold appendBuffer
    dsimp only [Option.getD_some]
    rw [hc, ok_bind]
    dsimp only
    rw [if_neg (by decide), hd]
    refine ⟨d, b, rfl, hholds, h.readable, ?_⟩
    rw [if_neg htransfer]

/-- **Any chain of hops** passes the bytes on. -/
theorem passOn_spec (hops : List Hop) :
    ∃ last trace, passOn hops b = .ok (last, trace) ∧ last.Holds l ∧
      List.Forall₂ (Hop.Left l) hops trace := by
  induction hops generalizing b with
  | nil => exact ⟨b, [], rfl, h, .nil⟩
  | cons hop hops ih =>
    obtain ⟨next, left, hpass, hnext, hleft⟩ := h.pass hl hop
    obtain ⟨last, trace, hrest, hlast, htrace⟩ := ih hnext
    refine ⟨last, (b, left) :: trace, ?_, hlast, .cons hleft htrace⟩
    unfold passOn
    rw [hpass, ok_bind]
    dsimp only
    rw [hrest]
    rfl

end Hops

/-! ### Out of the last buffer -/

/-- **`ReadBasic`** of the same types in order returns the values. -/
theorem readBasics_spec (vs : List (Basic × Flags)) {b : Buffer} (h : b.WellFormed)
    (hread : b.readable = basicBytes vs) (hl : (basicBytes vs).length < 2 ^ 63) :
    ∃ c, readBasics (vs.map fun v => v.1.bytes.length) b =
      .ok (c, vs.map fun v => some v.1.bytes) ∧ c.readable = [] := by
  induction vs generalizing b with
  | nil => exact ⟨b, rfl, hread⟩
  | cons v vs ih =>
    have hcons : basicBytes (v :: vs) = v.1.bytes ++ basicBytes vs := rfl
    rw [hcons] at hread hl
    have hlen : b.readable.length = v.1.bytes.length + (basicBytes vs).length := by
      rw [hread, List.length_append]
    have hpos := List.length_pos_iff.mpr v.1.sizeof_pos
    have hdata : b.data_ ≠ none := by
      intro hnone
      have hempty : b.readable = [] := by simp [readable, hnone]
      rw [hempty, List.length_nil] at hlen
      omega
    obtain ⟨hsome, -⟩ := h.readBasic_spec (by rw [hread]; exact hl) v.1.bytes.length
    obtain ⟨c, hc, hwf, hrest⟩ := hsome (by omega) hdata
    rw [hread, List.take_left] at hc
    rw [hread, List.drop_left] at hrest
    obtain ⟨d, hd, hempty⟩ := ih hwf hrest (by rw [List.length_append] at hl; omega)
    refine ⟨d, ?_, hempty⟩
    rw [List.map_cons, readBasics, hc, ok_bind]
    dsimp only
    rw [hd]
    rfl

/-- **Round trip**: values appended to a fresh buffer, passed through any chain of fresh buffers and
read from the last one are the same values, and nothing is left. -/
theorem roundTrip (ctor : BufferCtor) (vs : List (Basic × Flags)) (hops : List Hop)
    (hsize : (basicBytes vs).length < 2 ^ 63) :
    ∃ first last trace rest,
      appendBasics vs ctor.make = .ok (first, vs.map fun v => (v.1.bytes.length : Int)) ∧
      passOn hops first = .ok (last, trace) ∧
      List.Forall₂ (Hop.Left (basicBytes vs)) hops trace ∧
      readBasics (vs.map fun v => v.1.bytes.length) last =
        .ok (rest, vs.map fun v => some v.1.bytes) ∧
      rest.readable = [] := by
  obtain ⟨first, hfirst, hholds⟩ := appendBasics_spec (holds_make ctor) vs (by simpa using hsize)
  rw [List.nil_append] at hholds
  obtain ⟨last, trace, hpass, hlast, htrace⟩ := passOn_spec hholds hsize hops
  obtain ⟨rest, hread, hempty⟩ := readBasics_spec vs hlast.wellFormed hlast.readable hsize
  exact ⟨first, last, trace, rest, hfirst, hpass, htrace, hread, hempty⟩

/-- Values of one, two and four bytes, passed on by `Transfer` into an empty buffer, by
`Append(buffer)` into one of two bytes and by `Transfer` into another one, with each choice of the
flags on the way. -/
theorem roundTrip_threeValues :
    let memory : Granted := fun _ => (0, fun _ => 0)
    let flags := fun capped drop => (⟨capped, drop, memory, memory⟩ : Flags)
    let vs : List (Basic × Flags) := [(⟨[1], List.cons_ne_nil _ _⟩, flags false false),
      (⟨[2, 3], List.cons_ne_nil _ _⟩, flags true false),
      (⟨[4, 5, 6, 7], List.cons_ne_nil _ _⟩, flags false true)]
    let hops : List Hop := [⟨true, .default, flags true true⟩,
      ⟨false, .sized 2 false 0 fun _ => 0, flags false true⟩,
      ⟨true, .sized 2 true 0 fun _ => 0, flags true false⟩]
    basicBytes vs = [1, 2, 3, 4, 5, 6, 7] ∧ ∃ first last trace rest,
      appendBasics vs BufferCtor.default.make = .ok (first, [1, 2, 4]) ∧
      passOn hops first = .ok (last, trace) ∧
      List.Forall₂ (Hop.Left [1, 2, 3, 4, 5, 6, 7]) hops trace ∧
      readBasics [1, 2, 4] last = .ok (rest, [some [1], some [2, 3], some [4, 5, 6, 7]]) ∧
      rest.readable = [] := by
  intro memory flags vs hops
  have hsize : (basicBytes vs).length < 2 ^ 63 := by decide
  exact ⟨rfl, roundTrip .default vs hops hsize⟩

end Buffer

end Lizlib
