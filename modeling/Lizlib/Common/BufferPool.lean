import Lizlib.Common.Buffer

/-!
# Buffers next to byte FIFOs

`bufferPool` drives any number of buffers through any finite sequence of operations with
`capped=false`, and one byte FIFO for each buffer through the same sequence.  Memory is always
granted, at any address and with any contents.  The pool stops at the first fault.
-/

namespace Lizlib

/-- What the allocator returns for each number of bytes, when it never fails. -/
abbrev Granted := Nat → Nat × (Nat → UInt8)

/-- An allocator that never fails. -/
def Granted.alloc (g : Granted) : Alloc := fun n => some (g n)

/-- An operation on the buffers `ι`, with its flags and what the allocator answers. -/
inductive BufferLabel (ι : Type*) where
  /-- `Append(ptr, size)` of the bytes `data` in the caller's memory. -/
  | append (i : ι) (data : List UInt8) (drop_read_bytes : Bool) (g : Granted)
  /-- `AppendBasic(v)`; `v` is the object representation. -/
  | appendBasic (i : ι) (v : List UInt8) (drop_read_bytes : Bool) (g : Granted)
  /-- `i.Append(j)` -/
  | appendBuffer (i j : ι) (drop_read_bytes : Bool) (g g' : Granted)
  /-- `i.Transfer(j)` -/
  | transfer (i j : ι) (drop_read_bytes : Bool) (g g' : Granted)
  /-- `Read(ptr, size)` -/
  | read (i : ι) (size : Nat) (rearrange : Bool)
  /-- `ReadBasic` of a type of `size` bytes -/
  | readBasic (i : ι) (size : Nat)
  | retrieve (i : ι) (n : Nat) (rearrange : Bool)
  | rearrange (i : ι)
  | reset (i : ι)

namespace BufferLabel

variable {ι : Type*} [DecidableEq ι]

open Function

/-- What an operation does to the buffers, and the bytes it copies out. -/
def onBuffers (buf : ι → Buffer) : BufferLabel ι → Except Fault ((ι → Buffer) × List UInt8)
  | append i data drop g =>
    ((buf i).append (.bytes data) data.length false drop g.alloc).map fun (b, _) =>
      (update buf i b, [])
  | appendBasic i v drop g =>
    ((buf i).appendBasic v false drop g.alloc).map fun (b, _) => (update buf i b, [])
  | appendBuffer i j drop g g' =>
    ((buf i).appendBuffer (if i = j then none else some (buf j)) false drop g.alloc g'.alloc).map
      fun (b, _) => (update buf i b, [])
  | transfer i j drop g g' =>
    if i = j then
      ((buf i).transferSelf false drop g.alloc g'.alloc).map fun (b, _) => (update buf i b, [])
    else
      ((buf i).transfer (buf j) false drop g.alloc g'.alloc).map fun (b, source, _) =>
        (update (update buf i b) j source, [])
  | read i size always =>
    ((buf i).read size always).map fun (b, _, l) => (update buf i b, l)
  | readBasic i size => ((buf i).readBasic size).map fun (b, l) => (update buf i b, l.getD [])
  | retrieve i n always => ((buf i).retrieve n always).map fun b => (update buf i b, [])
  | rearrange i => (buf i).rearrange.map fun b => (update buf i b, [])
  | reset i => .ok (update buf i (buf i).reset, [])

/-- What the same operation does to byte FIFOs, and the bytes that come out. -/
def onFifos (q : ι → List UInt8) : BufferLabel ι → (ι → List UInt8) × List UInt8
  | append i l _ _ | appendBasic i l _ _ => (update q i (q i ++ l), [])
  | appendBuffer i j _ _ _ => (update q i (q i ++ q j), [])
  | transfer i j _ _ _ => (if i = j then q else update (update q i (q i ++ q j)) j [], [])
  | read i size _ => (update q i ((q i).drop size), (q i).take size)
  | readBasic i size =>
    if size ≤ (q i).length then (update q i ((q i).drop size), (q i).take size) else (q, [])
  | retrieve i n _ => (update q i ((q i).drop n), [])
  | rearrange _ => (q, [])
  | reset i => (update q i [], [])

/-- What a caller has to respect: total sizes stay below `2^63`, `size` is an `ssize_t` and not
negative, and no more bytes are retrieved than are readable. -/
def Allowed (q : ι → List UInt8) : BufferLabel ι → Prop
  | append i l _ _ | appendBasic i l _ _ => (q i).length + l.length < 2 ^ 63
  | appendBuffer i j _ _ _ | transfer i j _ _ _ => (q i).length + (q j).length < 2 ^ 63
  | read _ size _ | readBasic _ size => size < 2 ^ 63
  | retrieve i n _ => n ≤ (q i).length
  | rearrange _ | reset _ => True

instance (q : ι → List UInt8) : DecidablePred (Allowed q) := fun l => by
  cases l <;> (unfold Allowed; infer_instance)

end BufferLabel

/-- How a buffer came to be. -/
inductive BufferCtor where
  /-- `Buffer()` -/
  | default
  /-- `Buffer(length, aligned)`, with the address and the contents of its block. -/
  | sized (length : Fin (2 ^ 63)) (aligned : Bool) (addr : Nat) (cells : Nat → UInt8)

/-- The constructed buffer. -/
def BufferCtor.make : BufferCtor → Buffer
  | default => Buffer.default
  | sized length aligned addr cells => Buffer.sized length aligned addr cells

/-- The buffers, the FIFOs, and what has been read from either. -/
structure BufferPool (ι : Type*) where
  buf : ι → Buffer
  fifo : ι → List UInt8
  /-- The bytes the buffers have copied out. -/
  out : List UInt8
  /-- The bytes that have come out of the FIFOs. -/
  fifoOut : List UInt8
  fault : Option Fault

namespace BufferPool

variable {ι : Type*} [DecidableEq ι]

omit [DecidableEq ι] in
/-- Freshly constructed buffers and empty FIFOs. -/
def start (ctor : ι → BufferCtor) : BufferPool ι where
  buf i := (ctor i).make
  fifo _ := []
  out := []
  fifoOut := []
  fault := none

/-- One operation. -/
def step (l : BufferLabel ι) (s : BufferPool ι) : Option (BufferPool ι) :=
  if s.fault = none ∧ l.Allowed s.fifo then
    match l.onBuffers s.buf with
    | .error e => some { s with fault := some e }
    | .ok (buf, out) =>
      some { s with
        buf := buf
        fifo := (l.onFifos s.fifo).1
        out := s.out ++ out
        fifoOut := s.fifoOut ++ (l.onFifos s.fifo).2 }
  else none

end BufferPool

/-- Any number of buffers, driven by any sequence of allowed operations. -/
def bufferPool (ι : Type*) [DecidableEq ι] : System (BufferPool ι) (BufferLabel ι) where
  init s := ∃ ctor, s = BufferPool.start ctor
  step := BufferPool.step

end Lizlib
