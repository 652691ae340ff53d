import Mathlib.Algebra.Ring.Int.Defs
import Mathlib.Algebra.Ring.Nat
import Lizlib.Data.Block
import Lizlib.Transition

/-!
# The byte buffer

`Buffer` is a block of bytes with a read index and a write index; the bytes between them are the
readable ones.  `size_t` values are natural numbers below `2^64`, with wrapping arithmetic written
out.  An operation returns a `Fault` where the code copies bytes outside a block, follows a pointer
into a block that has been given back, hands overlapping ranges to `memcpy`, fails an assertion or
never returns.

Allocations are answered by the environment: `Alloc` gives, for a number of bytes, the address and
the contents of the new block, or `none` where there is no memory.

`bufferPool` drives any number of buffers through any sequence of operations, next to byte FIFOs
driven by the same operations.
-/

namespace Lizlib

/-- What can go wrong inside an operation. -/
inductive Fault where
  /-- A copy reaches outside the allocated block. -/
  | outOfBlock
  /-- A pointer into a block that has been reallocated is used. -/
  | dangling
  /-- `memcpy` is given overlapping ranges. -/
  | overlap
  /-- A failing `assert`. -/
  | assertion
  /-- A loop never ends. -/
  | diverge
  deriving DecidableEq, Repr

/-- The answer to a request for memory: the address and the contents of the new block. -/
abbrev Alloc := Nat → Option (Nat × (Nat → UInt8))

/-- Reduction to a `size_t`. -/
def wrap64 (n : Nat) : Nat := n % 2 ^ 64

/-- Subtraction of `size_t` values. -/
def sub64 (a b : Nat) : Nat := (a + 2 ^ 64 - b) % 2 ^ 64

/-- A `size_t` read as an `ssize_t`. -/
def toSigned (n : Nat) : Int := if n < 2 ^ 63 then n else n - 2 ^ 64

/-- `Buffer`, with the fields it has from `Slice`. -/
structure Buffer where
  data_ : Option (Block UInt8)
  length_ : Nat
  r_idx_ : Nat
  w_idx_ : Nat
  /-- `deleter_ != nullptr` -/
  deleter_ : Bool
  aligned_ : Bool

/-- A `const void*` handed to `memcpy` as the source. -/
inductive Source where
  /-- Memory of the caller's. -/
  | bytes (l : List UInt8)
  /-- An offset into another buffer's block. -/
  | other (data : Option (Block UInt8)) (offset : Nat)
  /-- An offset into this buffer's own block, which had the address `base` then. -/
  | own (base : Option Nat) (offset : Nat)

/-- `Slice`: where the bytes are and how many.  No object has more than `PTRDIFF_MAX` bytes. -/
structure Slice where
  data_ : Source
  length_ : Nat
  length_lt : length_ < 2 ^ 63

/-- A file, as one call of `Append(file)` finds it. -/
structure FileRead where
  /-- What `Size()` returns: negative for a socket. -/
  size : Int
  /-- What `read` or `readv` returns: `none` for `-1`, and otherwise the bytes it has copied. -/
  result : Option (List UInt8)

/-- `config::kFileRWUnit` -/
def kFileRWUnit : Nat := 65536

/-- `CeilPageAlignAddr(p)`; the mask rounds down to pages of `2 ^ page` bytes. -/
def ceilPageAlignAddr (page p : Nat) : Nat := (p + 2 ^ page) / 2 ^ page * 2 ^ page

/-- The body of the loop of `nextPowOfTwo`, with a bound on the number of rounds. -/
def nextPowOfTwoLoop (target : Nat) : Nat → Nat → Option Nat
  | 0, _ => none
  | fuel + 1, base =>
    if base < target then nextPowOfTwoLoop target fuel (wrap64 (base <<< 1)) else some base

/-- `Buffer::nextPowOfTwo`.  After 64 shifts `base` is zero for good, so the loop ends within 65
rounds or never. -/
def nextPowOfTwo (base target : Nat) : Option Nat :=
  nextPowOfTwoLoop target 65 (if base = 0 then 2 else base)

namespace Buffer

/-- `Buffer()` -/
def default : Buffer := ⟨none, 0, 0, 0, false, false⟩

/-- `Buffer(length, aligned)`, given the block `malloc` or `aligned_alloc` returned. -/
def sized (length : Nat) (aligned : Bool) (addr : Nat) (cells : Nat → UInt8) : Buffer :=
  ⟨some ⟨addr, length, cells⟩, length, 0, 0, true, aligned⟩

/-- `ReadableBytes()` as a `size_t`. -/
def readableBytes (b : Buffer) : Nat := sub64 b.w_idx_ b.r_idx_

/-- `WritableBytes()` as a `size_t`. -/
def writableBytes (b : Buffer) : Nat := sub64 b.length_ b.w_idx_

/-- `RPtr()`, as seen from another buffer. -/
def rPtr (b : Buffer) : Source := .other b.data_ b.r_idx_

/-- `RPtr()`, as seen from the buffer itself. -/
def ownRPtr (b : Buffer) : Source := .own (b.data_.map Block.addr) b.r_idx_

/-- `Reset` -/
def reset (b : Buffer) : Buffer := { b with r_idx_ := 0, w_idx_ := 0 }

/-- `Clear` -/
def clear (b : Buffer) : Buffer := { b with data_ := none, length_ := 0, r_idx_ := 0, w_idx_ := 0 }

/-- Reads `n` bytes at `data_ + off`. -/
def load (b : Buffer) (off n : Nat) : Except Fault (List UInt8) :=
  if n = 0 then .ok []
  else ((b.data_.bind fun m => m.load off n).map Except.ok).getD (.error .outOfBlock)

/-- Writes `l` at `data_ + off`. -/
def store (b : Buffer) (off : Nat) (l : List UInt8) : Except Fault Buffer :=
  if l = [] then .ok b
  else ((b.data_.bind fun m => m.store off l).map fun m => .ok { b with data_ := some m }).getD
    (.error .outOfBlock)

/-- `Rearrange` -/
def rearrange (b : Buffer) : Except Fault Buffer := do
  let used := b.readableBytes
  if used = 0 then return b.reset
  let l ← b.load b.r_idx_ used
  let b ← b.store 0 l
  return { b with r_idx_ := 0, w_idx_ := used }

/-- The new block of `realloc(data_, new_length)`. -/
def realloc (b : Buffer) (new_length addr : Nat) (cells : Nat → UInt8) : Block UInt8 :=
  match b.data_ with
  | none => ⟨addr, new_length, cells⟩
  | some m => ⟨addr, new_length, fun i => if i < m.size ∧ i < new_length then m.cells i else cells i⟩

/-- The new block of `aligned_alloc` with the `length_` bytes of the old one moved into it. -/
def alignedRealloc (b : Buffer) (new_length addr : Nat) (cells : Nat → UInt8) :
    Except Fault (Block UInt8) :=
  match b.data_ with
  | none => .ok ⟨addr, new_length, cells⟩
  | some m =>
    match (m.load 0 b.length_).bind (Block.store ⟨addr, new_length, cells⟩ 0) with
    | none => .error .outOfBlock
    | some m => .ok m

/-- The block `ensureWritable` goes on with. -/
def newBlock (b : Buffer) (new_length addr : Nat) (cells : Nat → UInt8) :
    Except Fault (Block UInt8) :=
  if b.aligned_ then b.alignedRealloc new_length addr cells
  else .ok (b.realloc new_length addr cells)

/-- `ensureWritable`, with what it returns. -/
def ensureWritable (b : Buffer) (require : Nat) (capped drop_read_bytes : Bool) (alloc : Alloc) :
    Except Fault (Buffer × Bool) := do
  let w := b.writableBytes
  if require = 0 ∨ require ≤ w then return (b, true)
  let used := b.readableBytes
  if drop_read_bytes ∧ require ≤ sub64 b.length_ used then return (← b.rearrange, true)
  let target := wrap64 (used + require)
  match if capped then some target else nextPowOfTwo b.length_ target with
  | none => .error .diverge
  | some new_length =>
    -- `assert(deleter_)`
    if b.aligned_ ∧ b.deleter_ = false then .error .assertion
    else match alloc new_length with
      | none => return (b, false)
      | some (addr, cells) =>
        let m ← b.newBlock new_length addr cells
        return ({ b with data_ := some m, length_ := new_length }, true)

/-- The `size` bytes at `data`, for a `memcpy` to `data_ + WIndex()`. -/
def fetch (b : Buffer) (data : Source) (size : Nat) : Except Fault (List UInt8) :=
  match data with
  | .bytes l => if l.length < size then .error .outOfBlock else .ok (l.take size)
  | .other m offset =>
    match m.bind fun m => m.load offset size with
    | none => .error .outOfBlock
    | some l => .ok l
  | .own base offset =>
    if b.data_.map Block.addr ≠ base then .error .dangling
    else if offset < b.w_idx_ + size ∧ b.w_idx_ < offset + size then .error .overlap
    else b.load offset size

/-- `memcpy(data_ + WIndex(), data, size)` -/
def memcpy (b : Buffer) (data : Source) (size : Nat) : Except Fault Buffer :=
  if size = 0 then .ok b
  else do b.store b.w_idx_ (← b.fetch data size)

/-- `Append(data, size, capped, drop_read_bytes)`, with what it returns. -/
def append (b : Buffer) (data : Source) (size : Nat) (capped drop_read_bytes : Bool)
    (alloc : Alloc) : Except Fault (Buffer × Int) := do
  let (b, ok) ← b.ensureWritable size capped drop_read_bytes alloc
  if !ok then return (b, -1)
  let b ← b.memcpy data size
  return ({ b with w_idx_ := wrap64 (b.w_idx_ + size) }, toSigned size)

/-- `AppendBasic(v)` for a value whose object representation is `v`. -/
def appendBasic (b : Buffer) (v : List UInt8) (capped drop_read_bytes : Bool) (alloc : Alloc) :
    Except Fault (Buffer × Int) := do
  let size := v.length
  let (b, ok) ← b.ensureWritable size capped drop_read_bytes alloc
  if !ok then return (b, -1)
  let b ← b.store b.w_idx_ v
  return ({ b with w_idx_ := wrap64 (b.w_idx_ + size) }, size)

/-- `Append(buffer)`, where `none` stands for `*this`; the two calls of `ensureWritable` may
both allocate. -/
def appendBuffer (b : Buffer) (buffer : Option Buffer) (capped drop_read_bytes : Bool)
    (alloc alloc' : Alloc) : Except Fault (Buffer × Int) := do
  let size := (buffer.getD b).readableBytes
  let (b, ok) ← b.ensureWritable size capped drop_read_bytes alloc
  if !ok then return (b, -1)
  let data := match buffer with
    | some buffer => buffer.rPtr
    | none => b.ownRPtr
  b.append data size capped drop_read_bytes alloc'

/-- `Append(slice)`, with what it returns; the two calls of `ensureWritable` may both allocate. -/
def appendSlice (b : Buffer) (slice : Slice) (capped drop_read_bytes : Bool)
    (alloc alloc' : Alloc) : Except Fault (Buffer × Int) := do
  let size := slice.length_
  let (b, ok) ← b.ensureWritable size capped drop_read_bytes alloc
  if !ok then return (b, -1)
  let (b, ret) ← b.append slice.data_ size capped drop_read_bytes alloc'
  if 0 < ret then return ({ b with w_idx_ := wrap64 (b.w_idx_ + ret.toNat) }, ret)
  else return (b, ret)

/-- Where `Append(file)` has the kernel copy `read_size` bytes to: offsets from `data_`, with the
lengths there. -/
def readSlices (b : Buffer) (page read_size : Nat) : List (Nat × Nat) :=
  let data := (b.data_.map Block.addr).getD 0
  let w_ptr := data + b.w_idx_
  let next_page := ceilPageAlignAddr page w_ptr
  let page_remain := next_page - w_ptr
  if read_size ≤ page_remain then [(b.w_idx_, read_size)]
  else
    let left := read_size - page_remain
    let splits := left / kFileRWUnit + 1
    let mod := left % kFileRWUnit
    (b.w_idx_, page_remain) :: (List.range splits).map fun i =>
      (next_page + i * kFileRWUnit - data, if i = splits - 1 then mod else kFileRWUnit)

/-- The kernel fills the slices with `l`, one after the other. -/
def scatter : Buffer → List (Nat × Nat) → List UInt8 → Except Fault Buffer
  | b, [], _ => .ok b
  | b, (off, len) :: slices, l => do scatter (← b.store off (l.take len)) slices (l.drop len)

/-- `Append(file, read_bytes, capped, drop_read_bytes)`, with what it returns. -/
def appendFile (b : Buffer) (page : Nat) (file : FileRead) (read_bytes : Nat)
    (capped drop_read_bytes : Bool) (alloc : Alloc) : Except Fault (Buffer × Int) := do
  let read_size := if 0 < file.size then min read_bytes file.size.toNat else read_bytes
  let (b, ok) ← b.ensureWritable read_size capped drop_read_bytes alloc
  if !ok then return (b, -1)
  match file.result with
  | none => return (b, -1)
  | some l =>
    let slices := b.readSlices page read_size
    let l := l.take (slices.map Prod.snd).sum
    let b ← b.scatter slices l
    return ({ b with w_idx_ := wrap64 (b.w_idx_ + l.length) }, l.length)

/-- What `read` or `readv` returns inside `Append(file, read_bytes, capped, drop_read_bytes)`;
nothing where there is no room and neither is called. -/
def bytesRead (b : Buffer) (file : FileRead) (read_bytes : Nat) (capped drop_read_bytes : Bool)
    (alloc : Alloc) : List UInt8 :=
  let read_size := if 0 < file.size then min read_bytes file.size.toNat else read_bytes
  match b.ensureWritable read_size capped drop_read_bytes alloc with
  | .ok (_, true) => (file.result.getD []).take read_size
  | _ => []

/-- `Transfer(from)` from another buffer: this buffer, the other one and what it returns. -/
def transfer (b source : Buffer) (capped drop_read_bytes : Bool) (alloc alloc' : Alloc) :
    Except Fault (Buffer × Buffer × Int) := do
  let size := source.readableBytes
  let (b, ok) ← b.ensureWritable size capped drop_read_bytes alloc
  if !ok then return (b, source, -1)
  let (b, ret) ← b.append source.rPtr size capped drop_read_bytes alloc'
  if 0 < ret then return (b, { source with r_idx_ := wrap64 (source.r_idx_ + ret.toNat) }, ret)
  else return (b, source, ret)

/-- `Transfer(*this)` -/
def transferSelf (b : Buffer) (capped drop_read_bytes : Bool) (alloc alloc' : Alloc) :
    Except Fault (Buffer × Int) := do
  let size := b.readableBytes
  let (b, ok) ← b.ensureWritable size capped drop_read_bytes alloc
  if !ok then return (b, -1)
  let (b, ret) ← b.append b.ownRPtr size capped drop_read_bytes alloc'
  if 0 < ret then return ({ b with r_idx_ := wrap64 (b.r_idx_ + ret.toNat) }, ret)
  else return (b, ret)

/-- What `Read` and `Retrieve` do after `r_idx_` has moved. -/
def consumed (b : Buffer) (rearrange : Bool) : Except Fault Buffer :=
  if b.r_idx_ = b.w_idx_ ∨ rearrange = true then b.rearrange else .ok b

/-- `Read(data, size, rearrange)`: the buffer, what it returns and the bytes copied to `data`. -/
def read (b : Buffer) (size : Int) (rearrange : Bool) :
    Except Fault (Buffer × Int × List UInt8) :=
  if b.data_.isNone then .ok (b, -1, [])
  else
    let read_bytes := min size (toSigned b.readableBytes)
    -- `memcpy` takes a negative count for a huge one
    if read_bytes < 0 then .error .outOfBlock
    else do
      let l ← b.load b.r_idx_ read_bytes.toNat
      let b ← consumed { b with r_idx_ := wrap64 (b.r_idx_ + read_bytes.toNat) } rearrange
      return (b, read_bytes, l)

/-- `Read(file, size)`, where `write` takes at most `written` bytes, or fails.  Beyond the first
page the slice in front of the others is never set. -/
def readFile (b : Buffer) (page : Nat) (size : Int) (written : Option Nat) :
    Except Fault (Buffer × Int) :=
  match b.data_ with
  | none => .ok (b, -1)
  | some m =>
    let size := if size = -1 then toSigned b.readableBytes else min size (toSigned b.readableBytes)
    let page_remain : Int := ceilPageAlignAddr page (m.addr + b.r_idx_) - (m.addr + b.w_idx_)
    if size < 0 ∨ page_remain < size then .error .outOfBlock
    else do
      let _ ← b.load b.r_idx_ size.toNat
      match written with
      | none => return (b, -1)
      | some n =>
        let ret := min n size.toNat
        return ({ b with r_idx_ := wrap64 (b.r_idx_ + ret) }, ret)

/-- What `Read(file, size)` has `write` or `writev` take: offsets from `data_`, with the lengths
there; `none` for the slice that is never set. -/
def writeSlices (b : Buffer) (page : Nat) (size : Int) : List (Option (Nat × Nat)) :=
  let data := (b.data_.map Block.addr).getD 0
  let size := if size = -1 then toSigned b.readableBytes else min size (toSigned b.readableBytes)
  let next_page := ceilPageAlignAddr page (data + b.r_idx_)
  let page_remain : Int := next_page - (data + b.w_idx_)
  if size ≤ page_remain then [some (b.r_idx_, size.toNat)]
  else
    let left := (size - page_remain).toNat
    let splits := left / kFileRWUnit + 1
    let mod := left % kFileRWUnit
    none :: (List.range splits).map fun i =>
      some (next_page + i * kFileRWUnit - data, if i = splits - 1 then mod else kFileRWUnit)

/-- What `Read(file, size)` does with the result of `write` or `writev`. -/
def wroteOut (b : Buffer) (ret : Int) : Buffer :=
  if 0 < ret then { b with r_idx_ := wrap64 (b.r_idx_ + ret.toNat) } else b

/-- `ReadBasic` of a type of `size` bytes: the buffer and the object representation of what it
returns, `none` where it returns `-1` instead. -/
def readBasic (b : Buffer) (size : Nat) : Except Fault (Buffer × Option (List UInt8)) :=
  if b.data_.isNone then .ok (b, none)
  else if toSigned b.readableBytes < size then .ok (b, none)
  else do
    let l ← b.load b.r_idx_ size
    return ({ b with r_idx_ := wrap64 (b.r_idx_ + size) }, some l)

/-- `Retrieve(n, rearrange)` -/
def retrieve (b : Buffer) (n : Nat) (rearrange : Bool) : Except Fault Buffer :=
  consumed { b with r_idx_ := min (wrap64 (b.r_idx_ + n)) b.w_idx_ } rearrange

end Buffer
end Lizlib
