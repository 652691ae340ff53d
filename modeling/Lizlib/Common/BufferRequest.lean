import Lizlib.Data.Loop
import Lizlib.Common.Buffer

/-!
# What a buffer is asked to make room for

The arithmetic of `ensureWritable` on its own: the loop of `nextPowOfTwo` without a bound on its
rounds, what the `Append` functions pass on as `require`, and the sum `used + require` before it is
reduced to a `size_t`.
-/

namespace Lizlib

/-- The body of the loop of `nextPowOfTwo`. -/
def nextPowOfTwoBody (target base : Nat) : Nat ⊕ Nat :=
  if base < target then .inl (wrap64 (base <<< 1)) else .inr base

/-- What an `Append` asks room for. -/
inductive AppendRequest where
  /-- The bytes of an object: `Append(data, size)`, `AppendBasic`, `Append(slice)`,
  `Append(buffer)`.  No object has more than `PTRDIFF_MAX` bytes. -/
  | memory (size : Nat) (size_lt : size < 2 ^ 63)
  /-- `Append(file, read_bytes)`, where `Size()` returns `file_size`. -/
  | file (read_bytes file_size : Int64)

namespace AppendRequest

/-- The `read_size` of `Append(file, read_bytes)`. -/
def readSize (read_bytes file_size : Int64) : Int64 :=
  if 0 < file_size then min read_bytes file_size else read_bytes

/-- The argument of `ensureWritable`, to which an `ssize_t` is converted. -/
def require : AppendRequest → Nat
  | .memory size _ => size
  | .file read_bytes file_size => (readSize read_bytes file_size).toUInt64.toNat

end AppendRequest

namespace Buffer

/-- The sum `used + require` of `ensureWritable`, which is not reduced here; `none` where the function
returns before. -/
def growthSum (b : Buffer) (require : Nat) (drop_read_bytes : Bool) : Option Nat :=
  let w := b.writableBytes
  if require = 0 ∨ require ≤ w then none
  else
    let used := b.readableBytes
    if drop_read_bytes ∧ require ≤ sub64 b.length_ used then none
    else some (used + require)

end Buffer

end Lizlib
