import Mathlib.Logic.Function.Basic
import Lizlib.Transition

/-!
# The concurrent timestamp

`ConcurrentTimestamp` holds an `int64_t` that any number of calls of `Incr` and `Decr` change at the
same time, each with a loop around one compare-and-swap.  The calls are the elements of a type `C`; a
step is one read of `usecs_` or one compare-and-swap.

`swaps` counts the compare-and-swaps of a call that have stored; no step of the code reads it.
-/

namespace Lizlib

/-- A call, with `d.usec_`. -/
inductive TimestampOp where
  /-- `Incr(d)` -/
  | incr (usec_ : Int64)
  /-- `Decr(d)` -/
  | decr (usec_ : Int64)
  deriving DecidableEq

/-- `prev + d.usec_` and `prev - d.usec_`: the `int64_t` is converted to `uint64_t`. -/
def TimestampOp.modified (op : TimestampOp) (prev : UInt64) : UInt64 :=
  match op with
  | .incr usec_ => prev + usec_.toUInt64
  | .decr usec_ => prev - usec_.toUInt64

/-- Where a call stands. -/
inductive TimestampPc where
  /-- `prev = usecs_` -/
  | load
  /-- `rst = __sync_val_compare_and_swap(&usecs_, prev, modified)` -/
  | cas (prev modified : UInt64)
  | returned
  deriving DecidableEq

/-- A timestamp and the calls on it. -/
structure ConcurrentTimestamp (C : Type*) where
  usecs_ : Int64
  pc : C → TimestampPc
  /-- How many compare-and-swaps of a call have stored. -/
  swaps : C → Nat

/-- `__sync_val_compare_and_swap(&usecs_, prev, modified)`: what was there, and what is. -/
def sync_val_compare_and_swap (usecs_ : Int64) (prev modified : UInt64) : UInt64 × Int64 :=
  (usecs_.toUInt64, if usecs_ = prev.toInt64 then modified.toInt64 else usecs_)

namespace ConcurrentTimestamp

variable {C : Type*}

/-- `ConcurrentTimestamp(usecs)`, with no call made yet. -/
def start (usecs : Int64) : ConcurrentTimestamp C := ⟨usecs, fun _ => .load, fun _ => 0⟩

variable [DecidableEq C]

open Function (update)

/-- The next step of a call. -/
def step (op : C → TimestampOp) (c : C) (s : ConcurrentTimestamp C) :
    Option (ConcurrentTimestamp C) :=
  match s.pc c with
  | .load =>
    let prev := s.usecs_.toUInt64
    some { s with pc := update s.pc c (.cas prev ((op c).modified prev)) }
  | .cas prev modified =>
    let (rst, usecs) := sync_val_compare_and_swap s.usecs_ prev modified
    some { s with
      usecs_ := usecs
      pc := update s.pc c (if rst ≠ prev then .cas rst ((op c).modified rst) else .returned)
      swaps := if s.usecs_ = prev.toInt64 then update s.swaps c (s.swaps c + 1) else s.swaps }
  | .returned => none

end ConcurrentTimestamp

/-- The calls `op` on a timestamp, in any interleaving of their reads and compare-and-swaps. -/
def concurrentTimestamp {C : Type*} [DecidableEq C] (op : C → TimestampOp) (usecs : Int64) :
    System (ConcurrentTimestamp C) C where
  init s := s = ConcurrentTimestamp.start usecs
  step := ConcurrentTimestamp.step op

end Lizlib
