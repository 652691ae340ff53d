import Mathlib.Logic.Function.Basic
import Lizlib.Transition

/-!
# The spin lock

`SpinLock` hands the calls of a `Lockable` on to a `pthread_spinlock_t`.  Any number of threads use
it: one that is not in its critical section calls `lock` or `try_lock`, enters the section when it
has the lock as far as it has been told, and leaves it with `unlock`.  A call takes effect and returns
in one step.

The lock does not look at who has taken it: `actual_` names the thread as an observation.
-/

namespace Lizlib

/-- What `pthread_spin_trylock` returns where the lock is taken. -/
def EBUSY : Nat := 16

/-- Who calls what. -/
inductive SpinLabel (T : Type*) where
  /-- `lock()` -/
  | lock (t : T)
  /-- `try_lock()` -/
  | tryLock (t : T)
  /-- `unlock()` -/
  | unlock (t : T)
  deriving DecidableEq

/-- A lock and the threads that use it. -/
structure SpinLock (T : Type*) where
  /-- Free, or taken. -/
  actual_ : Option T
  /-- In its critical section. -/
  inside : T → Bool
  /-- The last call of the thread was a `try_lock` that has returned `false`. -/
  refused : T → Bool

namespace SpinLock

variable {T : Type*}

/-- `SpinLock()` -/
def start : SpinLock T := ⟨none, fun _ => false, fun _ => false⟩

variable [DecidableEq T]

open Function (update)

/-- `pthread_spin_lock`; not enabled while the caller spins. -/
def pthread_spin_lock (t : T) (s : SpinLock T) : Option (SpinLock T) :=
  if s.actual_ = none then some { s with actual_ := some t } else none

/-- `pthread_spin_trylock`, with what it returns. -/
def pthread_spin_trylock (t : T) (s : SpinLock T) : Nat × SpinLock T :=
  if s.actual_ = none then (0, { s with actual_ := some t }) else (EBUSY, s)

/-- `pthread_spin_unlock` -/
def pthread_spin_unlock (s : SpinLock T) : SpinLock T := { s with actual_ := none }

/-- `try_lock`: the `int` is converted to a `bool`. -/
def try_lock (t : T) (s : SpinLock T) : Bool × SpinLock T :=
  let (ret, s) := s.pthread_spin_trylock t
  (ret ≠ 0, s)

/-- The thread has been told that it has the lock. -/
def enter (t : T) (s : SpinLock T) : SpinLock T :=
  { s with inside := update s.inside t true, refused := update s.refused t false }

/-- The thread has been told that it does not have the lock. -/
def refuse (t : T) (s : SpinLock T) : SpinLock T := { s with refused := update s.refused t true }

/-- One call. -/
def step (l : SpinLabel T) (s : SpinLock T) : Option (SpinLock T) :=
  match l with
  | .lock t => if s.inside t then none else (s.pthread_spin_lock t).map (enter t)
  | .tryLock t =>
    if s.inside t then none
    else match s.try_lock t with
      | (true, s) => some (s.enter t)
      | (false, s) => some (s.refuse t)
  | .unlock t =>
    if s.inside t then some { s.pthread_spin_unlock with inside := update s.inside t false } else none

end SpinLock

/-- A lock and any number of threads, in any order of their calls. -/
def spinLock (T : Type*) [DecidableEq T] : System (SpinLock T) (SpinLabel T) where
  init s := s = SpinLock.start
  step := SpinLock.step

end Lizlib
