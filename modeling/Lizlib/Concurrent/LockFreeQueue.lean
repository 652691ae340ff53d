import Mathlib.Logic.Function.Basic
import Lizlib.Data.Loop
import Lizlib.Transition

/-!
# The lock-free queue

`LockFreeQueue` is a singly linked list of nodes with atomic `head_`, `tail_` and `next_`.  All
atomics are sequentially consistent, so each load, store and compare-exchange is one step on the
shared memory: `QueueMem.pushStep` and `QueueMem.popStep` are the steps of `Push` and `Pop`, from
one program counter to the next.  Dereferencing `nullptr` or a deleted node is a fault (`none`).

Nodes are named by addresses.  `new Node` may take any address that is not in use, in particular
one that a deleted node had, so a compare-exchange can succeed on a reused address.

`lockFreeQueue` runs any number of producers and consumers against one memory.  Its fields `calls`,
`done`, `pushed`, `popped`, `chain` and `returned` are observations; no step of the code reads them.
`freshQueue` is the same queue with an allocator that never hands out an address twice.
-/

namespace Lizlib

/-- A queue node. -/
structure Node (A E : Type*) where
  next_ : Option A
  element_ : E

/-- The shared memory of one queue. -/
structure QueueMem (A E : Type*) where
  head_ : Option A
  tail_ : Option A
  /-- The nodes that are allocated and not deleted. -/
  heap : A → Option (Node A E)

/-- Where a producer stands in `Push`. -/
inductive PushPc (A : Type*) where
  | idle
  /-- `tail_.load()` -/
  | loadTail (node : A)
  /-- `head_.compare_exchange_strong(tail_read, node)` with `tail_read == nullptr` -/
  | casHead (node : A)
  /-- `tail_.store(node)` -/
  | storeTail (node : A)
  /-- `on_empty()` -/
  | onEmpty
  /-- `tail_.compare_exchange_strong(tail_read, node)` -/
  | casTail (node tail_read : A)
  /-- `tail_read->next_.store(node)` -/
  | storeNext (node tail_read : A)
  deriving DecidableEq

/-- Where a consumer stands in `Pop`. -/
inductive PopPc (A : Type*) where
  | idle
  /-- `tail_.load()` -/
  | loadTail
  /-- `head_.load()` -/
  | loadHead (tail_read : A)
  /-- `tail_.compare_exchange_strong(tail_read, nullptr)` with `head_read == tail_read` -/
  | casTail (head_read : A)
  /-- `head_.store(nullptr)` -/
  | storeHead (head_read : A)
  /-- `head_read->next_.load()` -/
  | loadNext (head_read : Option A)
  /-- `head_.compare_exchange_strong(head_read, head_next)` -/
  | casHead (head_read head_next : A)
  /-- `std::move(head_read->element_)`, `delete head_read` and the return -/
  | take (head_read : A)
  deriving DecidableEq

namespace QueueMem

variable {A E : Type*} [DecidableEq A]

/-- `LockFreeQueue::Empty`. -/
def empty (m : QueueMem A E) : Bool := m.head_.isNone

/-- The next atomic step of `Push`; `none` where it dereferences a deleted node. -/
def pushStep (m : QueueMem A E) : PushPc A → Option (QueueMem A E × PushPc A)
  | .idle => some (m, .idle)
  | .loadTail node =>
    match m.tail_ with
    | none => some (m, .casHead node)
    | some tail_read => some (m, .casTail node tail_read)
  | .casHead node =>
    if m.head_ = none then some ({ m with head_ := some node }, .storeTail node)
    else some (m, .loadTail node)
  | .storeTail node => some ({ m with tail_ := some node }, .onEmpty)
  | .onEmpty => some (m, .idle)
  | .casTail node tail_read =>
    if m.tail_ = some tail_read then
      some ({ m with tail_ := some node }, .storeNext node tail_read)
    else some (m, .loadTail node)
  | .storeNext node tail_read =>
    match m.heap tail_read with
    | none => none
    | some n =>
      some ({ m with heap := Function.update m.heap tail_read (some { n with next_ := some node }) },
        .idle)

/-- The next atomic step of `Pop`, with the value `Pop` returns if it is the last one; `none` where
it dereferences `nullptr` or a deleted node. -/
def popStep (m : QueueMem A E) : PopPc A → Option (QueueMem A E × PopPc A × Option (Option E))
  | .idle => some (m, .idle, none)
  | .loadTail =>
    match m.tail_ with
    | none => some (m, .idle, some none)
    | some tail_read => some (m, .loadHead tail_read, none)
  | .loadHead tail_read =>
    if m.head_ = some tail_read then some (m, .casTail tail_read, none)
    else some (m, .loadNext m.head_, none)
  | .casTail head_read =>
    if m.tail_ = some head_read then some ({ m with tail_ := none }, .storeHead head_read, none)
    else some (m, .loadNext (some head_read), none)
  | .storeHead head_read => some ({ m with head_ := none }, .take head_read, none)
  | .loadNext none => none
  | .loadNext (some head_read) =>
    match m.heap head_read with
    | none => none
    | some n =>
      match n.next_ with
      | none => some (m, .loadTail, none)
      | some head_next => some (m, .casHead head_read head_next, none)
  | .casHead head_read head_next =>
    if m.head_ = some head_read then
      some ({ m with head_ := some head_next }, .take head_read, none)
    else some (m, .loadTail, none)
  | .take head_read =>
    match m.heap head_read with
    | none => none
    | some n =>
      some ({ m with heap := Function.update m.heap head_read none }, .idle, some (some n.element_))

/-- One round of the loop of `~LockFreeQueue`, and the elements in the nodes it has freed: `free` does
not destroy them.  It leaves with `none` where it dereferences a deleted node. -/
def destroyRound (s : QueueMem A E × List E) :
    QueueMem A E × List E ⊕ Option (QueueMem A E × List E) :=
  match s.1.head_ with
  | none => .inr (some s)
  | some a =>
    match s.1.heap a with
    | none => .inr none
    | some n =>
      .inl ({ s.1 with head_ := n.next_, heap := Function.update s.1.heap a none },
        s.2 ++ [n.element_])

end QueueMem

/-! ### The system -/

/-- A node that has been linked in by its producer's compare-exchange and not unlinked yet. -/
structure Linked (P A E : Type*) where
  node : A
  producer : P
  element : E

/-- A queue with its producers `P` and consumers `C`. -/
structure LockFreeQueue (P C A E : Type*) where
  mem : QueueMem A E
  push : P → PushPc A
  pop : C → PopPc A
  /-- The elements each producer has called `Push` with, in call order. -/
  calls : P → List E
  /-- How many of its calls have returned. -/
  done : P → Nat
  /-- The pushes in the order of their successful compare-exchanges. -/
  pushed : List (P × E)
  /-- The pushes whose node a consumer has unlinked, in that order. -/
  popped : List (P × E)
  /-- The linked nodes, oldest first. -/
  chain : List (Linked P A E)
  /-- The elements returned by `Pop`, in order. -/
  returned : List E
  /-- Some thread has dereferenced `nullptr` or a deleted node. -/
  fault : Bool

/-- Who moves. -/
inductive QueueLabel (P C A E : Type*) where
  /-- A producer calls `Push(element, on_empty)`; `new Node` returns `node`. -/
  | callPush (p : P) (element : E) (node : A)
  /-- The next atomic step of a producer's `Push`. -/
  | push (p : P)
  /-- A consumer calls `Pop()`. -/
  | callPop (c : C)
  /-- The next atomic step of a consumer's `Pop`. -/
  | pop (c : C)
  /-- A consumer calls `Empty()`: one load, no effect. -/
  | empty (c : C)

namespace LockFreeQueue

variable {P C A E : Type*}

/-- The queue after construction. -/
def start : LockFreeQueue P C A E where
  mem := ⟨none, none, fun _ => none⟩
  push _ := .idle
  pop _ := .idle
  calls _ := []
  done _ := 0
  pushed := []
  popped := []
  chain := []
  returned := []
  fault := false

/-- The successful compare-exchange on `head_` or `tail_` links the node in. -/
def link (s : LockFreeQueue P C A E) (p : P) : PushPc A → PushPc A → LockFreeQueue P C A E
  | .casHead node, .storeTail _ | .casTail node _, .storeNext _ _ =>
    match s.mem.heap node with
    | none => s
    | some n => { s with
        pushed := s.pushed ++ [(p, n.element_)]
        chain := s.chain ++ [⟨node, p, n.element_⟩] }
  | _, _ => s

/-- The successful compare-exchange on `tail_` or `head_` unlinks the oldest node. -/
def unlink (s : LockFreeQueue P C A E) : PopPc A → PopPc A → LockFreeQueue P C A E
  | .casTail _, .storeHead _ | .casHead _ _, .take _ =>
    match s.chain with
    | [] => s
    | c :: chain => { s with popped := s.popped ++ [(c.producer, c.element)], chain := chain }
  | _, _ => s

variable [DecidableEq P] [DecidableEq C] [DecidableEq A]

/-- The next step of producer `p`. -/
def pushStep (s : LockFreeQueue P C A E) (p : P) : LockFreeQueue P C A E :=
  match s.mem.pushStep (s.push p) with
  | none => { s with fault := true }
  | some (m, pc) =>
    { s.link p (s.push p) pc with
      mem := m
      push := Function.update s.push p pc
      done := if pc = .idle then Function.update s.done p (s.done p + 1) else s.done }

/-- The next step of consumer `c`. -/
def popStep (s : LockFreeQueue P C A E) (c : C) : LockFreeQueue P C A E :=
  match s.mem.popStep (s.pop c) with
  | none => { s with fault := true }
  | some (m, pc, result) =>
    { s.unlink (s.pop c) pc with
      mem := m
      pop := Function.update s.pop c pc
      returned := s.returned ++ (result.bind id).toList }

/-- One step of the system. -/
def step : QueueLabel P C A E → LockFreeQueue P C A E → Option (LockFreeQueue P C A E)
  | .callPush p element node, s =>
    if s.push p = .idle ∧ (s.mem.heap node).isNone then
      some { s with
        mem := { s.mem with heap := Function.update s.mem.heap node (some ⟨none, element⟩) }
        push := Function.update s.push p (.loadTail node)
        calls := Function.update s.calls p (s.calls p ++ [element]) }
    else none
  | .push p, s => if s.push p = .idle then none else some (s.pushStep p)
  | .callPop c, s =>
    if s.pop c = .idle then some { s with pop := Function.update s.pop c .loadTail } else none
  | .pop c, s => if s.pop c = .idle then none else some (s.popStep c)
  | .empty c, s => if s.pop c = .idle then some s else none

end LockFreeQueue

/-- A queue used by any number of producers and consumers, interleaved step by step. -/
def lockFreeQueue (P C A E : Type*) [DecidableEq P] [DecidableEq C] [DecidableEq A] :
    System (LockFreeQueue P C A E) (QueueLabel P C A E) where
  init s := s = LockFreeQueue.start
  step := LockFreeQueue.step

/-! ### Without reuse of addresses -/

/-- A queue whose nodes all have different addresses. -/
structure FreshQueue (P C A E : Type*) where
  queue : LockFreeQueue P C A E
  /-- The addresses `new Node` has returned. -/
  used : List A
  /-- The nodes whose element a `Pop` has returned, in order. -/
  taken : List A

/-- The node whose element the next step of `Pop` returns. -/
def PopPc.takes {A : Type*} : PopPc A → List A
  | .take head_read => [head_read]
  | _ => []

namespace FreshQueue

variable {P C A E : Type*}

def start : FreshQueue P C A E := ⟨.start, [], []⟩

variable [DecidableEq P] [DecidableEq C] [DecidableEq A]

/-- One step of the queue; `new Node` returns an address that has never been in use. -/
def step : QueueLabel P C A E → FreshQueue P C A E → Option (FreshQueue P C A E)
  | .callPush p element node, s =>
    if node ∈ s.used then none
    else (LockFreeQueue.step (.callPush p element node) s.queue).map fun q =>
      { s with queue := q, used := s.used ++ [node] }
  | .pop c, s =>
    (LockFreeQueue.step (.pop c) s.queue).map fun q =>
      { s with queue := q, taken := s.taken ++ (s.queue.pop c).takes }
  | l, s => (LockFreeQueue.step l s.queue).map fun q => { s with queue := q }

end FreshQueue

/-- A queue used by any number of producers and consumers that never reuses an address. -/
def freshQueue (P C A E : Type*) [DecidableEq P] [DecidableEq C] [DecidableEq A] :
    System (FreshQueue P C A E) (QueueLabel P C A E) where
  init s := s = FreshQueue.start
  step := FreshQueue.step

end Lizlib
