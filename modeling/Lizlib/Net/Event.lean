import Mathlib.Tactic.Common

/-!
# Event masks

`Events` is a 32-bit mask of `EPOLL*` bits.  `Contains` is true when *some* bit is shared.
`SocketChannel` keeps its interest in such a mask: `setReadable` and `setWritable` are its
`SetReadable` and `SetWritable` before the call of `Selector::Update`.

* `contains_kReadable`, `contains_kWriteEvent`: the read and the write interest are one bit each.
* `contains_kReadable_setReadable`, `writable_setWritable` and the two across: what the two setters
  do to them.
-/

namespace Lizlib

/-- The mask of an epoll event. -/
abbrev EventMask := UInt32

namespace Events

def EPOLLIN : EventMask := 0x001
def EPOLLPRI : EventMask := 0x002
def EPOLLOUT : EventMask := 0x004
def EPOLLERR : EventMask := 0x008
def EPOLLHUP : EventMask := 0x010
def EPOLLRDHUP : EventMask := 0x2000
def EPOLLET : EventMask := 0x80000000

/-- `Events::Add` -/
def add (m n : EventMask) : EventMask := m ||| n

/-- `Events::Remove` -/
def remove (m n : EventMask) : EventMask := m &&& ~~~n

/-- `Events::Contains` -/
def contains (m n : EventMask) : Bool := m &&& n ≠ 0

end Events

open Events

/-! ### The masks of the source -/

namespace ReceiveEvents

def kHangUp : EventMask := EPOLLHUP
def kError : EventMask := EPOLLERR
def kReadable : EventMask := EPOLLIN
def kPriorReadable : EventMask := EPOLLPRI
def kReadHangUp : EventMask := EPOLLRDHUP
def kWritable : EventMask := EPOLLOUT

end ReceiveEvents

namespace SelectEvents

def kNoneEvent : EventMask := 0
def kReadEvent : EventMask := EPOLLIN ||| EPOLLPRI
def kWriteEvent : EventMask := EPOLLOUT

/-- `SelectEvents::EdgeTrigger` -/
def edgeTrigger (m : EventMask) : EventMask := m ||| EPOLLET

end SelectEvents

namespace SocketChannel

open SelectEvents

/-- `events_` after `SetReadable(on)`. -/
def setReadable (events_ : EventMask) (on : Bool) : EventMask :=
  if on then add events_ (edgeTrigger kReadEvent) else remove events_ (edgeTrigger kReadEvent)

/-- `events_` after `SetWritable(on)`. -/
def setWritable (events_ : EventMask) (on : Bool) : EventMask :=
  if on then add events_ (edgeTrigger kWriteEvent) else remove events_ (edgeTrigger kWriteEvent)

/-- `Writable` -/
def writable (events_ : EventMask) : Bool := contains events_ kWriteEvent

/-- The callbacks `HandleEvents` runs, in its order. -/
inductive Handler where
  | read
  | write
  | error
  | close
  deriving DecidableEq, Repr

/-- `HandleEvents(events, now)`, with all four callbacks set. -/
def handleEvents (events : EventMask) : List Handler :=
  (if contains events ReceiveEvents.kReadable || contains events ReceiveEvents.kPriorReadable ||
      contains events ReceiveEvents.kReadHangUp then [.read] else []) ++
  (if contains events ReceiveEvents.kWritable then [.write] else []) ++
  (if contains events ReceiveEvents.kError then [.error] else []) ++
  (if contains events ReceiveEvents.kHangUp && !contains events ReceiveEvents.kReadable then
    [.close] else [])

end SocketChannel

/-! ### The interests -/

/-- `Contains` with a mask of one bit. -/
theorem contains_eq_getLsbD {n : EventMask} {b : Nat} (hb : n.toBitVec.getLsbD b = true)
    (hother : ∀ i < 32, i ≠ b → n.toBitVec.getLsbD i = false) (m : EventMask) :
    contains m n = m.toBitVec.getLsbD b := by
  unfold contains
  rw [Bool.eq_iff_iff, decide_eq_true_iff, ne_eq, ← UInt32.toBitVec_inj, UInt32.toBitVec_and]
  show ¬ m.toBitVec &&& n.toBitVec = 0#32 ↔ m.toBitVec.getLsbD b = true
  constructor
  · intro hne
    by_contra hbit
    refine hne (BitVec.eq_of_getLsbD_eq fun i hi => ?_)
    rw [BitVec.getLsbD_and, BitVec.getLsbD_zero]
    by_cases hib : i = b
    · rw [hib, Bool.eq_false_iff.mpr hbit, Bool.false_and]
    · rw [hother i hi hib, Bool.and_false]
  · intro hbit hzero
    have hand := congrArg (fun v : BitVec 32 => v.getLsbD b) hzero
    simp only [BitVec.getLsbD_and, hbit, hb] at hand
    exact absurd hand (by simp)

/-- A mask shares a bit with `EPOLLOUT` when its bit 2 is set. -/
theorem contains_kWriteEvent (m : EventMask) :
    contains m SelectEvents.kWriteEvent = m.toBitVec.getLsbD 2 :=
  contains_eq_getLsbD (by decide) (by decide) m

/-- A mask shares a bit with `EPOLLIN` when its bit 0 is set. -/
theorem contains_kReadable (m : EventMask) :
    contains m ReceiveEvents.kReadable = m.toBitVec.getLsbD 0 :=
  contains_eq_getLsbD (by decide) (by decide) m

/-- `SetReadable(true)` asks for `EPOLLIN`. -/
theorem contains_kReadable_setReadable (m : EventMask) :
    contains (SocketChannel.setReadable m true) ReceiveEvents.kReadable = true := by
  unfold SocketChannel.setReadable
  rw [contains_kReadable]
  simp [add, SelectEvents.edgeTrigger, SelectEvents.kReadEvent, EPOLLIN, EPOLLPRI, EPOLLET]

theorem contains_kReadable_setWritable (m : EventMask) (on : Bool) :
    contains (SocketChannel.setWritable m on) ReceiveEvents.kReadable =
      contains m ReceiveEvents.kReadable := by
  unfold SocketChannel.setWritable
  rw [contains_kReadable, contains_kReadable]
  cases on <;> simp [add, remove, SelectEvents.edgeTrigger, SelectEvents.kWriteEvent, EPOLLOUT,
    EPOLLET]

theorem writable_setWritable (m : EventMask) (on : Bool) :
    SocketChannel.writable (SocketChannel.setWritable m on) = on := by
  unfold SocketChannel.writable SocketChannel.setWritable
  rw [contains_kWriteEvent]
  cases on <;> simp [add, remove, SelectEvents.edgeTrigger, SelectEvents.kWriteEvent, EPOLLOUT,
    EPOLLET]

theorem writable_setReadable (m : EventMask) (on : Bool) :
    SocketChannel.writable (SocketChannel.setReadable m on) = SocketChannel.writable m := by
  unfold SocketChannel.writable SocketChannel.setReadable
  rw [contains_kWriteEvent, contains_kWriteEvent]
  cases on <;> simp [add, remove, SelectEvents.edgeTrigger, SelectEvents.kReadEvent, EPOLLIN,
    EPOLLPRI, EPOLLET]

/-- `HandleEvents` runs the read callback when the mask has `EPOLLIN`. -/
theorem read_mem_handleEvents {m : EventMask} (h : contains m ReceiveEvents.kReadable = true) :
    SocketChannel.Handler.read ∈ SocketChannel.handleEvents m := by
  simp [SocketChannel.handleEvents, h]

/-- `HandleEvents` runs the write callback when the mask has `EPOLLOUT`. -/
theorem write_mem_handleEvents (m : EventMask) :
    SocketChannel.Handler.write ∈ SocketChannel.handleEvents m ↔
      contains m ReceiveEvents.kWritable = true := by
  unfold SocketChannel.handleEvents
  simp only [List.mem_append]
  split_ifs <;> simp_all

end Lizlib
