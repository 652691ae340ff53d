import Lizlib.Net.SocketInterest

/-!
# When the interests of a socket channel are independent

Each setter adds and removes the trigger bit along with its own bits.  The interest bits follow the
last calls whatever the sequence (`Bits`), but turning one interest off takes the trigger bit away
from the other (`edge_setReadable`, `edge_setWritable`).

* `Bits.step`: what one call leaves in the mask.
* `kept_iff_alone`: all is as it should be after every call if and only if no interest is turned off
  while the other one is on.
-/

namespace Lizlib

open Events

/-! ### Single bits -/

theorem contains_EPOLLIN (m : EventMask) : contains m EPOLLIN = m.toBitVec.getLsbD 0 :=
  contains_eq_getLsbD (by decide) (by decide) m

theorem contains_EPOLLPRI (m : EventMask) : contains m EPOLLPRI = m.toBitVec.getLsbD 1 :=
  contains_eq_getLsbD (by decide) (by decide) m

theorem contains_EPOLLOUT (m : EventMask) : contains m EPOLLOUT = m.toBitVec.getLsbD 2 :=
  contains_eq_getLsbD (by decide) (by decide) m

theorem contains_EPOLLET (m : EventMask) : contains m EPOLLET = m.toBitVec.getLsbD 31 :=
  contains_eq_getLsbD (by decide) (by decide) m

namespace SocketChannel

variable (m : EventMask) (on : Bool)

/-- `SetReadable` sets or clears its own bits. -/
theorem read_setReadable : contains (setReadable m on) EPOLLIN = on ∧
    contains (setReadable m on) EPOLLPRI = on := by
  rw [contains_EPOLLIN, contains_EPOLLPRI]
  unfold setReadable
  cases on <;> simp [add, remove, SelectEvents.edgeTrigger, SelectEvents.kReadEvent, EPOLLIN,
    EPOLLPRI, EPOLLET]

theorem write_setReadable : contains (setReadable m on) EPOLLOUT = contains m EPOLLOUT := by
  rw [contains_EPOLLOUT, contains_EPOLLOUT]
  unfold setReadable
  cases on <;> simp [add, remove, SelectEvents.edgeTrigger, SelectEvents.kReadEvent, EPOLLIN,
    EPOLLPRI, EPOLLET]

/-- `SetReadable` sets or clears the trigger bit. -/
theorem edge_setReadable : contains (setReadable m on) EPOLLET = on := by
  rw [contains_EPOLLET]
  unfold setReadable
  cases on <;> simp [add, remove, SelectEvents.edgeTrigger, SelectEvents.kReadEvent, EPOLLIN,
    EPOLLPRI, EPOLLET]

/-- `SetWritable` sets or clears its own bit. -/
theorem write_setWritable : contains (setWritable m on) EPOLLOUT = on := by
  rw [contains_EPOLLOUT]
  unfold setWritable
  cases on <;> simp [add, remove, SelectEvents.edgeTrigger, SelectEvents.kWriteEvent, EPOLLOUT,
    EPOLLET]

theorem read_setWritable : contains (setWritable m on) EPOLLIN = contains m EPOLLIN ∧
    contains (setWritable m on) EPOLLPRI = contains m EPOLLPRI := by
  rw [contains_EPOLLIN, contains_EPOLLIN, contains_EPOLLPRI, contains_EPOLLPRI]
  unfold setWritable
  cases on <;> simp [add, remove, SelectEvents.edgeTrigger, SelectEvents.kWriteEvent, EPOLLOUT,
    EPOLLET]

/-- `SetWritable` sets or clears the trigger bit. -/
theorem edge_setWritable : contains (setWritable m on) EPOLLET = on := by
  rw [contains_EPOLLET]
  unfold setWritable
  cases on <;> simp [add, remove, SelectEvents.edgeTrigger, SelectEvents.kWriteEvent, EPOLLOUT,
    EPOLLET]

end SocketChannel

namespace SocketInterest

/-! ### The bits of the interests -/

/-- The selector has the mask, and its interest bits are those last asked for. -/
structure Bits (s : SocketInterest) : Prop where
  given : s.given = s.events_
  epollin : contains s.events_ EPOLLIN = s.readable
  epollpri : contains s.events_ EPOLLPRI = s.readable
  epollout : contains s.events_ EPOLLOUT = s.writable

theorem given_setEvents {s : SocketInterest} (h : s.given = s.events_) (events : EventMask) :
    (s.setEvents events).given = events := by
  unfold setEvents
  dsimp only
  split_ifs with hne
  · rfl
  · rw [h]
    exact not_not.mp hne

theorem bits_start : start.Bits := by
  constructor <;> decide

/-- **One call** leaves the interest bits as they were last asked for. -/
theorem Bits.step {l : InterestCall} {s t : SocketInterest} (h : s.Bits)
    (ht : SocketInterest.step l s = some t) : t.Bits := by
  cases l with
  | setReadable on =>
    obtain rfl := Option.some.inj ht
    have hread := SocketChannel.read_setReadable s.events_ on
    have hwrite := SocketChannel.write_setReadable s.events_ on
    exact ⟨given_setEvents h.given _, hread.1, hread.2, hwrite.trans h.epollout⟩
  | setWritable on =>
    obtain rfl := Option.some.inj ht
    have hread := SocketChannel.read_setWritable s.events_ on
    have hwrite := SocketChannel.write_setWritable s.events_ on
    exact ⟨given_setEvents h.given _, hread.1.trans h.epollin, hread.2.trans h.epollpri, hwrite⟩

/-! ### The trigger bit -/

/-- The interest bits are as last asked for, and come with the trigger bit. -/
structure Kept (s : SocketInterest) : Prop extends Bits s where
  edge : contains s.events_ EPOLLIN = true ∨ contains s.events_ EPOLLPRI = true ∨
    contains s.events_ EPOLLOUT = true → contains s.events_ EPOLLET = true

/-- The call does not turn an interest off while the other one is on. -/
def Alone (l : InterestCall) (s : SocketInterest) : Prop :=
  match l with
  | .setReadable on => on = true ∨ s.writable = false
  | .setWritable on => on = true ∨ s.readable = false

theorem kept_iff {s : SocketInterest} (h : s.Bits) :
    s.Kept ↔ (s.readable = true ∨ s.writable = true → contains s.events_ EPOLLET = true) := by
  -- some interest bit is set if and only if some interest has been asked for
  have hiff : (contains s.events_ EPOLLIN = true ∨ contains s.events_ EPOLLPRI = true ∨
      contains s.events_ EPOLLOUT = true) ↔ (s.readable = true ∨ s.writable = true) := by
    rw [h.epollin, h.epollpri, h.epollout]
    tauto
  constructor
  · intro hk hany
    exact hk.edge (hiff.mpr hany)
  · intro hedge
    exact ⟨h, fun hany => hedge (hiff.mp hany)⟩

/-- **One call** keeps the trigger bit if and only if it does not turn an interest off while the other
one is on. -/
theorem kept_step {l : InterestCall} {s t : SocketInterest} (h : s.Bits)
    (ht : SocketInterest.step l s = some t) : t.Kept ↔ Alone l s := by
  rw [kept_iff (h.step ht)]
  cases l with
  | setReadable on =>
    obtain rfl := Option.some.inj ht
    show (on = true ∨ s.writable = true →
      contains (SocketChannel.setReadable s.events_ on) EPOLLET = true) ↔ _
    rw [SocketChannel.edge_setReadable]
    unfold Alone
    cases on <;> simp
  | setWritable on =>
    obtain rfl := Option.some.inj ht
    show (s.readable = true ∨ on = true →
      contains (SocketChannel.setWritable s.events_ on) EPOLLET = true) ↔ _
    rw [SocketChannel.edge_setWritable]
    unfold Alone
    cases on <;> simp

/-- **The sequences that keep the interests independent**: after every call the selector has the mask,
the interest bits are as last asked for and come with the trigger bit, if and only if no call turns an
interest off while the other one is on. -/
theorem kept_iff_alone (ls : List InterestCall) :
    socketInterest.AllStates Kept ls start ↔ socketInterest.AllSteps Alone ls start := by
  have hstart : start.Kept := ⟨bits_start, by decide⟩
  exact System.allStates_iff_allSteps (I := Bits) (fun l s t h _ ht _ => h.step ht)
    (fun l s t h _ ht => kept_step h ht) ls bits_start hstart

/-- Both interests are asked for, and one of them is turned off: the other one is left without its
trigger bit. -/
theorem not_kept_off :
    ¬ socketInterest.AllStates Kept [.setReadable true, .setWritable true, .setWritable false]
      start := by
  intro h
  have hrun : ∃ t, socketInterest.run [.setReadable true, .setWritable true, .setWritable false]
      start = some t ∧ contains t.events_ EPOLLIN = true ∧ contains t.events_ EPOLLET = false :=
    ⟨_, rfl, by decide, by decide⟩
  obtain ⟨t, ht, hread, hedge⟩ := hrun
  have hkept := (h.last ht).edge (Or.inl hread)
  rw [hedge] at hkept
  cases hkept

end SocketInterest

end Lizlib
