import Lizlib.Data.RoundRobin
import Lizlib.Net.EventLoopGroup

/-!
# Which loops a group hands out

`next` reduces its ticket modulo the size of the group; `CurrentPosLoop` takes the cursor as it is.
So the loops that `Next` returns are dealt in turn (`Drawn`), and `indexed_iff_early`: all accesses
are in bounds exactly as long as `CurrentPosLoop` is called before the cursor has passed the last
loop.
-/

namespace Lizlib

namespace EventLoopGroup

variable {T : Type*} {loop_size : UInt64} {s u : EventLoopGroup} {call : GroupCall}

/-- The loops that `Next` has returned. -/
def returned (s : EventLoopGroup) : List Nat :=
  (s.accesses.filter (·.1 ≠ .currentPosLoop)).filterMap (s.loops_[·.2]?)

/-- All accesses to `loops_` are in bounds, and up to `2 ^ 64` tickets `Next` has returned the loops
equally often up to one. -/
structure Indexed (s : EventLoopGroup) : Prop where
  bounds : ∀ x ∈ s.accesses, x.2 < s.loops_.length
  fair : s.tickets < 2 ^ 64 →
    ∀ a ∈ s.loops_, ∀ b ∈ s.loops_, s.returned.count a ≤ s.returned.count b + 1

/-- `CurrentPosLoop` is called while fewer tickets have been drawn, modulo `2 ^ 64`, than there are
loops. -/
def Early (l : T × GroupCall) (s : EventLoopGroup) : Prop :=
  l.2 = .currentPosLoop → s.tickets % 2 ^ 64 < s.size_.toNat

instance (l : T × GroupCall) (s : EventLoopGroup) : Decidable (Early l s) :=
  inferInstanceAs (Decidable (_ → _))

/-! ### One call -/

/-- One call from `s`, by its label. -/
inductive Moves (s : EventLoopGroup) : T × GroupCall → EventLoopGroup → Prop
  | draw {t : T} {call : GroupCall} (hcall : call ≠ .currentPosLoop) : Moves s (t, call) (s.Next call)
  | look {t : T} : Moves s (t, .currentPosLoop) s.CurrentPosLoop

/-- **Inversion of a call**. -/
theorem moves_of_step {l : T × GroupCall} (h : step l s = some u) : Moves s l u := by
  unfold step at h
  split_ifs at h
  obtain ⟨t, call⟩ := l
  cases call with
  | currentPosLoop =>
    obtain rfl := Option.some.inj h
    exact .look
  | next | submit | submitAfter | submitEvery =>
    obtain rfl := Option.some.inj h
    exact .draw (by simp)

/-! ### What holds in all states -/

/-- The loops are numbered, the cursor counts the tickets, and up to `2 ^ 64` of them the loops are
dealt in turn. -/
structure Drawn (loop_size : UInt64) (s : EventLoopGroup) : Prop where
  size : s.size_ = loop_size
  loops : s.loops_ = List.range loop_size.toNat
  cursor : s.next_ = UInt64.ofNat s.tickets
  dealt : s.tickets < 2 ^ 64 → s.returned = deal loop_size.toNat s.tickets

theorem drawn_start : Drawn loop_size (start loop_size) :=
  ⟨rfl, rfl, rfl, fun _ => rfl⟩

/-- The index of a draw. -/
theorem Drawn.index_lt (hs : s.Drawn loop_size) (hsize : 0 < loop_size.toNat) :
    (s.next_ % s.size_).toNat < s.loops_.length := by
  rw [hs.size, hs.loops, List.length_range, UInt64.toNat_mod]
  exact Nat.mod_lt _ hsize

theorem Drawn.cursor_toNat (hs : s.Drawn loop_size) : s.next_.toNat = s.tickets % 2 ^ 64 := by
  rw [hs.cursor, UInt64.toNat_ofNat']

theorem returned_currentPosLoop : s.CurrentPosLoop.returned = s.returned := by
  simp [returned, CurrentPosLoop, access]

theorem Drawn.returned_next (hs : s.Drawn loop_size) (hsize : 0 < loop_size.toNat)
    (hcall : call ≠ .currentPosLoop) :
    (s.Next call).returned = s.returned ++ [(s.next_ % s.size_).toNat] := by
  have hindex := hs.index_lt hsize
  rw [hs.loops, List.length_range] at hindex
  have hloop : s.loops_[(s.next_ % s.size_).toNat]? = some (s.next_ % s.size_).toNat := by
    rw [hs.loops, List.getElem?_range hindex]
  simp only [returned, Next, next, access, List.filter_append, List.filterMap_append]
  rw [List.filter_cons_of_pos (by simpa using hcall), List.filter_nil]
  simp only [List.filterMap_cons, hloop, List.filterMap_nil]

theorem Drawn.next (hs : s.Drawn loop_size) (hsize : 0 < loop_size.toNat)
    (hcall : call ≠ .currentPosLoop) : (s.Next call).Drawn loop_size := by
  refine ⟨hs.size, hs.loops, ?_, fun htickets => ?_⟩
  · show s.next_ + 1 = UInt64.ofNat (s.tickets + 1)
    rw [hs.cursor, UInt64.ofNat_add]
    rfl
  · have hlt : s.tickets + 1 < 2 ^ 64 := htickets
    rw [hs.returned_next hsize hcall, hs.dealt (by omega), UInt64.toNat_mod, hs.size,
      hs.cursor_toNat, Nat.mod_eq_of_lt (show s.tickets < 2 ^ 64 by omega)]
    exact deal_succ.symm

theorem Drawn.currentPosLoop (hs : s.Drawn loop_size) : s.CurrentPosLoop.Drawn loop_size := by
  refine ⟨hs.size, hs.loops, hs.cursor, fun htickets => ?_⟩
  rw [returned_currentPosLoop]
  exact hs.dealt htickets

theorem Drawn.step {l : T × GroupCall} (hs : s.Drawn loop_size) (hsize : 0 < loop_size.toNat)
    (h : step l s = some u) : u.Drawn loop_size := by
  cases moves_of_step h with
  | draw hcall => exact hs.next hsize hcall
  | look => exact hs.currentPosLoop

theorem Drawn.fair (hs : s.Drawn loop_size) (htickets : s.tickets < 2 ^ 64) :
    ∀ a ∈ s.loops_, ∀ b ∈ s.loops_, s.returned.count a ≤ s.returned.count b + 1 := by
  intro a ha b hb
  rw [hs.loops, List.mem_range] at ha hb
  rw [hs.dealt htickets]
  exact count_deal_le ha hb

/-- An access keeps all indices in bounds exactly when its own is. -/
theorem bounds_access (hs : s.Indexed) (i : UInt64) :
    (∀ x ∈ (s.access call i).accesses, x.2 < s.loops_.length) ↔ i.toNat < s.loops_.length := by
  simp only [access, List.forall_mem_append, List.forall_mem_singleton]
  exact and_iff_right hs.bounds

theorem Indexed.next (hs : s.Indexed) (hd : s.Drawn loop_size) (hsize : 0 < loop_size.toNat)
    (hcall : call ≠ .currentPosLoop) : (s.Next call).Indexed :=
  ⟨(bounds_access hs _).mpr (hd.index_lt hsize), (hd.next hsize hcall).fair⟩

theorem indexed_currentPosLoop (hs : s.Indexed) (hd : s.Drawn loop_size) :
    s.CurrentPosLoop.Indexed ↔ s.tickets % 2 ^ 64 < s.size_.toNat := by
  have hbounds : (∀ x ∈ s.CurrentPosLoop.accesses, x.2 < s.CurrentPosLoop.loops_.length) ↔
      s.next_.toNat < s.loops_.length := bounds_access hs s.next_
  rw [hd.size, ← hd.cursor_toNat]
  rw [hd.loops, List.length_range] at hbounds
  rw [← hbounds]
  exact ⟨fun h => h.bounds, fun h => ⟨h, hd.currentPosLoop.fair⟩⟩

/-! ### All runs -/

/-- **The exact condition**: all accesses are in bounds, and the loops are dealt evenly, in all states
of a run if and only if `CurrentPosLoop` is only called in it while fewer tickets have been drawn,
modulo `2 ^ 64`, than there are loops. -/
theorem indexed_iff_early (hsize : 0 < loop_size.toNat) (ls : List (T × GroupCall)) :
    (eventLoopGroup T loop_size).AllStates Indexed ls (start loop_size) ↔
      (eventLoopGroup T loop_size).AllSteps Early ls (start loop_size) := by
  have hindexed : Indexed (start loop_size) := by
    constructor <;> simp [start, returned]
  refine System.allStates_iff_allSteps (I := Drawn loop_size)
    (fun l s u hs _ h _ => hs.step hsize h) (fun l s u hs hin h => ?_) ls drawn_start hindexed
  cases moves_of_step h with
  | draw hcall => exact iff_of_true (hin.next hs hsize hcall) fun h => absurd h hcall
  | look =>
    rw [indexed_currentPosLoop hin hs]
    exact ⟨fun h _ => h, fun h => h rfl⟩

theorem indexed_of_early_two :
    (eventLoopGroup Bool 2).AllStates Indexed
      [(true, .currentPosLoop), (false, .submit), (true, .currentPosLoop), (true, .next)]
      (start 2) :=
  (indexed_iff_early (by decide) _).mpr (by decide)

/-- A client with a group of one loop takes it for its connection and then asks for its event loop. -/
theorem not_indexed_currentPosLoop :
    ¬ (eventLoopGroup Unit 1).AllStates Indexed [((), .next), ((), .currentPosLoop)] (start 1) := by
  intro h
  have hlast := (h.last (t := (start 1 |>.Next .next).CurrentPosLoop) rfl).bounds
    (.currentPosLoop, 1) (by decide)
  exact absurd hlast (by decide)

end EventLoopGroup

end Lizlib
