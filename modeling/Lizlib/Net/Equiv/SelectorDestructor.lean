import Mathlib.Data.List.Nodup
import Lizlib.Net.Equiv.EpollSelector

/-!
# The destructor of the selector

`~EpollSelector` copies the channels that are still registered out of `register_map_`, in the map's
order, and removes one after the other; then it closes the descriptor of the interest list.

`run_removeAll`: no `epoll_ctl` of these fails, and both sides are empty in the end, whatever the
calls before were and whatever the order is.
-/

namespace Lizlib

namespace EpollSelector

variable {Ch : Type*}

/-- `Remove(channel)`: `Contains`, the change of the map, and `internalUpdate`. -/
def remove (c : Ch) : List (EpollLabel Ch) := [.call c .remove, .act c, .act c, .act c]

/-- The loop of `~EpollSelector` over `left_channels`. -/
def removeAll (left_channels : List Ch) : List (EpollLabel Ch) := left_channels.flatMap remove

/-- What is in the interest list under a descriptor is the channel that has it. -/
def Keyed (fd : Ch ↪ Nat) (s : EpollSelector Ch) : Prop :=
  ∀ n e, s.interest n = some e → fd e.2 = n

variable {fd : Ch ↪ Nat} {s t : EpollSelector Ch} {c : Ch}

open Function (update)

/-! ### The interest list -/

theorem Keyed.update {o : Option (EventMask × Ch)} (h : Keyed fd s)
    (ho : ∀ e, o = some e → e.2 = c) (ht : t.interest = update s.interest (fd c) o) :
    Keyed fd t := by
  intro n e he
  rw [ht] at he
  by_cases hn : n = fd c
  · rw [hn, Function.update_self] at he
    rw [hn, ho e he]
  · rw [Function.update_of_ne hn] at he
    exact h n e he

variable [DecidableEq Ch]

theorem Keyed.step {l : EpollLabel Ch} (h : Keyed fd s)
    (ht : EpollSelector.step fd l s = some t) : Keyed fd t := by
  unfold EpollSelector.step at ht
  split_ifs at ht
  cases l with
  | call c call =>
    dsimp only at ht
    split_ifs at ht
    obtain rfl := Option.some.inj ht
    exact h
  | act c =>
    dsimp only [act] at ht
    split at ht
    · cases ht
    · obtain rfl := Option.some.inj ht
      unfold lookUp
      split <;> exact h
    · obtain rfl := Option.some.inj ht
      exact h
    · obtain rfl := Option.some.inj ht
      unfold internalUpdate
      split
      · exact h.update (c := c) (fun e he => by cases he; rfl) rfl
      · exact h
      · exact h.update (c := c) (fun e he => by cases he; rfl) rfl
      · exact h
      · exact h.update (c := c) (fun e he => by cases he) rfl
      · exact h

theorem keyed_of_reach (h : (epollSelector fd).Reach Added s) : Keyed fd s := by
  refine h.invariant ?_ fun l s t hs _ ht => hs.step ht
  rintro s rfl n e he
  cases he

/-- A schedule without a call of `Update`. -/
theorem reach_run {ls : List (EpollLabel Ch)} (hs : (epollSelector fd).Reach Added s)
    (hadded : ∀ l ∈ ls, ∀ u, Added l u) (h : (epollSelector fd).run ls s = some t) :
    (epollSelector fd).Reach Added t := by
  induction ls generalizing s with
  | nil => exact Option.some.inj h ▸ hs
  | cons l ls ih =>
    obtain ⟨u, hu, hls⟩ := Option.bind_eq_some_iff.mp h
    have hreach := System.Reach.step hs (hadded l List.mem_cons_self s) hu
    exact ih hreach (fun m hm => hadded m (List.mem_cons_of_mem l hm)) hls

/-! ### One channel -/

/-- **`Remove` of a registered channel** leaves the other channels where they are. -/
theorem run_remove (hs : (epollSelector fd).Reach Added s) (hpc : s.pc c = .idle)
    (hc : s.register_map_ c ≠ none) :
    (epollSelector fd).run (remove c) s = some { s with
      register_map_ := update s.register_map_ c none
      interest := update s.interest (fd c) none
      calls := update s.calls c (s.calls c ++ [.remove]) } := by
  have hinv := inv_of_reach hs
  obtain ⟨m, hm⟩ := Option.ne_none_iff_exists'.mp hc
  have hinterest : s.interest (fd c) = some (m, c) := by
    obtain ⟨hmap, hinterest⟩ := hinv.idle hpc
    rw [hinterest, ← hmap, hm, Option.map_some]
  have hidle (pc : EpollPc) : update (update s.pc c pc) c .idle = s.pc := by
    rw [Function.update_idem, ← hpc, Function.update_eq_self]
  simp [remove, System.run, epollSelector, step, act, lookUp, setMap, internalUpdate, hinv.fatal,
    hpc, hm, hinterest, EpollCall.entry, hidle]

/-! ### All of them -/

/-- **The destructor** removes every channel that is left: from every state without a call in
progress its loop runs to the end, whatever the order of the map is, no `epoll_ctl` fails, and
neither the map nor the interest list has an entry any more. -/
theorem run_removeAll (hs : (epollSelector fd).Reach Added s) (hidle : ∀ c, s.pc c = .idle)
    {left_channels : List Ch} (hnodup : left_channels.Nodup)
    (hleft : ∀ c, c ∈ left_channels ↔ s.register_map_ c ≠ none) :
    ∃ t, (epollSelector fd).run (removeAll left_channels) s = some t ∧ t.fatal = none ∧
      (∀ c, t.register_map_ c = none) ∧ ∀ n, t.interest n = none := by
  induction left_channels generalizing s with
  | nil =>
    have hmap : ∀ c, s.register_map_ c = none := by
      intro c
      by_contra hc
      exact List.not_mem_nil ((hleft c).mpr hc)
    refine ⟨s, rfl, (inv_of_reach hs).fatal, hmap, fun n => ?_⟩
    by_contra hn
    obtain ⟨e, he⟩ := Option.ne_none_iff_exists'.mp hn
    -- the entry would be the one of a channel, which the map does not have
    obtain ⟨hwanted, hinterest⟩ := (inv_of_reach hs).idle (hidle e.2)
    rw [← hwanted, hmap, keyed_of_reach hs n e he, he] at hinterest
    cases hinterest
  | cons c cs ih =>
    obtain ⟨hc, hcs⟩ := List.nodup_cons.mp hnodup
    have hrun := run_remove hs (hidle c) ((hleft c).mp List.mem_cons_self)
    have hadded : ∀ l ∈ remove c, ∀ u, Added l u := by
      intro l hl u
      simp only [remove, List.mem_cons, List.not_mem_nil, or_false] at hl
      rcases hl with rfl | rfl | rfl | rfl <;> trivial
    have hreach := reach_run hs hadded hrun
    have hrest : ∀ d, d ∈ cs ↔ update s.register_map_ c none d ≠ none := by
      intro d
      by_cases hd : d = c
      · rw [hd, Function.update_self]
        exact iff_of_false hc (not_not.mpr rfl)
      · rw [Function.update_of_ne hd, ← hleft, List.mem_cons, or_iff_right hd]
    obtain ⟨t, ht, hend⟩ := ih hreach hidle hcs hrest
    refine ⟨t, ?_, hend⟩
    show System.run _ (remove c ++ removeAll cs) s = some t
    rw [System.run_append, hrun]
    exact ht

/-- Two channels. -/
def twoDescriptors : Bool ↪ Nat := ⟨Bool.toNat, fun a b h => by cases a <;> cases b <;> trivial⟩

/-- Both are added. -/
def addBoth : List (EpollLabel Bool) :=
  [.call true (.add Events.EPOLLIN), .act true, .call false (.add Events.EPOLLOUT), .act false,
    .act true, .act false, .act false, .act true]

theorem run_removeAll_two : ∃ s t, (epollSelector twoDescriptors).Reach Added s ∧
    (∀ c, s.register_map_ c ≠ none) ∧
      (epollSelector twoDescriptors).run (removeAll [true, false]) s = some t ∧
        ∀ n, t.interest n = none := by
  have hrun : ∃ s, (epollSelector twoDescriptors).run addBoth start = some s ∧
      (∀ c, s.pc c = .idle) ∧ ∀ c, s.register_map_ c ≠ none :=
    ⟨_, rfl, by decide, by decide⟩
  obtain ⟨s, hs, hidle, hboth⟩ := hrun
  have hreach : (epollSelector twoDescriptors).Reach Added s := by
    refine reach_run (.init rfl) (fun l hl u => ?_) hs
    simp only [addBoth, List.mem_cons, List.not_mem_nil, or_false] at hl
    rcases hl with rfl | rfl | rfl | rfl | rfl | rfl | rfl | rfl <;> trivial
  have hleft : ∀ c, c ∈ [true, false] ↔ s.register_map_ c ≠ none :=
    fun c => iff_of_true (by cases c <;> decide) (hboth c)
  obtain ⟨t, ht, -, -, hnone⟩ := run_removeAll hreach hidle (by decide) hleft
  exact ⟨s, t, hreach, hboth, ht, hnone⟩

end EpollSelector

end Lizlib
