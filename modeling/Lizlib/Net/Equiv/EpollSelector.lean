import Lizlib.Net.EpollSelector

/-!
# The map and the interest list

Each side follows the calls made on a channel one step after the other.  `wanted` is what those calls
ask for, in order; `ChannelInv` says how far either side has come at each point of a call, and no step
touches the entries of another channel (`step_other`).

`inStep`: between calls the two sides agree, no `epoll_ctl` fails, and a second `Add` or a second
`Remove` changes neither side.
-/

namespace Lizlib

open Events

/-- What a call asks for, given the mask the channel is registered with. -/
def EpollCall.apply : EpollCall → Option EventMask → Option EventMask
  | add events, none => some events
  | add _, some m => some m
  | update events, _ => some events
  | remove, _ => none

/-- The call gets beyond its look-up. -/
def EpollCall.Applies : EpollCall → Option EventMask → Prop
  | add _, o => o = none
  | update _, o | remove, o => o ≠ none

theorem EpollCall.entry_eq {call : EpollCall} {o : Option EventMask} (h : call.Applies o) :
    call.entry = call.apply o := by
  cases call with
  | add events =>
    obtain rfl : o = none := h
    rfl
  | update events => rfl
  | remove => rfl

namespace EpollSelector

variable {Ch : Type*} [DecidableEq Ch]

/-- `Update` is called only on added channels. -/
def Added (l : EpollLabel Ch) (s : EpollSelector Ch) : Prop :=
  match l with
  | .call c (.update _) => s.register_map_ c ≠ none
  | _ => True

omit [DecidableEq Ch] in
/-- What the calls on the channel ask for. -/
def wanted (s : EpollSelector Ch) (c : Ch) : Option EventMask :=
  (s.calls c).foldl (fun o call => call.apply o) none

/-! ### One channel -/

omit [DecidableEq Ch] in
/-- How far the map and the interest list have come towards `wanted`. -/
def ChannelInv (c : Ch) (wanted map : Option EventMask) (interest : Option (EventMask × Ch)) :
    EpollPc → Prop
  | .idle => map = wanted ∧ interest = wanted.map fun m => (m, c)
  | .contains call => wanted = call.apply map ∧ (interest = map.map fun m => (m, c)) ∧
      ∀ events, call = .update events → map ≠ none
  | .map call => wanted = call.apply map ∧ (interest = map.map fun m => (m, c)) ∧ call.Applies map
  | .ctl call => map = wanted ∧ ∃ o, wanted = call.apply o ∧ (interest = o.map fun m => (m, c)) ∧
      call.Applies o

variable {fd : Ch ↪ Nat}

/-- Every channel is where its call has brought it. -/
structure Inv (fd : Ch ↪ Nat) (s : EpollSelector Ch) : Prop where
  fatal : s.fatal = none
  channel : ∀ c, ChannelInv c (s.wanted c) (s.register_map_ c) (s.interest (fd c)) (s.pc c)

omit [DecidableEq Ch] in
theorem inv_start : Inv fd (start : EpollSelector Ch) := ⟨rfl, fun _ => ⟨rfl, rfl⟩⟩

/-- A step leaves `d` alone. -/
structure Same (fd : Ch ↪ Nat) (d : Ch) (s t : EpollSelector Ch) : Prop where
  calls : t.calls d = s.calls d
  register_map_ : t.register_map_ d = s.register_map_ d
  interest : t.interest (fd d) = s.interest (fd d)
  pc : t.pc d = s.pc d

/-- Only what is said of the channel itself is left to prove about a step. -/
theorem Inv.of_same {c : Ch} {s t : EpollSelector Ch} (h : Inv fd s) (hfatal : t.fatal = none)
    (hother : ∀ d, d ≠ c → Same fd d s t)
    (hc : ChannelInv c (t.wanted c) (t.register_map_ c) (t.interest (fd c)) (t.pc c)) :
    Inv fd t := by
  refine ⟨hfatal, fun d => ?_⟩
  by_cases hd : d = c
  · rw [hd]
    exact hc
  · have hsame := hother d hd
    have hwanted : t.wanted d = s.wanted d := by
      unfold wanted
      rw [hsame.calls]
    rw [hwanted, hsame.register_map_, hsame.interest, hsame.pc]
    exact h.channel d

section Steps

variable {s : EpollSelector Ch} {c : Ch} {call : EpollCall} (h : Inv fd s)

include h

/-- A call begins. -/
theorem Inv.enter (hpc : s.pc c = .idle) (hadded : Added (.call c call) s) :
    Inv fd { s with
      pc := Function.update s.pc c (.contains call)
      calls := Function.update s.calls c (s.calls c ++ [call]) } := by
  have hc := h.channel c
  rw [hpc] at hc
  obtain ⟨hmap, hinterest⟩ := hc
  refine h.of_same (c := c) h.fatal (fun d hd => ⟨?_, rfl, rfl, ?_⟩) ?_
  · exact Function.update_of_ne hd _ _
  · exact Function.update_of_ne hd _ _
  · have hwanted : wanted { s with
        pc := Function.update s.pc c (.contains call)
        calls := Function.update s.calls c (s.calls c ++ [call]) } c = call.apply (s.wanted c) := by
      unfold wanted
      dsimp only
      rw [Function.update_self, List.foldl_concat]
    rw [hwanted]
    dsimp only
    rw [Function.update_self, hmap, hinterest]
    refine ⟨rfl, rfl, fun events hcall => ?_⟩
    rw [hcall] at hadded
    rw [← hmap]
    exact hadded

/-- The call is over, or its change of the map comes next. -/
theorem Inv.lookUp (hpc : s.pc c = .contains call) : Inv fd (s.lookUp c call) := by
  have hc := h.channel c
  rw [hpc] at hc
  obtain ⟨hwanted, hinterest, hupdate⟩ := hc
  -- a call that asks for what is there already is over
  have hdone : call.apply (s.register_map_ c) = s.register_map_ c →
      Inv fd { s with pc := Function.update s.pc c .idle } := by
    intro happly
    refine h.of_same h.fatal (fun d hd => ⟨rfl, rfl, rfl, Function.update_of_ne hd _ _⟩) ?_
    show ChannelInv c (s.wanted c) _ _ (Function.update s.pc c .idle c)
    rw [Function.update_self, hwanted, happly]
    exact ⟨rfl, hinterest⟩
  -- any other one goes on to the map
  have hnext : call.Applies (s.register_map_ c) →
      Inv fd { s with pc := Function.update s.pc c (.map call) } := by
    intro happlies
    refine h.of_same h.fatal (fun d hd => ⟨rfl, rfl, rfl, Function.update_of_ne hd _ _⟩) ?_
    show ChannelInv c (s.wanted c) _ _ (Function.update s.pc c (.map call) c)
    rw [Function.update_self]
    exact ⟨hwanted, hinterest, happlies⟩
  unfold EpollSelector.lookUp
  cases call with
  | add events =>
    cases hm : s.register_map_ c with
    | none => exact hnext hm
    | some m => exact hdone (by rw [hm]; rfl)
  | update events =>
    cases hm : s.register_map_ c with
    -- `Update` of a channel that is not there would end the process
    | none => exact absurd hm (hupdate events rfl)
    | some m => exact hnext (by rw [hm]; exact Option.some_ne_none m)
  | remove =>
    cases hm : s.register_map_ c with
    | none => exact hdone (by rw [hm]; rfl)
    | some m => exact hnext (by rw [hm]; exact Option.some_ne_none m)

/-- The map is where it is wanted. -/
theorem Inv.setMap (hpc : s.pc c = .map call) : Inv fd (s.setMap c call) := by
  have hc := h.channel c
  rw [hpc] at hc
  obtain ⟨hwanted, hinterest, happlies⟩ := hc
  refine h.of_same (c := c) h.fatal (fun d hd => ⟨rfl, ?_, rfl, ?_⟩) ?_
  · exact Function.update_of_ne hd _ _
  · exact Function.update_of_ne hd _ _
  · show ChannelInv c (s.wanted c) (Function.update s.register_map_ c _ c) (s.interest (fd c))
      (Function.update s.pc c (.ctl call) c)
    rw [Function.update_self, Function.update_self, EpollCall.entry_eq happlies, ← hwanted]
    exact ⟨rfl, s.register_map_ c, hwanted, hinterest, happlies⟩

/-- **The `epoll_ctl`** succeeds, and the interest list is where it is wanted. -/
theorem Inv.internalUpdate (hpc : s.pc c = .ctl call) :
    Inv fd (s.internalUpdate (fd c) c call) := by
  have hc := h.channel c
  rw [hpc] at hc
  obtain ⟨hmap, o, hwanted, hinterest, happlies⟩ := hc
  have hdone : Inv fd { s with
      interest := Function.update s.interest (fd c) ((s.wanted c).map fun m => (m, c))
      pc := Function.update s.pc c .idle } := by
    refine h.of_same h.fatal (fun d hd => ⟨rfl, rfl, ?_, Function.update_of_ne hd _ _⟩) ?_
    · -- the descriptors are distinct
      exact Function.update_of_ne (fun heq => hd (fd.injective heq)) _ _
    · show ChannelInv c (s.wanted c) _ (Function.update s.interest (fd c) _ (fd c))
        (Function.update s.pc c .idle c)
      rw [Function.update_self, Function.update_self]
      exact ⟨hmap, rfl⟩
  unfold EpollSelector.internalUpdate
  cases call with
  | add events =>
    obtain rfl : o = none := happlies
    rw [hwanted] at hdone
    rw [hinterest]
    exact hdone
  | update events =>
    obtain ⟨m, rfl⟩ := Option.ne_none_iff_exists'.mp happlies
    rw [hwanted] at hdone
    rw [hinterest]
    exact hdone
  | remove =>
    obtain ⟨m, rfl⟩ := Option.ne_none_iff_exists'.mp happlies
    rw [hwanted] at hdone
    rw [hinterest]
    exact hdone

end Steps

/-- **One step** brings its channel on, and leaves the others where they are. -/
theorem Inv.step {l : EpollLabel Ch} {s t : EpollSelector Ch} (h : Inv fd s) (hadded : Added l s)
    (ht : EpollSelector.step fd l s = some t) : Inv fd t := by
  unfold EpollSelector.step at ht
  rw [if_neg (not_not.mpr h.fatal)] at ht
  cases l with
  | call c call =>
    dsimp only at ht
    split_ifs at ht with hpc
    obtain rfl := Option.some.inj ht
    exact h.enter hpc hadded
  | act c =>
    dsimp only at ht
    unfold act at ht
    cases hpc : s.pc c with
    | idle => simp [hpc] at ht
    | contains call =>
      rw [hpc] at ht
      obtain rfl := Option.some.inj ht
      exact h.lookUp hpc
    | map call =>
      rw [hpc] at ht
      obtain rfl := Option.some.inj ht
      exact h.setMap hpc
    | ctl call =>
      rw [hpc] at ht
      obtain rfl := Option.some.inj ht
      exact h.internalUpdate hpc

theorem inv_of_reach {s : EpollSelector Ch} (h : (epollSelector fd).Reach Added s) : Inv fd s := by
  refine h.invariant ?_ fun l s t hs hadded ht => hs.step hadded ht
  rintro s rfl
  exact inv_start

/-! ### Between calls -/

omit [DecidableEq Ch] in
/-- Between calls both sides are what the calls on the channel ask for. -/
theorem Inv.idle {s : EpollSelector Ch} (h : Inv fd s) {c : Ch} (hpc : s.pc c = .idle) :
    s.register_map_ c = s.wanted c ∧ s.interest (fd c) = (s.wanted c).map fun m => (m, c) := by
  have hc := h.channel c
  rw [hpc] at hc
  exact hc

omit [DecidableEq Ch] in
theorem wanted_concat {s t : EpollSelector Ch} {c : Ch} {call : EpollCall}
    (hcalls : t.calls c = s.calls c ++ [call]) : t.wanted c = call.apply (s.wanted c) := by
  unfold wanted
  rw [hcalls, List.foldl_concat]

/-- **The map and the interest list are in step**: no run ends the process, and wherever no call on
a channel is in progress the map has the mask that the calls on it ask for, and has it if and only
if the interest list has that mask and the channel under its descriptor.  After one more `Add` of a
registered channel, or one more `Remove` of one that is not registered, both sides are as before. -/
theorem inStep (fd : Ch ↪ Nat) :
    (∀ s, (epollSelector fd).Reach Added s → s.fatal = none ∧ ∀ c, s.pc c = .idle →
      s.register_map_ c = s.wanted c ∧
        ∀ m, s.register_map_ c = some m ↔ s.interest (fd c) = some (m, c)) ∧
    (∀ s t, (epollSelector fd).Reach Added s → (epollSelector fd).Reach Added t →
      ∀ c, s.pc c = .idle → t.pc c = .idle →
        (∀ m events, s.register_map_ c = some m → t.calls c = s.calls c ++ [.add events] →
          t.register_map_ c = some m ∧ t.interest (fd c) = some (m, c)) ∧
        (s.register_map_ c = none → t.calls c = s.calls c ++ [.remove] →
          t.register_map_ c = none ∧ t.interest (fd c) = none)) := by
  refine ⟨fun s hs => ?_, fun s t hs ht c hsc htc => ?_⟩
  · have hinv := inv_of_reach hs
    refine ⟨hinv.fatal, fun c hpc => ?_⟩
    obtain ⟨hmap, hinterest⟩ := hinv.idle hpc
    refine ⟨hmap, fun m => ?_⟩
    rw [hmap, hinterest]
    simp
  · obtain ⟨hmap, -⟩ := (inv_of_reach hs).idle hsc
    obtain ⟨hmap', hinterest'⟩ := (inv_of_reach ht).idle htc
    rw [hmap', hinterest', hmap]
    constructor
    · intro m events hm hcalls
      rw [wanted_concat hcalls, hm]
      exact ⟨rfl, rfl⟩
    · intro hm hcalls
      rw [wanted_concat hcalls, hm]
      exact ⟨rfl, rfl⟩

instance (l : EpollLabel Ch) (s : EpollSelector Ch) : Decidable (Added l s) :=
  match l with
  | .call c (.update _) => inferInstanceAs (Decidable (s.register_map_ c ≠ none))
  | .call _ (.add _) | .call _ .remove | .act _ => isTrue trivial

/-- Two channels are added; then one is updated while the other is removed. -/
def twoChannels : List (EpollLabel Nat) :=
  [.call 0 (.add EPOLLIN), .act 0, .call 1 (.add EPOLLOUT), .act 1, .act 0, .act 1, .act 1, .act 0,
    .call 0 (.update EPOLLOUT), .act 0, .call 1 .remove, .act 1, .act 0, .act 1, .act 1, .act 0]

/-- The one is added again, with another mask, and the other is removed again. -/
def twiceOver : List (EpollLabel Nat) :=
  [.call 0 (.add EPOLLIN), .call 1 .remove, .act 0, .act 1]

theorem inStep_twoChannels : ∃ s t : EpollSelector Nat,
    (epollSelector (.refl Nat)).run twoChannels start = some s ∧
      (epollSelector (.refl Nat)).run (twoChannels ++ twiceOver) start = some t ∧
      (s.wanted 0 = some EPOLLOUT ∧ s.register_map_ 0 = s.wanted 0 ∧
        s.interest 0 = some (EPOLLOUT, 0)) ∧
      (s.wanted 1 = none ∧ s.register_map_ 1 = s.wanted 1) ∧
      (t.register_map_ 0 = some EPOLLOUT ∧ t.interest 0 = some (EPOLLOUT, 0)) ∧
      (t.register_map_ 1 = none ∧ t.interest 1 = none) := by
  have hs : ∃ s, (epollSelector (.refl Nat)).run twoChannels start = some s ∧ s.pc 0 = .idle ∧
      s.pc 1 = .idle ∧ s.register_map_ 0 = some EPOLLOUT ∧ s.register_map_ 1 = none ∧
      s.calls 0 = [.add EPOLLIN, .update EPOLLOUT] ∧ s.calls 1 = [.add EPOLLOUT, .remove] :=
    ⟨_, rfl, rfl, rfl, rfl, rfl, rfl, rfl⟩
  have ht : ∃ t, (epollSelector (.refl Nat)).run (twoChannels ++ twiceOver) start = some t ∧
      t.pc 0 = .idle ∧ t.pc 1 = .idle ∧
      t.calls 0 = [.add EPOLLIN, .update EPOLLOUT, .add EPOLLIN] ∧
      t.calls 1 = [.add EPOLLOUT, .remove, .remove] := ⟨_, rfl, rfl, rfl, rfl, rfl⟩
  obtain ⟨s, hs, hs0, hs1, hm0, hm1, hc0, hc1⟩ := hs
  obtain ⟨t, ht, ht0, ht1, hd0, hd1⟩ := ht
  have hguard : (epollSelector (.refl Nat)).AllSteps Added twoChannels start := by decide
  have hguard' : (epollSelector (.refl Nat)).AllSteps Added (twoChannels ++ twiceOver) start := by
    decide
  have hreach := hguard.reach (.init rfl) hs
  have hreach' := hguard'.reach (.init rfl) ht
  obtain ⟨hfirst, hagain⟩ := inStep (.refl Nat)
  obtain ⟨hw0, hi0⟩ := (hfirst s hreach).2 0 hs0
  obtain ⟨hw1, -⟩ := (hfirst s hreach).2 1 hs1
  refine ⟨s, t, hs, ht, ⟨hw0.symm.trans hm0, hw0, (hi0 _).mp hm0⟩, ⟨hw1.symm.trans hm1, hw1⟩, ?_, ?_⟩
  · exact (hagain s t hreach hreach' 0 hs0 ht0).1 _ _ hm0 (by rw [hd0, hc0]; rfl)
  · exact (hagain s t hreach hreach' 1 hs1 ht1).2 hm1 (by rw [hd1, hc1]; rfl)

end EpollSelector

end Lizlib
