import Lizlib.Net.Equiv.TcpConnection
import Lizlib.Net.TcpOwners

/-!
# The steps of the owners, and the assertion of the accept callback

`Moves` lists the steps of the system, `Handled`, `Started` and `Closed` those of the server and of
the client.

The assertion counts the server's `conn`.  So it holds exactly when one other owner is alive: the
entry in `conns_` and no closure, or one closure and no entry (`assertion_iff`).
-/

namespace Lizlib

namespace TcpOwners

open Function (update)
open TcpConnection (quiet)

variable {T : Type*}

/-! ### Inversion -/

/-- A step of the server's or the client's handler. -/
inductive Handled (s : TcpOwners T) : TcpOwners T → Prop
  | emplace (hhead : (s.conn.stack none).head? = some (.setReadable true)) (hside : s.side = .server)
      (habsent : s.member = .absent) : Handled s { s with member := .present }
  | goto (hhead : (s.conn.stack none).head? = some .clearConn) (pc : OnClosePc) (locked : Bool)
      (state : TcpClientState) :
      Handled s { s with onClose := pc, locked := locked, state_ := state }
  | drop (hhead : (s.conn.stack none).head? = some .clearConn) (pc : OnClosePc) :
      Handled s { s with member := s.member.drop, onClose := pc }

/-- A step of the thread in `Start`. -/
inductive Started (s : TcpOwners T) : TcpOwners T → Prop
  | addChannel (h : s.starter = .addChannel) : Started s { s with starter := .await }
  | await (h : s.starter = .await) (hlatch : s.latch = 0) :
      Started s { s with starter := match s.side with | .server => .check | .client => .returned }
  | passed (h : s.starter = .check) (hcount : s.useCount = 2) : Started s { s with starter := .scope }
  | failed (h : s.starter = .check) (hcount : s.useCount ≠ 2) : Started s { s with fatal := true }
  | scope (h : s.starter = .scope) : Started s { s with starter := .returned }

/-- A step of thread `t` in `Close`. -/
inductive Closed [DecidableEq T] (s : TcpOwners T) (t : T) : TcpOwners T → Prop
  | goto (locked : Bool) (pc : ClosePc) :
      Closed s t { s with locked := locked, closing := update s.closing t pc }
  | conn {c : TcpConnection T} (hpresent : s.member = .present)
      (hc : s.conn.step (.call t .close) = some c) (pc : ClosePc) :
      Closed s t { s with conn := c, closing := update s.closing t pc }
  | clear (hpc : s.closing t = .clear) :
      Closed s t
        { s with member := s.member.drop, locked := false, closing := update s.closing t .idle }

theorem handled_of_step {s t : TcpOwners T} (h : s.handlerStep = some t) : Handled s t := by
  unfold handlerStep at h
  split at h
  · rename_i hhead hside
    split_ifs at h with habsent
    obtain rfl := Option.some.inj h
    exact .emplace hhead hside habsent.1
  · rename_i hhead _ _
    split_ifs at h
    obtain rfl := Option.some.inj h
    exact .goto hhead .erase true s.state_
  · rename_i hhead _ _
    obtain rfl := Option.some.inj h
    exact .drop hhead .release
  · rename_i hhead _ _
    obtain rfl := Option.some.inj h
    exact .goto hhead .done false s.state_
  · rename_i hhead _ _
    split_ifs at h
    obtain rfl := Option.some.inj h
    exact .goto hhead .reset s.locked .kDisconnected
  · rename_i hhead _ _
    split_ifs at h
    obtain rfl := Option.some.inj h
    exact .drop hhead .done
  · cases h

theorem started_of_step {s t : TcpOwners T} (h : s.starterStep = some t) : Started s t := by
  unfold starterStep at h
  cases hpc : s.starter with
  | addChannel =>
    simp only [hpc] at h
    split_ifs at h
    obtain rfl := Option.some.inj h
    exact .addChannel hpc
  | await =>
    simp only [hpc] at h
    split_ifs at h with hlatch
    obtain rfl := Option.some.inj h
    exact .await hpc hlatch
  | check =>
    simp only [hpc] at h
    by_cases hcount : s.useCount = 2
    · rw [if_pos hcount] at h
      obtain rfl := Option.some.inj h
      exact .passed hpc hcount
    · rw [if_neg hcount] at h
      obtain rfl := Option.some.inj h
      rw [← hpc]
      exact .failed hpc hcount
  | scope =>
    simp only [hpc] at h
    obtain rfl := Option.some.inj h
    exact .scope hpc
  | returned =>
    simp only [hpc] at h
    cases h

variable [DecidableEq T]

theorem closed_of_step {s u : TcpOwners T} {t : T} (h : s.closeStep t = some u) : Closed s t u := by
  unfold closeStep at h
  cases hpc : s.closing t with
  | idle =>
    simp only [hpc] at h
    cases h
  | lock =>
    simp only [hpc] at h
    split_ifs at h
    obtain rfl := Option.some.inj h
    exact .goto true .each
  | each =>
    simp only [hpc] at h
    split_ifs at h with hpresent
    · obtain ⟨c, hc, rfl⟩ := Option.map_eq_some_iff.mp h
      exact .conn hpresent hc .clear
    · obtain rfl := Option.some.inj h
      exact .goto s.locked .clear
  | clear =>
    simp only [hpc] at h
    split_ifs at h
    obtain rfl := Option.some.inj h
    exact .clear hpc
  | ifConn =>
    simp only [hpc] at h
    obtain rfl := Option.some.inj h
    exact .goto s.locked _
  | onConn =>
    simp only [hpc] at h
    split_ifs at h with hpresent
    obtain ⟨c, hc, rfl⟩ := Option.map_eq_some_iff.mp h
    exact .conn hpresent hc .idle

/-- One step from `s`, by its label. -/
inductive Moves (s : TcpOwners T) : OwnersLabel T → TcpOwners T → Prop
  | conn {l : TcpLabel T} {c : TcpConnection T} (hw : s.waits l = false)
      (hc : s.conn.step l = some c) : Moves s (.conn l) (s.observe c l)
  | submitted {w : Option T} : Moves s (.submitted w) { s with closures := s.closures.erase w }
  | handler {t : TcpOwners T} (h : Handled s t) : Moves s .handler t
  | countDown (hwork : s.work ≠ none) (hidle : s.conn.stack none = []) (hlatch : s.latch ≠ 0) :
      Moves s .countDown { s with latch := s.latch - 1 }
  | finish (hlatch : s.latch = 0) : Moves s .finish { s with work := none }
  | starter {t : TcpOwners T} (h : Started s t) : Moves s .starter t
  | close {t : T} (state : TcpClientState) (closing : T → ClosePc) :
      Moves s (.close t) { s with state_ := state, closing := closing }
  | next {t : T} {u : TcpOwners T} (h : Closed s t u) : Moves s (.next t) u
  | getConnection (hside : s.side = .client) : Moves s .getConnection { s with copies := s.copies + 1 }
  | drop (hcopies : 0 < s.copies) : Moves s .drop { s with copies := s.copies - 1 }
  | destroy (hside : s.side = .client) :
      Moves s .destroy { s with member := s.member.drop, destroyed := true }

/-- **Inversion of a step**. -/
theorem moves_of_step {l : OwnersLabel T} {s t : TcpOwners T} (h : step l s = some t) :
    s.fatal = false ∧ Moves s l t := by
  unfold step at h
  by_cases hended : s.fatal = true ∨ s.conn.fatal ≠ none ∨ s.useCount = 0
  · rw [if_pos hended] at h
    cases h
  rw [if_neg hended] at h
  rw [not_or] at hended
  refine ⟨by simpa using hended.1, ?_⟩
  cases l with
  | conn l =>
    dsimp only at h
    split_ifs at h with hw
    obtain ⟨c, hc, rfl⟩ := Option.map_eq_some_iff.mp h
    exact .conn (by simpa using hw) hc
  | submitted w =>
    dsimp only at h
    split_ifs at h
    obtain rfl := Option.some.inj h
    exact .submitted
  | handler =>
    dsimp only at h
    split_ifs at h
    exact .handler (handled_of_step h)
  | countDown =>
    dsimp only at h
    split_ifs at h with hguard
    obtain ⟨hwork, hidle, -, hlatch⟩ := hguard
    obtain rfl := Option.some.inj h
    exact .countDown hwork hidle hlatch
  | finish =>
    dsimp only at h
    split_ifs at h with hguard
    obtain ⟨-, -, -, hlatch, -⟩ := hguard
    obtain rfl := Option.some.inj h
    exact .finish hlatch
  | starter => exact .starter (started_of_step h)
  | close u =>
    dsimp only at h
    by_cases hbusy : s.closing u ≠ .idle ∨ s.destroyed = true
    · rw [if_pos hbusy] at h
      cases h
    rw [if_neg hbusy] at h
    cases hside : s.side with
    | server =>
      simp only [hside] at h
      obtain rfl := Option.some.inj h
      rw [← hside]
      exact .close s.state_ _
    | client =>
      simp only [hside] at h
      rw [← hside] at h
      by_cases hstate : s.state_ = .kConnected
      · rw [if_pos hstate] at h
        obtain rfl := Option.some.inj h
        exact .close _ s.closing
      · rw [if_neg hstate] at h
        obtain rfl := Option.some.inj h
        exact .close s.state_ _
  | next u =>
    dsimp only at h
    split_ifs at h
    exact .next (closed_of_step h)
  | getConnection =>
    dsimp only at h
    split_ifs at h with hguard
    obtain rfl := Option.some.inj h
    exact .getConnection hguard.1
  | drop =>
    dsimp only at h
    split_ifs at h with hcopies
    obtain rfl := Option.some.inj h
    exact .drop hcopies
  | destroy =>
    dsimp only at h
    split_ifs at h with hguard
    obtain rfl := Option.some.inj h
    exact .destroy hguard.1

/-- What a step of the connection does not change. -/
theorem observe_frame (s : TcpOwners T) (c : TcpConnection T) (l : TcpLabel T) :
    ∃ queued work closures forceClose pc, s.observe c l =
      { s with
        conn := c
        queued := queued
        work := work
        closures := closures
        forceClose := forceClose
        onClose := pc } := by
  cases l with
  | act w env =>
    simp only [observe]
    split
    · exact ⟨_, _, _, _, _, rfl⟩
    · exact ⟨_, _, _, _, _, rfl⟩
    · split_ifs <;> exact ⟨_, _, _, _, _, rfl⟩
    · exact ⟨_, _, _, _, _, rfl⟩
    · exact ⟨_, _, _, _, _, rfl⟩
    · exact ⟨_, _, _, _, _, rfl⟩
  | _ => exact ⟨_, _, _, _, _, rfl⟩

/-! ### The assertion -/

omit [DecidableEq T] in
/-- No closure that captures the connection is queued or about to be, and `OnClose` is not erasing
the connection. -/
structure Undisturbed (s : TcpOwners T) : Prop where
  queued : true ∉ s.queued
  closures : s.closures = []
  onClose : s.onClose ≠ .erase ∧ s.onClose ≠ .release

omit [DecidableEq T] in
/-- Besides, the loop has destroyed the task of `Start`, and executes no other such closure. -/
structure Unshared (s : TcpOwners T) : Prop extends Undisturbed s where
  work : s.work ≠ some true

/-- When the assertion is evaluated, the connection is in `conns_` and unshared; or it is not in
`conns_`, and one closure that captures it is alive. -/
def Settled : OwnersLabel T → TcpOwners T → Prop
  | .starter, s => s.starter = .check →
      s.member = .present ∧ Unshared s ∨ s.member ≠ .present ∧ s.callbacks + s.temporaries = 1
  | _, _ => True

omit [DecidableEq T] in
/-- The assertion is not evaluated. -/
theorem settled_of_ne {s : TcpOwners T} (h : s.starter ≠ .check) : Settled .starter s :=
  fun hcheck => absurd hcheck h

omit [DecidableEq T] in
theorem unshared_iff (s : TcpOwners T) : Unshared s ↔ s.callbacks + s.temporaries = 0 := by
  constructor
  · intro h
    have hcallbacks : s.callbacks = 0 := by
      unfold callbacks
      rw [List.count_eq_zero.mpr h.queued, if_neg h.work, h.closures]
      rfl
    have htemporaries : s.temporaries = 0 := if_neg (not_or.mpr h.onClose)
    omega
  · intro h
    unfold callbacks temporaries at h
    have hqueued : s.queued.count true = 0 := by omega
    have hclosures : s.closures.length = 0 := by omega
    refine ⟨⟨List.count_eq_zero.mp hqueued, List.length_eq_zero_iff.mp hclosures, ?_⟩, fun hwork => ?_⟩
    · rw [← not_or]
      intro hpc
      rw [if_pos hpc] at h
      omega
    · rw [if_pos hwork] at h
      omega

omit [DecidableEq T] in
/-- Undisturbed, the connection has one owner more or less by the order of two steps. -/
theorem settled_iff_of_undisturbed {s : TcpOwners T} (hcheck : s.starter = .check)
    (h : Undisturbed s) : Settled .starter s ↔ (s.work ≠ some true ↔ s.member = .present) := by
  have hone : s.callbacks + s.temporaries = if s.work = some true then 1 else 0 := by
    unfold callbacks temporaries
    rw [List.count_eq_zero.mpr h.queued, h.closures, if_neg (not_or.mpr h.onClose)]
    simp
  have hunshared : Unshared s ↔ s.work ≠ some true := ⟨fun hu => hu.work, fun hwork => ⟨h, hwork⟩⟩
  unfold Settled
  dsimp only
  rw [hone, hunshared]
  by_cases hwork : s.work = some true <;> by_cases hmember : s.member = .present <;>
    simp [hcheck, hwork, hmember]

/-- In the accept callback of a server. -/
structure Accepting (s : TcpOwners T) : Prop where
  side : s.side = .server
  copies : s.copies = 0

section Step

variable {l : OwnersLabel T} {s t : TcpOwners T}

theorem accepting_step (hs : Accepting s) (h : step l s = some t) : Accepting t := by
  obtain ⟨-, hmoves⟩ := moves_of_step h
  cases hmoves with
  | @conn l c =>
    obtain ⟨_, _, _, _, _, hframe⟩ := observe_frame s c l
    rw [hframe]
    exact ⟨hs.side, hs.copies⟩
  | handler hhandled => cases hhandled <;> exact ⟨hs.side, hs.copies⟩
  | starter hstarted => cases hstarted <;> exact ⟨hs.side, hs.copies⟩
  | next hclosed => cases hclosed <;> exact ⟨hs.side, hs.copies⟩
  | getConnection hside => exact absurd (hs.side.symm.trans hside) (by decide)
  | drop hcopies =>
    have hnone := hs.copies
    omega
  | destroy hside => exact absurd (hs.side.symm.trans hside) (by decide)
  | submitted | countDown | finish | close => exact ⟨hs.side, hs.copies⟩

omit [DecidableEq T] in
/-- The owners when the assertion is evaluated. -/
theorem useCount_check (hs : Accepting s) (hpc : s.starter = .check) :
    s.useCount = 1 + (if s.member = .present then 1 else 0) + (s.callbacks + s.temporaries) := by
  have hstarter : s.starterOwners = 1 := by
    unfold starterOwners
    rw [hs.side, hpc]
    rfl
  unfold useCount
  rw [hstarter, hs.copies]
  omega

omit [DecidableEq T] in
theorem useCount_eq_two_iff (hs : Accepting s) (hpc : s.starter = .check) :
    s.useCount = 2 ↔
      s.member = .present ∧ Unshared s ∨ s.member ≠ .present ∧ s.callbacks + s.temporaries = 1 := by
  rw [useCount_check hs hpc, unshared_iff]
  by_cases hmember : s.member = .present
  · rw [if_pos hmember]
    constructor
    · intro hcount
      exact Or.inl ⟨hmember, by omega⟩
    · rintro (⟨-, hnone⟩ | ⟨hne, -⟩)
      · omega
      · exact absurd hmember hne
  · rw [if_neg hmember]
    constructor
    · intro hcount
      exact Or.inr ⟨hmember, by omega⟩
    · rintro (⟨hpresent, -⟩ | ⟨-, hone⟩)
      · exact absurd hpresent hmember
      · omega

/-- **One step**: only the assertion can fail. -/
theorem fatal_step_iff (hs : Accepting s) (h : step l s = some t) :
    t.fatal = false ↔ Settled l s := by
  obtain ⟨hfatal, hmoves⟩ := moves_of_step h
  cases hmoves with
  | @conn l c =>
    obtain ⟨_, _, _, _, _, hframe⟩ := observe_frame s c l
    rw [hframe]
    exact iff_of_true hfatal trivial
  | handler hhandled => cases hhandled <;> exact iff_of_true hfatal trivial
  | next hclosed => cases hclosed <;> exact iff_of_true hfatal trivial
  | starter hstarted =>
    cases hstarted with
    | passed hpc hcount =>
      exact iff_of_true hfatal fun _ => (useCount_eq_two_iff hs hpc).mp hcount
    | failed hpc hcount =>
      refine iff_of_false Bool.noConfusion fun hsettled => hcount ?_
      exact (useCount_eq_two_iff hs hpc).mpr (hsettled hpc)
    | addChannel hpc => exact iff_of_true hfatal (settled_of_ne (by simp [hpc]))
    | await hpc => exact iff_of_true hfatal (settled_of_ne (by simp [hpc]))
    | scope hpc => exact iff_of_true hfatal (settled_of_ne (by simp [hpc]))
  | submitted | countDown | finish | close | getConnection | drop | destroy =>
    exact iff_of_true hfatal trivial

end Step

/-- **The exact condition**: the assertion holds along a schedule if and only if, when it is
evaluated, the connection is in `conns_` and unshared, or it is not and one closure is alive.  Where
nothing but the task of `Start` captures the connection, the loop's round has to end before the
assertion if the connection is still in `conns_`, and after it if the connection has been
removed. -/
theorem assertion_iff (onLoop : Bool) (addr : Nat) (cells : Nat → UInt8)
    (ls : List (OwnersLabel T)) :
    ((tcpOwners T).AllStates (fun s => s.fatal = false) ls (start .server onLoop addr cells) ↔
      (tcpOwners T).AllSteps Settled ls (start .server onLoop addr cells)) ∧
    ∀ s : TcpOwners T, s.starter = .check → Undisturbed s →
      (Settled .starter s ↔ (s.work ≠ some true ↔ s.member = .present)) := by
  refine ⟨?_, fun s => settled_iff_of_undisturbed⟩
  refine System.allStates_iff_allSteps (I := Accepting) (fun l s t hs _ h _ => ?_)
    (fun l s t hs _ h => ?_) ls ⟨rfl, rfl⟩ rfl
  · exact accepting_step hs h
  · exact fatal_step_iff hs h

/-- The loop's thread runs the task of `Start` up to `latch.CountDown()`. -/
def connected : List (OwnersLabel Unit) :=
  [.conn .task, .conn (.act none quiet), .conn (.act none quiet), .conn (.act none quiet), .handler,
    .conn (.act none quiet), .conn (.act none quiet), .countDown]

/-- `Start` returns before the loop has destroyed its task. -/
theorem startTask_alive_assertion_fails : ¬ (tcpOwners Unit).AllStates (fun s => s.fatal = false)
    (connected ++ [.starter, .starter, .starter]) (start .server false 0 fun _ => 0) := by
  have hrun : ∃ t, (tcpOwners Unit).run (connected ++ [.starter, .starter, .starter])
      (start .server false 0 fun _ => 0) = some t ∧ t.fatal = true := ⟨_, rfl, rfl⟩
  obtain ⟨t, ht, hfatal⟩ := hrun
  intro h
  have hnot := h.last ht
  rw [hfatal] at hnot
  cases hnot

end TcpOwners

end Lizlib
