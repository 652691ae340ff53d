import Lizlib.Net.TcpServer
import Lizlib.Net.Equiv.Introduction

/-!
# The steps of a server

`Moves` lists the steps of the system.  Every connection of a server is a connection as it is on its
own (`component_of_reachable`), so what is known of one holds here; and `mu_` has one owner
(`mutex_step`).
-/

namespace Lizlib

namespace TcpServer

open Function (update)
open TcpConnection (Phase Awaiting Greeting Opened)

variable {C T : Type*} [DecidableEq C] [DecidableEq T]

/-! ### Steps -/

omit [DecidableEq C] [DecidableEq T] in
/-- The wrapper's part of `OnConnect` or of `OnClose` comes next, or is in progress. -/
def Wrapping (x : TcpConnection T) : Prop :=
  (x.stack none).head? = some (.setReadable true) ∨ (x.stack none).head? = some .clearConn

/-- One step from `s`, by its label. -/
inductive Moves (s : TcpServer C T) : ServerLabel C T → TcpServer C T → Prop
  | accept {c : C} {addr : Nat} {cells : Nat → UInt8} (haccepting : s.accepting = none)
      (hnone : s.conn c = none) :
      Moves s (.accept c addr cells) { s with
        conn := update s.conn c (some (.start addr cells))
        accepting := some c
        latch := update s.latch c 1
        late := update s.late c s.removed }
  | accepted {c : C} (haccepting : s.accepting = some c) (hlatch : s.latch c = 0) :
      Moves s .accepted { s with accepting := none }
  | conn {c : C} {x y : TcpConnection T} {l : TcpLabel T} (hx : s.conn c = some x)
      (hwaits : s.waits c x l = false) (hy : x.step l = some y) :
      Moves s (.conn c l)
        { s.setConn c y with wrapper := update s.wrapper c (s.wrapperAfter c x l) }
  | countDown {c : C} {x : TcpConnection T} (hx : s.conn c = some x)
      (hqueue : x.queue.head? ≠ some .start) (hidle : x.stack none = []) :
      Moves s (.countDown c) { s with latch := update s.latch c (s.latch c - 1) }
  | enter {c : C} {x : TcpConnection T} (hx : s.conn c = some x) (hhead : Wrapping x)
      (hpc : s.wrapper c = .custom) (hmu : s.mu_ = none) :
      Moves s (.wrapper c)
        { s with mu_ := some (.inl c), wrapper := update s.wrapper c .locked }
  | null {c : C} : Moves s (.wrapper c) { s with fatal := true }
  | emplace {c : C} {x : TcpConnection T} (hx : s.conn c = some x)
      (hhead : (x.stack none).head? = some (.setReadable true)) (hpc : s.wrapper c = .locked)
      (hconn : x.conn_ = true) :
      Moves s (.wrapper c)
        { s with conns_ := insert c s.conns_, wrapper := update s.wrapper c .changed }
  | erase {c : C} {x : TcpConnection T} (hx : s.conn c = some x)
      (hhead : (x.stack none).head? = some .clearConn) (hpc : s.wrapper c = .locked) :
      Moves s (.wrapper c)
        { s with conns_ := s.conns_.erase c, wrapper := update s.wrapper c .changed }
  | leave {c : C} {x : TcpConnection T} (hx : s.conn c = some x) (hhead : Wrapping x)
      (hpc : s.wrapper c = .changed) :
      Moves s (.wrapper c) { s with mu_ := none, wrapper := update s.wrapper c .returned }
  | stall {c : C} : Moves s (.stall c) { s with stalled := update s.stalled c true }
  | stored {c : C} : Moves s (.stored c) { s with stalled := update s.stalled c false }
  | close {t : T} (hpc : s.closing t = .idle) :
      Moves s (.close t) { s with closing := update s.closing t .acceptor }
  | remove {t : T} {under : Bool} (hpc : s.closing t = .acceptor)
      (hloop : under = true ∨ s.accepting = none) :
      Moves s (.remove t under)
        { s with
          removed := true
          late := fun c => s.late c || s.accepting = some c
          closing := update s.closing t .await }
  | await {t : T} (hpc : s.closing t = .await) :
      Moves s (.next t) { s with closing := update s.closing t .lock }
  | lock {t : T} (hpc : s.closing t = .lock) (hmu : s.mu_ = none) :
      Moves s (.next t)
        { s with mu_ := some (.inr t), closing := update s.closing t (.each s.conns_) }
  | each {t : T} {c : C} {left : Finset C} {x y : TcpConnection T} (hx : s.conn c = some x)
      (hpc : s.closing t = .each left) (hmem : c ∈ left) (hy : x.step (.call t .close) = some y) :
      Moves s (.each t c)
        { s.setConn c y with closing := update s.closing t (.close c (left.erase c)) }
  | back {t : T} {c : C} {left : Finset C} {x : TcpConnection T} (hx : s.conn c = some x)
      (hpc : s.closing t = .close c left) (hidle : x.stack (some t) = []) :
      Moves s (.next t) { s with closing := update s.closing t (.each left) }
  | clear {t : T} (hpc : s.closing t = .each ∅) :
      Moves s (.next t) { s with conns_ := ∅, closing := update s.closing t .unlock }
  | unlock {t : T} (hpc : s.closing t = .unlock) :
      Moves s (.next t)
        { s with mu_ := none, closed := true, closing := update s.closing t .idle }

/-- The steps of the wrapper. -/
theorem moves_of_wrapperStep {s t : TcpServer C T} {c : C} {x : TcpConnection T}
    (hx : s.conn c = some x) (h : s.wrapperStep c x = some t) : Moves s (.wrapper c) t := by
  unfold wrapperStep wrap at h
  cases hpc : s.wrapper c with
  | custom =>
    simp only [hpc] at h
    split at h
    · rename_i hhead
      split_ifs at h with hmu
      exact Option.some.inj h ▸ .enter hx (.inl hhead) hpc hmu
    · rename_i hhead
      split_ifs at h with hmu
      exact Option.some.inj h ▸ .enter hx (.inr hhead) hpc hmu
    · cases h
  | locked =>
    simp only [hpc] at h
    split at h
    · rename_i hhead
      split_ifs at h with hconn
      · exact Option.some.inj h ▸ .emplace hx hhead hpc hconn
      · exact Option.some.inj h ▸ .null
    · rename_i hhead
      split_ifs at h with hconn
      · exact Option.some.inj h ▸ .erase hx hhead hpc
      · exact Option.some.inj h ▸ .null
    · cases h
  | changed =>
    simp only [hpc] at h
    split at h
    · rename_i hhead
      exact Option.some.inj h ▸ .leave hx (.inl hhead) hpc
    · rename_i hhead
      exact Option.some.inj h ▸ .leave hx (.inr hhead) hpc
    · cases h
  | returned =>
    simp only [hpc] at h
    split at h <;> cases h

/-- **Inversion of a step**. -/
theorem moves_of_step {l : ServerLabel C T} {s t : TcpServer C T} (h : step l s = some t) :
    s.fatal = false ∧ Moves s l t := by
  unfold step at h
  split_ifs at h with hfatal
  refine ⟨by simpa using hfatal, ?_⟩
  cases l with
  | accept c addr cells =>
    simp only [Option.ite_none_right_eq_some, Option.some.injEq] at h
    obtain ⟨⟨haccepting, hnone⟩, rfl⟩ := h
    exact .accept haccepting (Option.isNone_iff_eq_none.mp hnone)
  | accepted =>
    dsimp only at h
    split at h
    · rename_i c haccepting
      split_ifs at h with hlatch
      exact Option.some.inj h ▸ .accepted haccepting hlatch
    · cases h
  | conn c l =>
    obtain ⟨x, hx, h⟩ := Option.bind_eq_some_iff.mp h
    unfold connStep at h
    split_ifs at h with hwaits
    obtain ⟨y, hy, rfl⟩ := Option.map_eq_some_iff.mp h
    exact .conn hx (by simpa using hwaits) hy
  | countDown c =>
    dsimp only at h
    split at h
    · rename_i x hx
      split_ifs at h with hc
      exact Option.some.inj h ▸ .countDown hx hc.1 hc.2.1
    · cases h
  | wrapper c =>
    obtain ⟨x, hx, h⟩ := Option.bind_eq_some_iff.mp h
    exact moves_of_wrapperStep hx h
  | stall c => exact Option.some.inj h ▸ .stall
  | stored c => exact Option.some.inj h ▸ .stored
  | close t =>
    dsimp only at h
    split_ifs at h with hpc
    exact Option.some.inj h ▸ .close hpc
  | remove t under =>
    dsimp only [removeStep] at h
    split at h
    · rename_i hpc
      split_ifs at h with hloop
      exact Option.some.inj h ▸ .remove hpc hloop
    · cases h
  | next t =>
    dsimp only [nextStep] at h
    split at h
    · cases h
    · cases h
    · rename_i hpc
      exact Option.some.inj h ▸ .await hpc
    · rename_i hpc
      split_ifs at h with hmu
      exact Option.some.inj h ▸ .lock hpc hmu
    · rename_i left hpc
      split_ifs at h with hleft
      subst hleft
      exact Option.some.inj h ▸ .clear hpc
    · rename_i c left hpc
      split at h
      · rename_i x hx
        split_ifs at h with hidle
        exact Option.some.inj h ▸ .back hx hpc hidle
      · cases h
    · rename_i hpc
      exact Option.some.inj h ▸ .unlock hpc
  | each t c =>
    dsimp only [eachStep] at h
    split at h
    · rename_i left x hpc hx
      split_ifs at h with hmem
      obtain ⟨y, hy, rfl⟩ := Option.map_eq_some_iff.mp h
      exact .each hx hpc hmem hy
    · cases h

/-! ### The connections -/

section Components

variable {s t : TcpServer C T} {l : ServerLabel C T}

omit [DecidableEq T] in
theorem conn_update {c d : C} {y z : TcpConnection T} (h : update s.conn c (some y) d = some z) :
    d = c ∧ z = y ∨ d ≠ c ∧ s.conn d = some z := by
  by_cases hd : d = c
  · rw [hd, Function.update_self, Option.some.injEq] at h
    exact .inl ⟨hd, h.symm⟩
  · rw [Function.update_of_ne hd] at h
    exact .inr ⟨hd, h⟩

/-- Every connection is one that can be reached on its own, and none has ended the process. -/
structure Components (s : TcpServer C T) : Prop where
  reachable : ∀ c x, s.conn c = some x → (tcpConnection T).Reachable x
  fatal : s.fatal = false → ∀ c x, s.conn c = some x → x.fatal = none

omit [DecidableEq C] in
theorem components_start : Components (start : TcpServer C T) := by
  constructor <;> simp [start]

/-- A step of one connection. -/
theorem Components.set {c : C} {x y : TcpConnection T} {lab : TcpLabel T} (hs : Components s)
    (hx : s.conn c = some x) (hy : x.step lab = some y) (hconn : t.conn = (s.setConn c y).conn)
    (hfatal : t.fatal = (s.setConn c y).fatal) : Components t := by
  constructor
  · intro d z hz
    rw [hconn] at hz
    rcases conn_update hz with ⟨-, rfl⟩ | ⟨-, hz⟩
    · exact .step (hs.reachable c x hx) trivial hy
    · exact hs.reachable d z hz
  · intro hf d z hz
    rw [hfatal, setConn, Bool.or_eq_false_iff] at hf
    rw [hconn] at hz
    rcases conn_update hz with ⟨-, rfl⟩ | ⟨-, hz⟩
    · simpa using hf.2
    · exact hs.fatal hf.1 d z hz

theorem components_step (hs : Components s) (h : step l s = some t) : Components t := by
  obtain ⟨-, hmoves⟩ := moves_of_step h
  cases hmoves with
  | accept =>
    constructor
    · intro d z hz
      rcases conn_update hz with ⟨-, rfl⟩ | ⟨-, hz⟩
      · exact .init ⟨_, _, rfl⟩
      · exact hs.reachable d z hz
    · intro hf d z hz
      rcases conn_update hz with ⟨-, rfl⟩ | ⟨-, hz⟩
      · rfl
      · exact hs.fatal hf d z hz
  | conn hx _ hy => exact hs.set hx hy rfl rfl
  | each hx _ _ hy => exact hs.set hx hy rfl rfl
  | null => exact ⟨hs.reachable, fun hf => by cases hf⟩
  | _ => exact ⟨hs.reachable, hs.fatal⟩

/-- **Each connection on its own**: what holds of every reachable connection holds of the
connections of a server. -/
theorem component_of_reachable (hs : (tcpServer C T).Reachable s) {c : C} {x : TcpConnection T}
    (hx : s.conn c = some x) : (tcpConnection T).Reachable x := by
  have hcomponents : Components s := by
    refine hs.invariant (I := Components) ?_ fun l s t hs _ ht => components_step hs ht
    rintro s rfl
    exact components_start
  exact hcomponents.reachable c x hx

end Components

/-! ### The mutex -/

/-- A thread in `Close` has `mu_`. -/
def Holds : ServerClosePc C → Prop
  | .each _ | .close _ _ | .unlock => True
  | .idle | .acceptor | .await | .lock => False

/-- Who is between the lock and the unlock has `mu_`. -/
structure Mutex (s : TcpServer C T) : Prop where
  loop : ∀ c, s.mu_ = some (.inl c) ↔ s.wrapper c = .locked ∨ s.wrapper c = .changed
  thread : ∀ t, s.mu_ = some (.inr t) ↔ Holds (s.closing t)

omit [DecidableEq C] [DecidableEq T] in
theorem mutex_start : Mutex (start : TcpServer C T) := by
  constructor <;> simp [start, Holds]

/-- The loop's thread goes on once the wrapper has returned, and the next callback begins. -/
theorem wrapperAfter_cases {s : TcpServer C T} {c : C} {x : TcpConnection T} {l : TcpLabel T}
    (hwaits : s.waits c x l = false) :
    (s.wrapperAfter c x l = s.wrapper c ∧ ∀ env, l = .act none env → ¬ Wrapping x) ∨
      s.wrapper c = .returned ∧ s.wrapperAfter c x l = .custom ∧ Wrapping x ∧
        ∃ env, l = .act none env := by
  cases l with
  | act w env =>
    cases w with
    | some t => exact .inl ⟨rfl, fun _ h => by cases h⟩
    | none =>
      unfold waits at hwaits
      unfold wrapperAfter Wrapping
      dsimp only at hwaits ⊢
      cases hhead : (x.stack none).head? with
      | none => exact .inl ⟨rfl, fun _ _ h => by simp at h⟩
      | some a =>
        rw [hhead] at hwaits
        by_cases hreadable : a = .setReadable true
        · subst hreadable
          exact .inr ⟨by simpa using hwaits, rfl, .inl rfl, env, rfl⟩
        by_cases hclear : a = .clearConn
        · subst hclear
          exact .inr ⟨by simpa using hwaits, rfl, .inr rfl, env, rfl⟩
        refine .inl ⟨?_, fun _ _ h => ?_⟩
        · split
          · rename_i h
            exact absurd (Option.some.inj h) hreadable
          · rename_i h
            exact absurd (Option.some.inj h) hclear
          · rfl
        · rcases h with h | h
          · exact hreadable (Option.some.inj h)
          · exact hclear (Option.some.inj h)
  | _ => exact .inl ⟨rfl, fun _ h => by cases h⟩

section Mutex

variable {s t : TcpServer C T} {l : ServerLabel C T} (hs : Mutex s)

include hs

omit [DecidableEq C] in
/-- A thread goes on in `Close`, and `mu_` stays with whom it is. -/
theorem Mutex.goto {u : T} {pc : ServerClosePc C} (hpc : Holds pc ↔ Holds (s.closing u))
    (hmu : t.mu_ = s.mu_) (hwrapper : t.wrapper = s.wrapper)
    (hclosing : t.closing = update s.closing u pc) : Mutex t := by
  constructor
  · rw [hmu, hwrapper]
    exact hs.loop
  · intro v
    rw [hmu, hclosing, hs.thread]
    by_cases hv : v = u
    · rw [hv, Function.update_self, hpc]
    · rw [Function.update_of_ne hv]

omit [DecidableEq T] in
/-- The wrapper of a connection goes on. -/
theorem Mutex.wrap {c : C} {pc : WrapperPc}
    (hpc : pc = .locked ∨ pc = .changed ↔ s.wrapper c = .locked ∨ s.wrapper c = .changed)
    (hmu : t.mu_ = s.mu_) (hclosing : t.closing = s.closing)
    (hwrapper : t.wrapper = update s.wrapper c pc) : Mutex t := by
  constructor
  · intro d
    rw [hmu, hwrapper, hs.loop]
    by_cases hd : d = c
    · rw [hd, Function.update_self, hpc]
    · rw [Function.update_of_ne hd]
  · rw [hmu, hclosing]
    exact hs.thread

/-- **One owner**: who does not have `mu_` neither takes it from somebody nor gives it back. -/
theorem mutex_step (h : step l s = some t) : Mutex t := by
  obtain ⟨-, hmoves⟩ := moves_of_step h
  cases hmoves with
  | conn _ hwaits =>
    rcases wrapperAfter_cases hwaits with ⟨heq, -⟩ | ⟨hpc, heq, -⟩
    · exact hs.wrap (by rw [heq]) rfl rfl rfl
    · exact hs.wrap (by simp [heq, hpc]) rfl rfl rfl
  | @enter c x hx hhead hpc hmu =>
    constructor
    · intro d
      by_cases hd : d = c
      · simp [hd]
      · have hfree := (hs.loop d).not.mp (by simp [hmu])
        simp [Function.update_of_ne hd, hfree, Ne.symm hd]
    · intro u
      have hfree := (hs.thread u).not.mp (by simp [hmu])
      simpa using hfree
  | emplace _ _ hpc => exact hs.wrap (by simp [hpc]) rfl rfl rfl
  | erase _ _ hpc => exact hs.wrap (by simp [hpc]) rfl rfl rfl
  | @leave c x hx hhead hpc =>
    have hmu := (hs.loop c).mpr (.inr hpc)
    constructor
    · intro d
      by_cases hd : d = c
      · simp [hd]
      · have hfree := (hs.loop d).not.mp (by simp [hmu, Ne.symm hd])
        simp [Function.update_of_ne hd, hfree]
    · intro u
      have hfree := (hs.thread u).not.mp (by simp [hmu])
      simpa using hfree
  | close hpc => exact hs.goto (by simp [hpc, Holds]) rfl rfl rfl
  | remove hpc => exact hs.goto (by simp [hpc, Holds]) rfl rfl rfl
  | await hpc => exact hs.goto (by simp [hpc, Holds]) rfl rfl rfl
  | @lock u hpc hmu =>
    constructor
    · intro d
      have hfree := (hs.loop d).not.mp (by simp [hmu])
      simpa using hfree
    · intro v
      by_cases hv : v = u
      · simp [hv, Holds]
      · have hfree := (hs.thread v).not.mp (by simp [hmu])
        simp [Function.update_of_ne hv, hfree, Ne.symm hv]
  | each _ hpc => exact hs.goto (by simp [hpc, Holds]) rfl rfl rfl
  | back _ hpc => exact hs.goto (by simp [hpc, Holds]) rfl rfl rfl
  | clear hpc => exact hs.goto (by simp [hpc, Holds]) rfl rfl rfl
  | @unlock u hpc =>
    have hmu := (hs.thread u).mpr (by simp [hpc, Holds])
    constructor
    · intro d
      have hfree := (hs.loop d).not.mp (by simp [hmu])
      simpa using hfree
    · intro v
      by_cases hv : v = u
      · simp [hv, Holds]
      · have hfree := (hs.thread v).not.mp (by simp [hmu, Ne.symm hv])
        simp [Function.update_of_ne hv, hfree]
  | _ => exact ⟨hs.loop, hs.thread⟩

end Mutex

end TcpServer

end Lizlib
