import Lizlib.Net.Equiv.TcpServer

/-!
# The registry of a server

* `registry`: `conns_` has every connection that is connected, as soon as its `OnConnect` has
  returned, and no connection whose `OnClose` has returned.
* `closed_of_close`: once `Close` has returned, no connection whose `Start` had returned when the
  acceptor's channel was removed is connected any more.

`Registry` says what `conns_` has and lacks, `Latched` which connections have been introduced, and
`Swept` what the loop of `Close` has been through.
-/

namespace Lizlib

namespace TcpServer

open Function (update)
open TcpConnection (Phase Awaiting Greeting Opened)

variable {C T : Type*} [DecidableEq C] [DecidableEq T]

/-! ### The registry -/

/-- What `conns_` has, and what it lacks. -/
structure Registry (s : TcpServer C T) : Prop where
  wrapping : ∀ c, s.wrapper c ≠ .custom → ∃ x, s.conn c = some x ∧ Wrapping x
  erased : ∀ c x, s.conn c = some x → (x.stack none).head? = some .clearConn →
    s.wrapper c = .changed ∨ s.wrapper c = .returned → c ∉ s.conns_
  member : ∀ c ∈ s.conns_, ∃ x, s.conn c = some x ∧ Opened x ∧ x.conn_ = true ∧ ¬ Awaiting x
  registered : ∀ c x, s.conn c = some x → x.state_ = .kConnected →
    c ∈ s.conns_ ∨ Greeting x ∧ (s.wrapper c = .custom ∨ s.wrapper c = .locked)

omit [DecidableEq C] [DecidableEq T] in
theorem registry_start : Registry (start : TcpServer C T) := by
  constructor <;> simp [start]

omit [DecidableEq C] in
/-- While the wrapper is at work, nothing but the loop's own thread changes its stack. -/
theorem stack_of_wrapping {x y : TcpConnection T} {l : TcpLabel T} (hx : Wrapping x)
    (hl : ∀ env, l ≠ .act none env) (hy : x.step l = some y) : y.stack none = x.stack none := by
  obtain ⟨-, hmoves⟩ := TcpConnection.moves_of_step hy
  cases hmoves with
  | @call u api hidle =>
    show update x.stack (some u) [.call api] none = x.stack none
    exact Function.update_of_ne (Option.some_ne_none u).symm _ _
  | @act w env a rest hw =>
    refine Function.update_of_ne ?_ _ _
    rintro rfl
    exact hl env rfl
  | task hidle => simp [Wrapping, hidle] at hx
  | _ => rfl

section Registry

variable {s t : TcpServer C T} {l : ServerLabel C T} (hs : Registry s)

include hs

omit [DecidableEq C] [DecidableEq T] in
theorem Registry.wrapping_conn {c : C} {x : TcpConnection T} (hx : s.conn c = some x)
    (hpc : s.wrapper c ≠ .custom) : Wrapping x := by
  obtain ⟨z, hz, hwrapping⟩ := hs.wrapping c hpc
  rwa [Option.some.inj (hx.symm.trans hz)]

/-- **A step of one connection**. -/
theorem Registry.set {c : C} {x y : TcpConnection T} {lab : TcpLabel T} {pc : WrapperPc}
    (hreach : (tcpConnection T).Reachable x) (hx : s.conn c = some x) (hy : x.step lab = some y)
    (hcases : (pc = s.wrapper c ∧ ∀ env, lab = .act none env → ¬ Wrapping x) ∨
      s.wrapper c = .returned ∧ pc = .custom ∧ Wrapping x ∧ ∃ env, lab = .act none env)
    (hconn : t.conn = update s.conn c (some y)) (hconns : t.conns_ = s.conns_)
    (hwrapper : t.wrapper = update s.wrapper c pc) : Registry t := by
  obtain ⟨hshaped, hphase⟩ := TcpConnection.introduced_of_reachable hreach
  have hadvance := TcpConnection.advance_step hshaped hphase hy
  have hself : t.wrapper c = pc := by rw [hwrapper, Function.update_self]
  have hother : ∀ d, d ≠ c → t.wrapper d = s.wrapper d ∧ t.conn d = s.conn d := by
    intro d hd
    rw [hwrapper, hconn, Function.update_of_ne hd, Function.update_of_ne hd]
    exact ⟨rfl, rfl⟩
  -- a wrapper that is at work stays where it is, and so does the stack
  have hwork : pc ≠ .custom → pc = s.wrapper c ∧ Wrapping x ∧ y.stack none = x.stack none := by
    intro hpc
    obtain ⟨heq, hno⟩ := hcases.resolve_right fun h => hpc h.2.1
    have hwrapping := hs.wrapping_conn hx (heq ▸ hpc)
    exact ⟨heq, hwrapping,
      stack_of_wrapping hwrapping (fun env hl => hno env hl hwrapping) hy⟩
  refine ⟨fun d hd => ?_, fun d z hz hhead hpc => ?_, fun d hd => ?_, fun d z hz hconnected => ?_⟩
  · by_cases hdc : d = c
    · subst hdc
      rw [hself] at hd
      obtain ⟨-, hwrapping, hstack⟩ := hwork hd
      refine ⟨y, by rw [hconn, Function.update_self], ?_⟩
      rwa [Wrapping, hstack]
    · rw [(hother d hdc).1] at hd
      rw [(hother d hdc).2]
      exact hs.wrapping d hd
  · rw [hconns]
    rw [hconn] at hz
    rcases conn_update hz with ⟨rfl, rfl⟩ | ⟨hdc, hz⟩
    · rw [hself] at hpc
      obtain ⟨heq, -, hstack⟩ := hwork (by rintro rfl; simp at hpc)
      rw [hstack] at hhead
      exact hs.erased d x hx hhead (heq ▸ hpc)
    · rw [(hother d hdc).1] at hpc
      exact hs.erased d z hz hhead hpc
  · rw [hconns] at hd
    obtain ⟨z, hz, hopened, hin, hno⟩ := hs.member d hd
    by_cases hdc : d = c
    · subst hdc
      obtain rfl := Option.some.inj (hx.symm.trans hz)
      refine ⟨y, by rw [hconn, Function.update_self], TcpConnection.opened_step hopened hy, ?_,
        fun ha => hno (hadvance.awaiting ha)⟩
      rcases TcpConnection.conn_of_step hshaped hy with heq | ⟨⟨env, hl⟩, hhead⟩
      · rw [heq, hin]
      · -- the wrapper has erased the connection before
        rcases hcases with ⟨-, hno⟩ | ⟨hpc, -⟩
        · exact absurd (.inr hhead) (hno env hl)
        · exact absurd hd (hs.erased d x hx hhead (.inr hpc))
    · exact ⟨z, (hother d hdc).2.trans hz, hopened, hin, hno⟩
  · rw [hconns]
    rw [hconn] at hz
    rcases conn_update hz with ⟨rfl, rfl⟩ | ⟨hdc, hz⟩
    · rw [hself]
      rcases hadvance.connected hconnected with hx' | ⟨hawaiting, hgreeting⟩
      · refine (hs.registered d x hx hx').imp_right fun ⟨hgreeting, hpc⟩ => ?_
        -- `OnConnect` has not returned
        have heq : pc = s.wrapper d ∧ ∀ env, lab = .act none env → ¬ Wrapping x := by
          refine hcases.resolve_right fun h => ?_
          rw [h.1] at hpc
          simp at hpc
        refine ⟨?_, heq.1 ▸ hpc⟩
        by_contra hno
        obtain ⟨⟨env, hl⟩, hstack⟩ := hadvance.greeted hgreeting hno
        exact heq.2 env hl (.inl (by rw [hstack, List.head?_cons]))
      · refine .inr ⟨hgreeting, .inl ?_⟩
        by_contra hpc
        obtain ⟨-, hwrapping, -⟩ := hwork hpc
        obtain ⟨-, hno, hclear⟩ := hphase.awaiting hawaiting
        exact hwrapping.elim (fun h => hno (List.mem_of_mem_head? h))
          fun h => hclear (List.mem_of_mem_head? h)
    · rw [(hother d hdc).1]
      exact hs.registered d z hz hconnected

omit [DecidableEq T] in
/-- **A step of one wrapper**. -/
theorem Registry.wrap {c : C} {x : TcpConnection T} {pc : WrapperPc} (hx : s.conn c = some x)
    (hhead : Wrapping x) (hconn : t.conn = s.conn) (hwrapper : t.wrapper = update s.wrapper c pc)
    (hmem : ∀ d, d ≠ c → (d ∈ t.conns_ ↔ d ∈ s.conns_))
    (herased : (x.stack none).head? = some .clearConn → pc = .changed ∨ pc = .returned →
      c ∉ t.conns_)
    (hmember : c ∈ t.conns_ → Opened x ∧ x.conn_ = true ∧ ¬ Awaiting x)
    (hregistered : x.state_ = .kConnected →
      c ∈ t.conns_ ∨ Greeting x ∧ (pc = .custom ∨ pc = .locked)) : Registry t := by
  have hself : t.wrapper c = pc := by rw [hwrapper, Function.update_self]
  have hother : ∀ d, d ≠ c → t.wrapper d = s.wrapper d := by
    intro d hd
    rw [hwrapper, Function.update_of_ne hd]
  refine ⟨fun d hd => ?_, fun d z hz hz' hpc => ?_, fun d hd => ?_, fun d z hz hconnected => ?_⟩
  · rw [hconn]
    by_cases hdc : d = c
    · exact ⟨x, hdc ▸ hx, hhead⟩
    · exact hs.wrapping d (hother d hdc ▸ hd)
  · rw [hconn] at hz
    by_cases hdc : d = c
    · subst hdc
      obtain rfl := Option.some.inj (hx.symm.trans hz)
      exact herased hz' (hself ▸ hpc)
    · rw [hmem d hdc]
      exact hs.erased d z hz hz' (hother d hdc ▸ hpc)
  · rw [hconn]
    by_cases hdc : d = c
    · subst hdc
      exact ⟨x, hx, hmember hd⟩
    · exact hs.member d ((hmem d hdc).mp hd)
  · rw [hconn] at hz
    by_cases hdc : d = c
    · subst hdc
      obtain rfl := Option.some.inj (hx.symm.trans hz)
      rw [hself]
      exact hregistered hconnected
    · rw [hmem d hdc, hother d hdc]
      exact hs.registered d z hz hconnected

/-- **One step**; `Close` clears `conns_` when it has been through all of it. -/
theorem registry_step (hcomponents : Components s)
    (hclear : ∀ u, s.closing u = .each ∅ → ∀ c x, s.conn c = some x → c ∈ s.conns_ →
      x.state_ ≠ .kConnected) (h : step l s = some t) : Registry t := by
  obtain ⟨-, hmoves⟩ := moves_of_step h
  cases hmoves with
  | @accept c addr cells _ hnone =>
    have hne : ∀ d x, s.conn d = some x →
        update s.conn c (some (.start addr cells)) d = some x := by
      intro d x hx
      rw [Function.update_of_ne, hx]
      rintro rfl
      cases hnone.symm.trans hx
    refine ⟨fun d hd => ?_, fun d z hz hhead => ?_, fun d hd => ?_, fun d z hz hconnected => ?_⟩
    · obtain ⟨x, hx, hwrapping⟩ := hs.wrapping d hd
      exact ⟨x, hne d x hx, hwrapping⟩
    · rcases conn_update hz with ⟨-, rfl⟩ | ⟨-, hz⟩
      · cases hhead
      · exact hs.erased d z hz hhead
    · obtain ⟨x, hx, hmember⟩ := hs.member d hd
      exact ⟨x, hne d x hx, hmember⟩
    · rcases conn_update hz with ⟨-, rfl⟩ | ⟨-, hz⟩
      · cases hconnected
      · exact hs.registered d z hz hconnected
  | conn hx hwaits hy =>
    exact hs.set (hcomponents.reachable _ _ hx) hx hy (wrapperAfter_cases hwaits) rfl rfl rfl
  | each hx _ _ hy =>
    refine hs.set (hcomponents.reachable _ _ hx) hx hy (.inl ⟨rfl, fun _ h => by cases h⟩) rfl rfl
      (Function.update_eq_self _ _).symm
  | enter hx hhead hpc =>
    refine hs.wrap hx hhead rfl rfl (fun _ _ => Iff.rfl) (fun _ h => by simp at h) (fun hc => ?_)
      fun hconnected => (hs.registered _ _ hx hconnected).imp_right fun h => ⟨h.1, .inr rfl⟩
    obtain ⟨z, hz, hmember⟩ := hs.member _ hc
    rwa [Option.some.inj (hx.symm.trans hz)]
  | @emplace c x hx hhead _ hin =>
    obtain ⟨-, hphase⟩ := TcpConnection.introduced_of_reachable (hcomponents.reachable c x hx)
    have hgreeting : Greeting x := List.mem_of_mem_head? hhead
    refine hs.wrap hx (.inl hhead) rfl rfl (fun d hd => by simp [hd]) (fun h => ?_) (fun _ => ?_)
      fun _ => .inl (Finset.mem_insert_self _ _)
    · cases hhead.symm.trans h
    · exact ⟨(hphase.greeting_head hhead).2, hin, fun ha => (hphase.awaiting ha).2.1 hgreeting⟩
  | @erase c x hx hhead _ =>
    obtain ⟨-, hphase⟩ := TcpConnection.introduced_of_reachable (hcomponents.reachable c x hx)
    refine hs.wrap hx (.inr hhead) rfl rfl (fun d hd => by simp [hd])
      (fun _ _ => Finset.notMem_erase _ _) (fun hc => absurd hc (Finset.notMem_erase _ _))
      fun hconnected => ?_
    exact absurd hconnected (hphase.clear (List.mem_of_mem_head? hhead)).1
  | @leave c x hx hhead hpc =>
    refine hs.wrap hx hhead rfl rfl (fun _ _ => Iff.rfl)
      (fun h _ => hs.erased c x hx h (.inl hpc)) (fun hc => ?_) fun hconnected => .inl ?_
    · obtain ⟨z, hz, hmember⟩ := hs.member _ hc
      rwa [Option.some.inj (hx.symm.trans hz)]
    · refine (hs.registered c x hx hconnected).resolve_right fun h => ?_
      simp [hpc] at h
  | @clear u hpc =>
    refine ⟨hs.wrapping, fun _ _ _ _ _ => Finset.notMem_empty _, fun c hc => ?_,
      fun c x hx hconnected => .inr ?_⟩
    · cases Finset.notMem_empty c hc
    · exact (hs.registered c x hx hconnected).resolve_left fun hc =>
        hclear u hpc c x hx hc hconnected
  | _ => exact ⟨hs.wrapping, hs.erased, hs.member, hs.registered⟩

end Registry

/-! ### The latches -/

/-- `Start` has returned for all connections but the one that is being accepted. -/
structure Latched (s : TcpServer C T) : Prop where
  introduced : ∀ c x, s.conn c = some x → s.latch c = 0 → ¬ Awaiting x ∧ ¬ Greeting x
  accepting : ∀ c x, s.conn c = some x → s.accepting ≠ some c → s.latch c = 0
  late : s.removed = true → ∀ c x, s.conn c = some x → s.late c = false → s.latch c = 0
  past : ∀ t, s.closing t ≠ .idle → s.closing t ≠ .acceptor → s.removed = true
  closed : s.closed = true → s.removed = true

omit [DecidableEq C] [DecidableEq T] in
theorem latched_start : Latched (start : TcpServer C T) := by
  constructor <;> simp [start]

section Latched

variable {s t : TcpServer C T} {l : ServerLabel C T} (hs : Latched s)

include hs

/-- A step of one connection. -/
theorem Latched.set {c : C} {x y : TcpConnection T} {lab : TcpLabel T}
    (hreach : (tcpConnection T).Reachable x) (hx : s.conn c = some x) (hy : x.step lab = some y)
    (hconn : t.conn = update s.conn c (some y)) (hlatch : t.latch = s.latch)
    (haccepting : t.accepting = s.accepting) (hlate : t.late = s.late)
    (hremoved : t.removed = s.removed) (hclosed : t.closed = s.closed)
    (hpast : ∀ u, t.closing u ≠ .idle → t.closing u ≠ .acceptor → s.removed = true) :
    Latched t := by
  obtain ⟨hshaped, hphase⟩ := TcpConnection.introduced_of_reachable hreach
  have hadvance := TcpConnection.advance_step hshaped hphase hy
  have hold : ∀ d z, t.conn d = some z → ∃ z', s.conn d = some z' := by
    intro d z hz
    rw [hconn] at hz
    rcases conn_update hz with ⟨rfl, -⟩ | ⟨-, hz⟩
    · exact ⟨x, hx⟩
    · exact ⟨z, hz⟩
  refine ⟨fun d z hz hzero => ?_, fun d z hz hne => ?_, fun hc d z hz hd => ?_, ?_, ?_⟩
  · rw [hconn] at hz
    rw [hlatch] at hzero
    rcases conn_update hz with ⟨rfl, rfl⟩ | ⟨-, hz⟩
    · obtain ⟨hawaiting, hgreeting⟩ := hs.introduced d x hx hzero
      exact ⟨fun h => hawaiting (hadvance.awaiting h),
        fun h => (hadvance.greeting h).elim hgreeting hawaiting⟩
    · exact hs.introduced d z hz hzero
  · obtain ⟨z', hz'⟩ := hold d z hz
    rw [hlatch]
    exact hs.accepting d z' hz' (haccepting ▸ hne)
  · obtain ⟨z', hz'⟩ := hold d z hz
    rw [hlatch]
    exact hs.late (hremoved ▸ hc) d z' hz' (hlate ▸ hd)
  · rw [hremoved]
    exact hpast
  · rw [hremoved, hclosed]
    exact hs.closed

omit [DecidableEq C] [DecidableEq T] in
theorem Latched.past_of {u : T} {pc : ServerClosePc C} (hpc : s.closing u = pc) (hi : pc ≠ .idle)
    (ha : pc ≠ .acceptor) : s.removed = true :=
  hs.past u (hpc ▸ hi) (hpc ▸ ha)

omit [DecidableEq C] in
theorem Latched.goto {u : T} {pc : ServerClosePc C}
    (hpc : pc ≠ .idle → pc ≠ .acceptor → s.removed = true) :
    ∀ v, update s.closing u pc v ≠ .idle → update s.closing u pc v ≠ .acceptor →
      s.removed = true := by
  intro v
  by_cases hv : v = u
  · rw [hv, Function.update_self]
    exact hpc
  · rw [Function.update_of_ne hv]
    exact hs.past v

theorem latched_step (hcomponents : Components s) (h : step l s = some t) : Latched t := by
  obtain ⟨-, hmoves⟩ := moves_of_step h
  cases hmoves with
  | @accept c addr cells haccepting hnone =>
    refine ⟨fun d z hz hzero => ?_, fun d z hz hne => ?_, fun hc d z hz hd => ?_, hs.past,
      hs.closed⟩
    · rcases conn_update hz with ⟨rfl, -⟩ | ⟨hdc, hz⟩
      · simp at hzero
      · refine hs.introduced d z hz ?_
        simpa [Function.update_of_ne hdc] using hzero
    · rcases conn_update hz with ⟨rfl, -⟩ | ⟨hdc, hz⟩
      · exact absurd rfl hne
      · show update s.latch c 1 d = 0
        rw [Function.update_of_ne hdc]
        exact hs.accepting d z hz (by simp [haccepting])
    · rcases conn_update hz with ⟨rfl, -⟩ | ⟨hdc, hz⟩
      · -- it is a late one
        replace hd : update s.late d s.removed d = false := hd
        rw [Function.update_self] at hd
        cases hd.symm.trans hc
      · replace hd : update s.late c s.removed d = false := hd
        rw [Function.update_of_ne hdc] at hd
        show update s.latch c 1 d = 0
        rw [Function.update_of_ne hdc]
        exact hs.late hc d z hz hd
  | @accepted c haccepting hlatch =>
    refine ⟨hs.introduced, fun d z hz _ => ?_, hs.late, hs.past, hs.closed⟩
    by_cases hdc : d = c
    · exact hdc ▸ hlatch
    · exact hs.accepting d z hz (by simp [haccepting, Ne.symm hdc])
  | conn hx hwaits hy =>
    exact hs.set (hcomponents.reachable _ _ hx) hx hy rfl rfl rfl rfl rfl rfl hs.past
  | each hx hpc _ hy =>
    exact hs.set (hcomponents.reachable _ _ hx) hx hy rfl rfl rfl rfl rfl rfl
      (hs.goto fun _ _ => hs.past_of hpc (by simp) (by simp))
  | @countDown c x hx hqueue hidle =>
    obtain ⟨-, hphase⟩ := TcpConnection.introduced_of_reachable (hcomponents.reachable c x hx)
    have hless : ∀ d, s.latch d = 0 → update s.latch c (s.latch c - 1) d = 0 := by
      intro d hd
      by_cases hdc : d = c
      · subst hdc
        rw [Function.update_self]
        omega
      · rw [Function.update_of_ne hdc, hd]
    refine ⟨fun d z hz hzero => ?_, fun d z hz hne => hless d (hs.accepting d z hz hne),
      fun hc d z hz hd => hless d (hs.late hc d z hz hd), hs.past, hs.closed⟩
    by_cases hdc : d = c
    · subst hdc
      obtain rfl := Option.some.inj (hx.symm.trans hz)
      exact hphase.idle hidle hqueue
    · refine hs.introduced d z hz ?_
      simpa [Function.update_of_ne hdc] using hzero
  | close =>
    exact ⟨hs.introduced, hs.accepting, hs.late, hs.goto fun _ h => absurd rfl h, hs.closed⟩
  | @remove u under hpc =>
    refine ⟨hs.introduced, hs.accepting, fun _ d z hz hd => ?_, fun _ _ _ => rfl, fun _ => rfl⟩
    -- only the connection that is being accepted has not returned from its `Start`
    replace hd : (s.late d || s.accepting = some d) = false := hd
    rw [Bool.or_eq_false_iff, decide_eq_false_iff_not] at hd
    exact hs.accepting d z hz hd.2
  | await hpc =>
    exact ⟨hs.introduced, hs.accepting, hs.late,
      hs.goto fun _ _ => hs.past_of hpc (by simp) (by simp), hs.closed⟩
  | lock hpc =>
    exact ⟨hs.introduced, hs.accepting, hs.late,
      hs.goto fun _ _ => hs.past_of hpc (by simp) (by simp), hs.closed⟩
  | back _ hpc =>
    exact ⟨hs.introduced, hs.accepting, hs.late,
      hs.goto fun _ _ => hs.past_of hpc (by simp) (by simp), hs.closed⟩
  | clear hpc =>
    exact ⟨hs.introduced, hs.accepting, hs.late,
      hs.goto fun _ _ => hs.past_of hpc (by simp) (by simp), hs.closed⟩
  | unlock hpc =>
    exact ⟨hs.introduced, hs.accepting, hs.late, hs.goto fun h _ => absurd rfl h,
      fun _ => hs.past_of hpc (by simp) (by simp)⟩
  | _ => exact ⟨hs.introduced, hs.accepting, hs.late, hs.past, hs.closed⟩

end Latched

/-! ### The loop of `Close` -/

/-- `Close` is yet to reach the connection `c`, which is `x`. -/
def Remaining (t : T) (c : C) (x : TcpConnection T) : ServerClosePc C → Prop
  | .idle | .acceptor | .await | .lock => True
  | .each left => c ∈ left
  | .close d left => c ∈ left ∨ c = d ∧ .call .close ∈ x.stack (some t)
  | .unlock => False

/-- What `Close` has been through is not connected any more. -/
structure Swept (s : TcpServer C T) : Prop where
  remaining : ∀ t c x, s.conn c = some x → c ∈ s.conns_ ∨ s.late c = false →
    x.state_ = .kConnected → Remaining t c x (s.closing t)
  closed : s.closed = true → ∀ c x, s.conn c = some x → s.late c = false → x.state_ ≠ .kConnected

omit [DecidableEq C] [DecidableEq T] in
theorem swept_start : Swept (start : TcpServer C T) := by
  constructor <;> simp [start]

omit [DecidableEq C] in
/-- **`conn->Close()`** ends the connection: as long as it is connected, the call is to come. -/
theorem close_of_step {u : T} {x y : TcpConnection T} {l : TcpLabel T}
    (hmem : .call .close ∈ x.stack (some u)) (hy : x.step l = some y)
    (hconnected : y.state_ = .kConnected) : .call .close ∈ y.stack (some u) := by
  obtain ⟨-, hmoves⟩ := TcpConnection.moves_of_step hy
  cases hmoves with
  | @call v api hidle =>
    show _ ∈ update x.stack (some v) [.call api] (some u)
    by_cases hv : u = v
    · rw [hv, hidle] at hmem
      cases hmem
    · rwa [Function.update_of_ne (fun h => hv (Option.some.inj h))]
  | @act w env a rest hw =>
    show _ ∈ update x.stack w ((x.act w env a).2 ++ rest) (some u)
    by_cases hu : some u = w
    · rw [hu, Function.update_self]
      rw [hu, hw, List.mem_cons] at hmem
      refine List.mem_append_right _ (hmem.resolve_left ?_)
      rintro rfl
      replace hconnected : (x.act w env (.call .close)).1.state_ = .kConnected := hconnected
      rw [(TcpConnection.act_effect x w env (.call .close)).state_, TcpAct.stores] at hconnected
      split_ifs at hconnected with hs
      exact hs hconnected
    · rwa [Function.update_of_ne hu]
  | @task task queue =>
    show _ ∈ update x.stack none task.acts (some u)
    rwa [Function.update_of_ne (Option.some_ne_none u)]
  | _ => exact hmem

/-- The connections in front of `Close`. -/
def ahead : ServerClosePc C → Finset C
  | .each left => left
  | .close c left => insert c left
  | .idle | .acceptor | .await | .lock | .unlock => ∅

/-- They have been accepted. -/
def Listed (s : TcpServer C T) : Prop := ∀ t, ∀ c ∈ ahead (s.closing t), s.conn c ≠ none

omit [DecidableEq T] in
theorem listed_start : Listed (start : TcpServer C T) := by
  simp [Listed, start, ahead]

section Listed

variable {s t : TcpServer C T} {l : ServerLabel C T} (hs : Listed s)

include hs

omit [DecidableEq T] in
theorem Listed.keep (hclosing : t.closing = s.closing)
    (hconn : ∀ c, s.conn c ≠ none → t.conn c ≠ none) : Listed t := by
  intro u c hc
  rw [hclosing] at hc
  exact hconn c (hs u c hc)

theorem Listed.goto {u : T} {pc : ServerClosePc C} (hclosing : t.closing = update s.closing u pc)
    (hconn : ∀ c, s.conn c ≠ none → t.conn c ≠ none) (hpc : ∀ c ∈ ahead pc, t.conn c ≠ none) :
    Listed t := by
  intro v c hc
  rw [hclosing] at hc
  by_cases hv : v = u
  · rw [hv, Function.update_self] at hc
    exact hpc c hc
  · rw [Function.update_of_ne hv] at hc
    exact hconn c (hs v c hc)

omit hs [DecidableEq T] in
theorem conn_update_ne_none {c d : C} {y : TcpConnection T} (h : s.conn d ≠ none) :
    update s.conn c (some y) d ≠ none := by
  by_cases hd : d = c
  · rw [hd, Function.update_self]
    exact Option.some_ne_none y
  · rwa [Function.update_of_ne hd]

theorem listed_step (hregistry : Registry s) (h : step l s = some t) : Listed t := by
  obtain ⟨-, hmoves⟩ := moves_of_step h
  cases hmoves with
  | accept => exact hs.keep rfl fun _ => conn_update_ne_none
  | conn => exact hs.keep rfl fun _ => conn_update_ne_none
  | close => exact hs.goto rfl (fun _ h => h) fun _ h => absurd h (Finset.notMem_empty _)
  | remove => exact hs.goto rfl (fun _ h => h) fun _ h => absurd h (Finset.notMem_empty _)
  | await => exact hs.goto rfl (fun _ h => h) fun _ h => absurd h (Finset.notMem_empty _)
  | lock =>
    refine hs.goto rfl (fun _ h => h) fun c hc => ?_
    obtain ⟨x, hx, -⟩ := hregistry.member c hc
    exact fun hnone => by cases hnone.symm.trans hx
  | @each u c left x y hx hpc hmem =>
    refine hs.goto rfl (fun _ => conn_update_ne_none) fun d hd => conn_update_ne_none ?_
    refine hs u d ?_
    rw [hpc]
    rcases Finset.mem_insert.mp hd with rfl | hd
    · exact hmem
    · exact Finset.mem_of_mem_erase hd
  | @back u c left x hx hpc =>
    refine hs.goto rfl (fun _ h => h) fun d hd => hs u d ?_
    rw [hpc]
    exact Finset.mem_insert_of_mem hd
  | clear => exact hs.goto rfl (fun _ h => h) fun _ h => absurd h (Finset.notMem_empty _)
  | unlock => exact hs.goto rfl (fun _ h => h) fun _ h => absurd h (Finset.notMem_empty _)
  | _ => exact hs.keep rfl fun _ h => h

end Listed

/-- The whole of it. -/
structure Inv (s : TcpServer C T) : Prop where
  components : Components s
  mutex : Mutex s
  registry : Registry s
  latched : Latched s
  swept : Swept s
  listed : Listed s

theorem inv_start : Inv (start : TcpServer C T) :=
  ⟨components_start, mutex_start, registry_start, latched_start, swept_start, listed_start⟩

section Swept

variable {s t : TcpServer C T} {l : ServerLabel C T} (hs : Inv s)

include hs

/-- Only who has `mu_` has connections left to close. -/
theorem Inv.remaining_of_free {u : T} {c : C} {x : TcpConnection T}
    (hmu : s.mu_ ≠ some (.inr u)) : Remaining u c x (s.closing u) := by
  have hfree := (hs.mutex.thread u).not.mp hmu
  cases hpc : s.closing u with
  | idle | acceptor | await | lock => trivial
  | each left => exact absurd (by rw [hpc]; trivial) hfree
  | close c left => exact absurd (by rw [hpc]; trivial) hfree
  | unlock => exact absurd (by rw [hpc]; trivial) hfree

/-- A connection in `conns_`, or one that was accepted in time, does not become connected. -/
theorem Inv.connected {c : C} {x y : TcpConnection T} {lab : TcpLabel T} (hx : s.conn c = some x)
    (hy : x.step lab = some y)
    (hold : c ∈ s.conns_ ∨ s.late c = false ∧ s.removed = true)
    (hconnected : y.state_ = .kConnected) : x.state_ = .kConnected := by
  have hreach := hs.components.reachable c x hx
  obtain ⟨hshaped, hphase⟩ := TcpConnection.introduced_of_reachable hreach
  have hadvance := TcpConnection.advance_step hshaped hphase hy
  refine (hadvance.connected hconnected).resolve_right fun ⟨hawaiting, _⟩ => ?_
  rcases hold with hmem | ⟨hlate, hclosed⟩
  · obtain ⟨z, hz, -, -, hno⟩ := hs.registry.member c hmem
    rw [Option.some.inj (hx.symm.trans hz)] at hawaiting
    exact hno hawaiting
  · have hlatch := hs.latched.late hclosed c x hx hlate
    exact (hs.latched.introduced c x hx hlatch).1 hawaiting

/-- What is left to close after a step of a connection. -/
theorem Inv.remaining_step {u : T} {c : C} {x y : TcpConnection T} {lab : TcpLabel T}
    (hx : s.conn c = some x) (hy : x.step lab = some y) (hold : c ∈ s.conns_ ∨ s.late c = false)
    (hconnected : y.state_ = .kConnected) : Remaining u c y (s.closing u) := by
  have hleft : s.removed = true → Remaining u c x (s.closing u) := by
    intro hclosed
    refine hs.swept.remaining u c x hx hold ?_
    exact hs.connected hx hy (hold.imp_right fun hlate => ⟨hlate, hclosed⟩) hconnected
  cases hpc : s.closing u with
  | idle | acceptor | await | lock => trivial
  | each left =>
    have hleft := hleft (hs.latched.past_of hpc (by simp) (by simp))
    rw [hpc] at hleft
    exact hleft
  | close d left =>
    have hleft := hleft (hs.latched.past_of hpc (by simp) (by simp))
    rw [hpc] at hleft
    exact hleft.imp_right fun ⟨hd, hmem⟩ => ⟨hd, close_of_step hmem hy hconnected⟩
  | unlock =>
    have hleft := hleft (hs.latched.past_of hpc (by simp) (by simp))
    rw [hpc] at hleft
    exact hleft

/-- A step of one connection. -/
theorem Inv.swept_set {c : C} {x y : TcpConnection T} {lab : TcpLabel T} (hx : s.conn c = some x)
    (hy : x.step lab = some y) (hconn : t.conn = update s.conn c (some y))
    (hconns : t.conns_ = s.conns_) (hlate : t.late = s.late) (hclosed : t.closed = s.closed)
    (hclosing : ∀ u d z, Remaining u d z (s.closing u) → t.conn d = some z →
      Remaining u d z (t.closing u)) : Swept t := by
  constructor
  · intro u d z hz hd hconnected
    refine hclosing u d z ?_ hz
    rw [hconns, hlate] at hd
    rw [hconn] at hz
    rcases conn_update hz with ⟨rfl, rfl⟩ | ⟨-, hz⟩
    · exact hs.remaining_step hx hy hd hconnected
    · exact hs.swept.remaining u d z hz hd hconnected
  · intro hc d z hz hd hconnected
    rw [hclosed] at hc
    rw [hlate] at hd
    rw [hconn] at hz
    rcases conn_update hz with ⟨rfl, rfl⟩ | ⟨-, hz⟩
    · refine hs.swept.closed hc d x hx hd ?_
      exact hs.connected hx hy (.inr ⟨hd, hs.latched.closed hc⟩) hconnected
    · exact hs.swept.closed hc d z hz hd hconnected

/-- A thread goes on in `Close`. -/
theorem Inv.swept_goto {u : T} {pc : ServerClosePc C} (hconn : t.conn = s.conn)
    (hconns : ∀ c ∈ t.conns_, c ∈ s.conns_) (hlate : ∀ c, t.late c = false → s.late c = false)
    (hclosed : t.closed = s.closed) (hclosing : t.closing = update s.closing u pc)
    (hpc : ∀ c x, s.conn c = some x → c ∈ s.conns_ ∨ s.late c = false → x.state_ = .kConnected →
      Remaining u c x (s.closing u) → Remaining u c x pc) : Swept t := by
  constructor
  · intro v c x hx hc hconnected
    rw [hconn] at hx
    replace hc : c ∈ s.conns_ ∨ s.late c = false := hc.imp (hconns c) (hlate c)
    have hleft := hs.swept.remaining v c x hx hc hconnected
    rw [hclosing]
    by_cases hv : v = u
    · subst hv
      rw [Function.update_self]
      exact hpc c x hx hc hconnected hleft
    · rwa [Function.update_of_ne hv]
  · rw [hclosed, hconn]
    exact fun hc c x hx hd => hs.swept.closed hc c x hx (hlate c hd)

theorem swept_step (h : step l s = some t) : Swept t := by
  obtain ⟨-, hmoves⟩ := moves_of_step h
  cases hmoves with
  | @accept c addr cells =>
    constructor
    · intro u d z hz hd hconnected
      rcases conn_update hz with ⟨-, rfl⟩ | ⟨hdc, hz⟩
      · cases hconnected
      · replace hd : d ∈ s.conns_ ∨ update s.late c s.removed d = false := hd
        rw [Function.update_of_ne hdc] at hd
        exact hs.swept.remaining u d z hz hd hconnected
    · intro hc d z hz hd hconnected
      rcases conn_update hz with ⟨-, rfl⟩ | ⟨hdc, hz⟩
      · cases hconnected
      · replace hd : update s.late c s.removed d = false := hd
        rw [Function.update_of_ne hdc] at hd
        exact hs.swept.closed hc d z hz hd hconnected
  | conn hx hwaits hy => exact hs.swept_set hx hy rfl rfl rfl rfl fun _ _ _ h _ => h
  | @emplace c x hx hhead hpc =>
    refine ⟨fun u d z hz hd hconnected => ?_, hs.swept.closed⟩
    -- `mu_` is locked by the loop's thread
    refine hs.remaining_of_free ?_
    rw [(hs.mutex.loop c).mpr (.inl hpc)]
    simp
  | @erase c x hx hhead hpc =>
    refine ⟨fun u d z hz hd hconnected => ?_, hs.swept.closed⟩
    exact hs.swept.remaining u d z hz (hd.imp_left Finset.mem_of_mem_erase) hconnected
  | close =>
    exact hs.swept_goto rfl (fun _ h => h) (fun _ h => h) rfl rfl fun _ _ _ _ _ _ => trivial
  | @remove u under hpc =>
    refine hs.swept_goto rfl (fun _ h => h) (fun d hd => ?_) rfl rfl fun _ _ _ _ _ _ => trivial
    replace hd : (s.late d || s.accepting = some d) = false := hd
    exact (Bool.or_eq_false_iff.mp hd).1
  | await =>
    exact hs.swept_goto rfl (fun _ h => h) (fun _ h => h) rfl rfl fun _ _ _ _ _ _ => trivial
  | @lock u hpc =>
    refine hs.swept_goto rfl (fun _ h => h) (fun _ h => h) rfl rfl
      fun c x hx hc hconnected _ => ?_
    refine hc.elim id fun hlate => ?_
    -- its `OnConnect` has returned
    have hclosed := hs.latched.past_of hpc (by simp) (by simp)
    have hlatch := hs.latched.late hclosed c x hx hlate
    obtain ⟨-, hgreeting⟩ := hs.latched.introduced c x hx hlatch
    exact (hs.registry.registered c x hx hconnected).resolve_right fun h => hgreeting h.1
  | @each u c left x y hx hpc hmem hy =>
    refine hs.swept_set hx hy rfl rfl rfl rfl fun v d z hleft hz => ?_
    show Remaining v d z (update s.closing u (.close c (left.erase c)) v)
    by_cases hv : v = u
    · subst hv
      rw [Function.update_self]
      by_cases hdc : d = c
      · refine .inr ⟨hdc, ?_⟩
        rcases conn_update hz with ⟨-, rfl⟩ | ⟨hne, -⟩
        · obtain ⟨-, hcall⟩ := TcpConnection.moves_of_step hy
          cases hcall
          show _ ∈ update x.stack (some v) [.call .close] (some v)
          rw [Function.update_self]
          exact List.mem_cons_self
        · exact absurd hdc hne
      · rw [hpc] at hleft
        exact .inl (Finset.mem_erase.mpr ⟨hdc, hleft⟩)
    · rwa [Function.update_of_ne hv]
  | @back u c left x hx hpc hidle =>
    refine hs.swept_goto rfl (fun _ h => h) (fun _ h => h) rfl rfl fun d z hz _ _ hleft => ?_
    rw [hpc] at hleft
    refine hleft.resolve_right ?_
    rintro ⟨rfl, hmem⟩
    rw [← Option.some.inj (hx.symm.trans hz), hidle] at hmem
    cases hmem
  | @clear u hpc =>
    refine hs.swept_goto rfl (fun c h => absurd h (Finset.notMem_empty c)) (fun _ h => h) rfl rfl
      fun c x _ _ _ hleft => ?_
    rw [hpc] at hleft
    exact Finset.notMem_empty c hleft
  | @unlock u hpc =>
    have hswept := hs.swept_goto (t := { s with
        mu_ := none
        closing := update s.closing u .idle }) rfl (fun _ h => h) (fun _ h => h) rfl rfl
      fun _ _ _ _ _ _ => trivial
    refine ⟨hswept.remaining, fun _ c x hx hlate hconnected => ?_⟩
    have hleft := hs.swept.remaining u c x hx (.inr hlate) hconnected
    rw [hpc] at hleft
    exact hleft
  | _ => exact ⟨hs.swept.remaining, hs.swept.closed⟩

theorem inv_step (h : step l s = some t) : Inv t := by
  refine ⟨components_step hs.components h, mutex_step hs.mutex h,
    registry_step hs.registry hs.components (fun u hpc c x hx hmem hconnected => ?_) h,
    latched_step hs.latched hs.components h, swept_step hs h, listed_step hs.listed hs.registry h⟩
  have hleft := hs.swept.remaining u c x hx (.inl hmem) hconnected
  rw [hpc] at hleft
  exact Finset.notMem_empty c hleft

end Swept

theorem inv_of_reachable {s : TcpServer C T} (hs : (tcpServer C T).Reachable s) : Inv s := by
  refine hs.invariant (I := Inv) ?_ fun l s t hs _ ht => inv_step hs ht
  rintro s rfl
  exact inv_start

/-- **The registry of a server**: a connection that is connected is in `conns_`, unless its
`OnConnect` has not returned; a connection in `conns_` has had its `OnConnect` and is still in its
context, so its `OnClose` has not returned; and every connection is one that can be reached on its
own. -/
theorem registry {s : TcpServer C T} (hs : (tcpServer C T).Reachable s) {c : C}
    {x : TcpConnection T} (hx : s.conn c = some x) :
    (x.state_ = .kConnected →
      c ∈ s.conns_ ∨ Greeting x ∧ (s.wrapper c = .custom ∨ s.wrapper c = .locked)) ∧
    (c ∈ s.conns_ → Opened x ∧ x.conn_ = true) ∧ (tcpConnection T).Reachable x := by
  have hinv := inv_of_reachable hs
  refine ⟨hinv.registry.registered c x hx, fun hc => ?_, component_of_reachable hs hx⟩
  obtain ⟨z, hz, hopened, hin, -⟩ := hinv.registry.member c hc
  rw [Option.some.inj (hx.symm.trans hz)]
  exact ⟨hopened, hin⟩

/-- A connection is accepted, and its `OnConnect` returns. -/
def acceptOne (c : C) : List (ServerLabel C Unit) :=
  [.accept c 0 fun _ => 0, .conn c .task] ++
    List.replicate 3 (.conn c (.act none TcpConnection.quiet)) ++
    List.replicate 3 (.wrapper c) ++ List.replicate 2 (.conn c (.act none TcpConnection.quiet)) ++
    [.countDown c, .accepted]

/-- It is in `conns_`. -/
theorem registry_acceptOne : ∃ s, (tcpServer Unit Unit).Reachable s ∧ () ∈ s.conns_ := by
  have hrun : ∃ s x, (tcpServer Unit Unit).run (acceptOne ()) start = some s ∧ s.conn () = some x ∧
      x.state_ = .kConnected ∧ x.stack none = [] := ⟨_, _, rfl, rfl, rfl, rfl⟩
  obtain ⟨s, x, hrun, hx, hconnected, hidle⟩ := hrun
  have hreach := System.reachable_of_run (S := tcpServer Unit Unit) rfl hrun
  refine ⟨s, hreach, ((registry hreach hx).1 hconnected).resolve_right fun h => ?_⟩
  rw [Greeting, hidle] at h
  cases h.1

/-- **`Close` closes them all**: once it has returned, a connection whose `Start` had returned when
the acceptor's channel was removed is not connected, and never will be. -/
theorem closed_of_close {s : TcpServer C T} (hs : (tcpServer C T).Reachable s)
    (hclosed : s.closed = true) {c : C} {x : TcpConnection T} (hx : s.conn c = some x)
    (hlate : s.late c = false) : x.state_ ≠ .kConnected :=
  (inv_of_reachable hs).swept.closed hclosed c x hx hlate

/-- A thread calls `Close`, up to its calls of `conn->Close()`. -/
def lockOne : List (ServerLabel C Unit) :=
  [.close (), .remove () false, .next (), .next ()]

/-- The rest of `Close`, for one connection. -/
def closeOne (c : C) : List (ServerLabel C Unit) :=
  [.each () c] ++ List.replicate 2 (.conn c (.act (some ()) TcpConnection.quiet)) ++
    List.replicate 3 (.next ())

/-- Of two connections the one that has been accepted before is closed; the other is accepted for an
event that was reported before the removal and is handled after it. -/
theorem closed_of_close_late : ∃ s x y, (tcpServer Bool Unit).Reachable s ∧
    s.conn true = some x ∧ x.state_ ≠ .kConnected ∧
    s.conn false = some y ∧ s.late false = true ∧ y.state_ = .kConnected := by
  have hrun : ∃ s x y, (tcpServer Bool Unit).run
      (acceptOne true ++ lockOne ++ closeOne true ++ acceptOne false) start = some s ∧
      s.closed = true ∧ s.conn true = some x ∧ s.late true = false ∧
      s.conn false = some y ∧ s.late false = true ∧ y.state_ = .kConnected :=
    ⟨_, _, _, rfl, rfl, rfl, rfl, rfl, rfl, rfl⟩
  obtain ⟨s, x, y, hrun, hclosed, hx, hearly, hy, hlate, hconnected⟩ := hrun
  have hreach := System.reachable_of_run (S := tcpServer Bool Unit) rfl hrun
  exact ⟨s, x, y, hreach, hx, closed_of_close hreach hclosed hx hearly, hy, hlate, hconnected⟩

end TcpServer

end Lizlib
