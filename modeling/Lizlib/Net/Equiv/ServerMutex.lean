import Mathlib.Algebra.Order.BigOperators.Group.Finset
import Lizlib.Net.Equiv.ServerRegistry

/-!
# The mutex of a server

`mu_` is held by the loop's thread of a connection while the wrapper changes `conns_`, and by a
thread in `Close` while it calls `conn->Close()` for every connection.  `mu_released`: the owner
comes to the unlock by steps of its own, and those of threads that stand between two stores to the
queue of a loop.  A call of `conn->Close()` takes at most `effort` acts, of which only the `Submit`
may have to wait, and `rank` bounds the acts of the whole loop.
-/

namespace Lizlib

namespace TcpServer

open Function (update)

variable {C T : Type*} [DecidableEq C] [DecidableEq T]

/-- How many acts a call of another thread than the loop's takes, at most. -/
def effort : TcpAct T → Nat
  | .call _ => 3
  | .storeDisconnected | .storeDisconnecting => 2
  | _ => 1

/-- The acts thread `t` has yet to do on a connection. -/
def acts (s : TcpServer C T) (t : T) (c : C) : Nat :=
  match s.conn c with
  | some x => ((x.stack (some t)).map effort).sum
  | none => 0

/-- These, and the store that it may have to wait for. -/
def work (s : TcpServer C T) (t : T) (c : C) : Nat := (s.stalled c).toNat + s.acts t c

/-- What thread `t` has yet to do from there until it unlocks `mu_`. -/
def rankAt (s : TcpServer C T) (t : T) : ServerClosePc C → Nat
  | .each left => 2 + ∑ c ∈ left, (10 + s.work t c)
  | .close c left => 3 + s.work t c + ∑ d ∈ left, (10 + s.work t d)
  | .unlock => 1
  | .idle | .acceptor | .await | .lock => 0

def rank (s : TcpServer C T) (t : T) : Nat := s.rankAt t (s.closing t)

/-- The steps of the owner of `mu_`, and those its calls of `Submit` may wait for. -/
def Owns : C ⊕ T → ServerLabel C T → Prop
  | _, .stored _ => True
  | .inl c, .wrapper d => d = c
  | .inr t, .next u | .inr t, .each u _ | .inr t, .conn _ (.act (some u) _) => u = t
  | _, _ => False

omit [DecidableEq C] in
theorem effort_act {x : TcpConnection T} {t : T} {env : TcpEnv} {a : TcpAct T}
    (ha : a.Admissible (some t)) : ((x.act (some t) env a).2.map effort).sum < effort a := by
  have hnext := TcpConnection.act_next x (some t) env a
  generalize (x.act (some t) env a).2 = new at hnext
  cases a with
  | call api => cases hnext <;> simp [effort] at *
  | submit task =>
    cases hnext
    simp [effort]
  | storeDisconnected => cases hnext <;> simp [effort]
  | storeDisconnecting => cases hnext <;> simp [effort]
  | _ => cases ha

section Progress

variable {s u : TcpServer C T} {t : T} {c : C}

omit [DecidableEq C] [DecidableEq T] in
theorem work_of_conn {x : TcpConnection T} (hx : s.conn c = some x) :
    s.work t c = (s.stalled c).toNat + ((x.stack (some t)).map effort).sum := by
  rw [work, acts, hx]

omit [DecidableEq T] in
theorem work_of_ne {y : TcpConnection T} (hconn : u.conn = update s.conn c (some y))
    (hstalled : u.stalled = s.stalled) {d : C} (hd : d ≠ c) : u.work t d = s.work t d := by
  rw [work, work, acts, acts, hconn, hstalled, Function.update_of_ne hd]

omit [DecidableEq C] [DecidableEq T] in
theorem rank_of_closing {pc : ServerClosePc C} (h : s.closing t = pc) :
    s.rank t = s.rankAt t pc := by
  rw [rank, h]

variable (hs : Inv s) (hfatal : s.fatal = false)

include hfatal

/-- The store that a `Submit` waits for. -/
theorem stored_step (hstalled : s.stalled c = true) :
    ∃ l u, Owns (.inr t) l ∧ step l s = some u ∧ u.mu_ = s.mu_ ∧ u.closing = s.closing ∧
      u.work t c < s.work t c ∧ ∀ d, u.work t d ≤ s.work t d := by
  have hstep : step (.stored c) s = some { s with stalled := update s.stalled c false } := by
    rw [step, hfatal, if_neg Bool.false_ne_true]
  have hless : work { s with stalled := update s.stalled c false } t c < s.work t c := by
    show (update s.stalled c false c).toNat + s.acts t c < (s.stalled c).toNat + s.acts t c
    rw [Function.update_self, hstalled, Bool.toNat_false, Bool.toNat_true]
    omega
  refine ⟨.stored c, _, trivial, hstep, rfl, rfl, hless, fun d => ?_⟩
  by_cases hd : d = c
  · rw [hd]
    exact Nat.le_of_lt hless
  · show (update s.stalled c false d).toNat + s.acts t d ≤ (s.stalled d).toNat + s.acts t d
    rw [Function.update_of_ne hd]

include hs

/-- The next act of a thread in `conn->Close()`, or the store it waits for. -/
theorem Inv.own_act {x : TcpConnection T} {a : TcpAct T} {rest : List (TcpAct T)}
    (hx : s.conn c = some x) (hw : x.stack (some t) = a :: rest) :
    ∃ l u, Owns (.inr t) l ∧ step l s = some u ∧ u.mu_ = s.mu_ ∧ u.closing = s.closing ∧
      u.work t c < s.work t c ∧ ∀ d, u.work t d ≤ s.work t d := by
  cases hwaits : s.waits c x (.act (some t) TcpConnection.quiet) with
  | true =>
    refine stored_step hfatal ?_
    unfold waits at hwaits
    dsimp only at hwaits
    split at hwaits
    · exact hwaits
    · rename_i hnone _
      cases hnone
    · rename_i hnone _
      cases hnone
    · cases hwaits
  | false =>
    obtain ⟨hshaped, -⟩ :=
      TcpConnection.introduced_of_reachable (hs.components.reachable c x hx)
    have heffort : ((x.act (some t) TcpConnection.quiet a).2.map effort).sum < effort a :=
      effort_act (hshaped.admissible.head hw)
    have hy : x.step (.act (some t) TcpConnection.quiet) = some
        { (x.act (some t) TcpConnection.quiet a).1 with
          stack := update x.stack (some t) ((x.act (some t) TcpConnection.quiet a).2 ++ rest) } := by
      rw [TcpConnection.step, if_neg (not_not.mpr (hs.components.fatal hfatal c x hx))]
      simp only [hw]
    generalize hnew : (x.act (some t) TcpConnection.quiet a).2 = new at heffort hy
    generalize hmid : (x.act (some t) TcpConnection.quiet a).1 = m at hy
    obtain ⟨y, hyx, hstack⟩ : ∃ y, x.step (.act (some t) TcpConnection.quiet) = some y ∧
        y.stack (some t) = new ++ rest := ⟨_, hy, Function.update_self _ _ _⟩
    have hstep : step (.conn c (.act (some t) TcpConnection.quiet)) s =
        some { s.setConn c y with wrapper := update s.wrapper c (s.wrapper c) } := by
      rw [step, hfatal, if_neg Bool.false_ne_true]
      simp only [hx, Option.bind_some, connStep, hwaits, hyx, Option.map_some]
      rfl
    have hless : work { s.setConn c y with wrapper := update s.wrapper c (s.wrapper c) } t c <
        s.work t c := by
      rw [work_of_conn (x := y) (Function.update_self _ _ _), work_of_conn hx, hstack, hw,
        List.map_append, List.sum_append, List.map_cons, List.sum_cons]
      show (s.stalled c).toNat + _ < _
      omega
    refine ⟨.conn c (.act (some t) TcpConnection.quiet), _, rfl, hstep, rfl, rfl, hless,
      fun d => ?_⟩
    by_cases hd : d = c
    · rw [hd]
      exact Nat.le_of_lt hless
    · exact Nat.le_of_eq (work_of_ne (s := s) (by rfl) (by rfl) hd)

/-- **A thread in `Close` that has `mu_`** has a step of its own, which brings it closer to the
unlock. -/
theorem Inv.own_step (hmu : s.mu_ = some (.inr t)) :
    ∃ l u, Owns (.inr t) l ∧ step l s = some u ∧ (u.mu_ = some (.inr t) ∨ u.mu_ = none) ∧
      u.rank t < s.rank t := by
  have hstep : ∀ u, s.nextStep t = some u → step (.next t) s = some u := by
    intro u hu
    rw [step, hfatal, if_neg Bool.false_ne_true]
    exact hu
  have hholds := (hs.mutex.thread t).mp hmu
  have hself : ∀ pc, update s.closing t pc t = pc := fun pc => Function.update_self _ _ _
  cases hpc : s.closing t with
  | idle | acceptor | await | lock =>
    rw [hpc] at hholds
    exact hholds.elim
  | unlock =>
    refine ⟨.next t, _, rfl, hstep _ (by rw [nextStep]; simp only [hpc]; rfl), .inr rfl, ?_⟩
    rw [rank_of_closing hpc]
    refine (rank_of_closing (hself .idle)).trans_lt ?_
    exact Nat.zero_lt_one
  | each left =>
    rw [rank_of_closing hpc]
    by_cases hleft : left = ∅
    · subst hleft
      refine ⟨.next t, { s with conns_ := ∅, closing := update s.closing t .unlock }, rfl,
        hstep _ (by rw [nextStep]; simp only [hpc, if_pos]), .inl hmu, ?_⟩
      refine (rank_of_closing (hself .unlock)).trans_lt ?_
      show 1 < 2 + ∑ c ∈ (∅ : Finset C), (10 + s.work t c)
      omega
    obtain ⟨c, hc⟩ := Finset.nonempty_iff_ne_empty.mpr hleft
    obtain ⟨x, hx⟩ := Option.ne_none_iff_exists'.mp (hs.listed t c (by rwa [hpc]))
    cases hw : x.stack (some t) with
    | nil =>
      obtain ⟨y, hy, hstack⟩ : ∃ y, x.step (.call t .close) = some y ∧
          y.stack (some t) = [.call .close] := by
        rw [TcpConnection.step, if_neg (not_not.mpr (hs.components.fatal hfatal c x hx))]
        simp only [hw, if_pos]
        exact ⟨_, rfl, Function.update_self _ _ _⟩
      refine ⟨.each t c, { s.setConn c y with
        closing := update s.closing t (.close c (left.erase c)) }, rfl, ?_, .inl hmu, ?_⟩
      · rw [step, hfatal, if_neg Bool.false_ne_true]
        simp only [eachStep, hpc, hx, if_pos hc, hy, Option.map_some]
      refine (rank_of_closing (hself _)).trans_lt ?_
      rw [rankAt, rankAt, work_of_conn (x := y) (Function.update_self _ _ _), hstack,
        ← Finset.add_sum_erase left _ hc, work_of_conn hx]
      have hrest : ∑ d ∈ left.erase c, (10 + work { s.setConn c y with
          closing := update s.closing t (.close c (left.erase c)) } t d) =
          ∑ d ∈ left.erase c, (10 + s.work t d) := by
        refine Finset.sum_congr rfl fun d hd => ?_
        exact congrArg (10 + ·) (work_of_ne (s := s) (by rfl) (by rfl) (Finset.ne_of_mem_erase hd))
      rw [hrest]
      show 3 + ((s.stalled c).toNat + _) + _ < _
      simp only [List.map_cons, List.map_nil, List.sum_cons, List.sum_nil, effort]
      omega
    | cons a rest =>
      obtain ⟨l, u, hl, hu, hmu', hclosing, hless, hle⟩ := hs.own_act hfatal hx hw
      refine ⟨l, u, hl, hu, .inl (hmu'.trans hmu), ?_⟩
      rw [rank_of_closing ((congrFun hclosing t).trans hpc)]
      have hsum : ∑ d ∈ left, (10 + u.work t d) < ∑ d ∈ left, (10 + s.work t d) :=
        Finset.sum_lt_sum (fun d _ => Nat.add_le_add_left (hle d) 10)
          ⟨c, hc, Nat.add_lt_add_left hless 10⟩
      exact Nat.add_lt_add_left hsum 2
  | close c left =>
    rw [rank_of_closing hpc]
    obtain ⟨x, hx⟩ := Option.ne_none_iff_exists'.mp
      (hs.listed t c (by rw [hpc]; exact Finset.mem_insert_self c left))
    cases hw : x.stack (some t) with
    | nil =>
      refine ⟨.next t, { s with closing := update s.closing t (.each left) }, rfl,
        hstep _ (by rw [nextStep]; simp only [hpc, hx, hw, if_pos]), .inl hmu, ?_⟩
      refine (rank_of_closing (hself _)).trans_lt ?_
      show 2 + ∑ d ∈ left, (10 + s.work t d) < 3 + s.work t c + ∑ d ∈ left, (10 + s.work t d)
      omega
    | cons a rest =>
      obtain ⟨l, u, hl, hu, hmu', hclosing, hless, hle⟩ := hs.own_act hfatal hx hw
      refine ⟨l, u, hl, hu, .inl (hmu'.trans hmu), ?_⟩
      rw [rank_of_closing ((congrFun hclosing t).trans hpc), rankAt, rankAt]
      have hsum : ∑ d ∈ left, (10 + u.work t d) ≤ ∑ d ∈ left, (10 + s.work t d) :=
        Finset.sum_le_sum fun d _ => Nat.add_le_add_left (hle d) 10
      omega

/-- **The loop's thread that has `mu_`** takes the next step of the wrapper. -/
theorem Inv.wrapper_step (hmu : s.mu_ = some (.inl c)) :
    ∃ u, step (.wrapper c) s = some u ∧
      (u.mu_ = none ∨ u.fatal = true ∨
        s.wrapper c = .locked ∧ u.wrapper c = .changed ∧ u.mu_ = s.mu_ ∧ u.fatal = s.fatal) := by
  have hpc := (hs.mutex.loop c).mp hmu
  obtain ⟨x, hx, hhead⟩ := hs.registry.wrapping c (by rcases hpc with h | h <;> simp [h])
  -- both callbacks of the wrapper do this, but for the change of `conns_`
  have hwrap : ∀ change, s.wrapperStep c x = s.wrap c x change → ∃ u, s.wrapperStep c x = some u ∧
      (u.mu_ = none ∨ u.fatal = true ∨
        s.wrapper c = .locked ∧ u.wrapper c = .changed ∧ u.mu_ = s.mu_ ∧ u.fatal = s.fatal) := by
    intro change hchange
    rw [hchange, wrap]
    rcases hpc with hpc | hpc
    · simp only [hpc]
      split_ifs
      · exact ⟨_, rfl, .inr (.inr ⟨trivial, Function.update_self _ _ _, rfl, rfl⟩)⟩
      · exact ⟨_, rfl, .inr (.inl rfl)⟩
    · simp only [hpc]
      exact ⟨_, rfl, .inl rfl⟩
  have hstep : step (.wrapper c) s = s.wrapperStep c x := by
    rw [step, hfatal, if_neg Bool.false_ne_true]
    simp only [hx, Option.bind_some]
  rw [hstep]
  rcases hhead with hhead | hhead
  · exact hwrap (fun conns_ => insert c conns_) (by rw [wrapperStep, hhead])
  · exact hwrap (fun conns_ => conns_.erase c) (by rw [wrapperStep, hhead])

end Progress

/-- **`mu_` is not held for good**: from every state in which it is locked, its owner comes to the
unlock by steps of its own, unless the process ends; it waits for nobody but a thread that stands
between two stores to the queue of a loop, and only until the second one. -/
theorem mu_released {s : TcpServer C T} (hs : (tcpServer C T).Reachable s) {w : C ⊕ T}
    (hmu : s.mu_ = some w) :
    (tcpServer C T).Leads (Owns w) (fun u => u.mu_ = none ∨ u.fatal = true) s := by
  have hinv := inv_of_reachable hs
  by_cases hfatal : s.fatal = true
  · exact .here (.inr hfatal)
  rw [Bool.not_eq_true] at hfatal
  cases w with
  | inl c =>
    obtain ⟨u, hu, hcases⟩ := hinv.wrapper_step hfatal hmu
    refine System.Leads.step (S := tcpServer C T) (l := .wrapper c) hu rfl ?_
    rcases hcases with hnone | hf | ⟨-, hpc, hmu', hfatal'⟩
    · exact .here (.inl hnone)
    · exact .here (.inr hf)
    · -- `conns_` is changed, and the unlock is next
      obtain ⟨v, hv, hcases⟩ :=
        (inv_step hinv hu).wrapper_step (hfatal'.trans hfatal) (hmu'.trans hmu)
      refine System.Leads.step (S := tcpServer C T) (l := .wrapper c) hv rfl (.here ?_)
      rcases hcases with hnone | hf | ⟨hlocked, -⟩
      · exact .inl hnone
      · exact .inr hf
      · cases hpc.symm.trans hlocked
  | inr t =>
    refine System.leads_of_rank (I := fun u => Inv u ∧ (u.mu_ = some (.inr t) ∨ u.mu_ = none))
      (fun u => u.rank t) (fun u hu => ?_) ⟨hinv, .inl hmu⟩
    obtain ⟨hu, hheld | hnone⟩ := hu
    · by_cases hf : u.fatal = true
      · exact .inl (.inr hf)
      · obtain ⟨l, v, hl, hv, hmu', hless⟩ := hu.own_step (by simpa using hf) hheld
        exact .inr ⟨l, v, hl, hv, ⟨inv_step hu hv, hmu'⟩, hless⟩
    · exact .inl (.inl hnone)

/-- `Close` has locked `mu_` and stands at the `Submit` of a connection's `Close()`, which waits for
a thread between two stores to the queue. -/
theorem mu_released_stalled : ∃ s x, (tcpServer Unit Unit).Reachable s ∧ s.mu_ = some (.inr ()) ∧
    s.conn () = some x ∧ s.waits () x (.act (some ()) TcpConnection.quiet) = true ∧
    (tcpServer Unit Unit).Leads (Owns (.inr ())) (fun u => u.mu_ = none ∨ u.fatal = true) s := by
  have hrun : ∃ s x, (tcpServer Unit Unit).run (acceptOne () ++ lockOne ++
      [.each () (), .conn () (.act (some ()) TcpConnection.quiet), .stall ()]) start = some s ∧
      s.mu_ = some (.inr ()) ∧ s.conn () = some x ∧
      s.waits () x (.act (some ()) TcpConnection.quiet) = true := ⟨_, _, rfl, rfl, rfl, rfl⟩
  obtain ⟨s, x, hrun, hmu, hx, hwaits⟩ := hrun
  have hreach := System.reachable_of_run (S := tcpServer Unit Unit) rfl hrun
  exact ⟨s, x, hreach, hmu, hx, hwaits, mu_released hreach hmu⟩

end TcpServer

end Lizlib
