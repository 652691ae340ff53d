import Lizlib.Data.Stacks
import Lizlib.Net.TcpClient

/-!
# Closing a client, and connecting it

* `reaches_iff`: `Close` and `Shutdown` of the client do what they are for along a run exactly when
  none of them makes the transition from `kConnected` and none gets as far as the connection: the
  branch on the compare-exchange is the wrong way round.
* `works_iff`: connecting ends in one connection exactly when every retry begins inside the scope of
  the `Socket` it refers to, a parameter of the `tryConnect` that has scheduled it.
-/

namespace Lizlib

namespace TcpClient

open Function (update)

variable {W : Type*} [DecidableEq W]

/-! ### Steps -/

/-- One step from `s`, by its label. -/
inductive Moves (s : TcpClient W) : TcpClientLabel W → TcpClient W → Prop
  | call {w : W} {api : TcpClientApi} (hw : s.stack w = []) :
      Moves s (.call w api) { s with stack := update s.stack w [.call api] }
  | act {w : W} {env : TcpClientEnv} {a : TcpClientAct} {rest : List TcpClientAct}
      (hw : s.stack w = a :: rest) :
      Moves s (.act w env) { (s.act env a).1 with
        stack := update s.stack w ((s.act env a).2 ++ rest) }
  | timer {w : W} {i sock : Nat} (hi : s.retries[i]? = some sock) (hw : s.stack w = []) :
      Moves s (.timer w i) { s with
        retries := s.retries.eraseIdx i, stack := update s.stack w [.retry sock] }
  | onClose {w : W} (hw : s.stack w = []) :
      Moves s (.onClose w) { s with
        stack := update s.stack w [.customOnClose, .disconnected, .resetConn] }

theorem begin_eq_some {s t : TcpClient W} {w : W} {acts : List TcpClientAct}
    (h : s.begin w acts = some t) :
    s.stack w = [] ∧ t = { s with stack := update s.stack w acts } := by
  simp only [begin, Option.ite_none_right_eq_some, Option.some.injEq] at h
  exact ⟨h.1, h.2.symm⟩

/-- **Inversion of a step**. -/
theorem moves_of_step {l : TcpClientLabel W} {s t : TcpClient W} (h : step l s = some t) :
    s.fatal = none ∧ Moves s l t := by
  unfold step at h
  rw [Option.ite_none_left_eq_some] at h
  obtain ⟨hfatal, h⟩ := h
  refine ⟨not_not.mp hfatal, ?_⟩
  cases l with
  | call w api =>
    obtain ⟨hw, rfl⟩ := begin_eq_some h
    exact .call hw
  | act w env =>
    dsimp only at h
    split at h
    · cases h
    · rename_i a rest hw
      obtain rfl := Option.some.inj h
      exact .act hw
  | timer w i =>
    dsimp only at h
    split at h
    · cases h
    · rename_i sock hi
      obtain ⟨hw, rfl⟩ := begin_eq_some h
      exact .timer hi hw
  | onClose w =>
    dsimp only at h
    split_ifs at h
    obtain ⟨hw, rfl⟩ := begin_eq_some h
    exact .onClose hw

/-! ### `Close` and `Shutdown` -/

/-- A call of `Close` or `Shutdown` that makes the transition has passed its operation on once, and
no other call has passed anything on; so the client is only disconnecting after one of them. -/
structure Reaches (s : TcpClient W) : Prop where
  returned : ∀ c ∈ s.returned, c.issued = if c.won then [c.op] else []
  disconnecting : s.state_ = .kDisconnecting → ∃ c ∈ s.returned, c.issued ≠ []

/-- No call finds the client connected, and none gets to its connection. -/
def Misses (l : TcpClientLabel W) (s : TcpClient W) : Prop :=
  match l with
  | .act w _ =>
    match s.stack w with
    | .disconnecting _ :: _ => s.state_ ≠ .kConnected
    | .onConn _ :: _ => False
    | _ => True
  | _ => True

omit [DecidableEq W] in
/-- What an act does to the calls that have returned. -/
theorem returned_act (env : TcpClientEnv) (s : TcpClient W) (a : TcpClientAct) :
    (∃ op, a = .disconnecting op ∧ s.state_ = .kConnected ∧
      (s.act env a).1.returned = s.returned ++ [⟨op, true, []⟩]) ∨
    (∃ op, a = .onConn op ∧ (s.act env a).1.returned = s.returned ++ [⟨op, false, [op]⟩]) ∨
    ((∀ op, a = .disconnecting op → s.state_ ≠ .kConnected) ∧ (∀ op, a ≠ .onConn op) ∧
      ((s.act env a).1.state_ = .kDisconnecting → s.state_ = .kDisconnecting) ∧
      ((s.act env a).1.returned = s.returned ∨
        ∃ op, (s.act env a).1.returned = s.returned ++ [⟨op, false, []⟩])) := by
  cases a with
  | disconnecting op =>
    by_cases hs : s.state_ = .kConnected
    · exact .inl ⟨op, rfl, hs, by simp [act, hs]⟩
    · exact .inr (.inr ⟨fun _ _ => hs, by simp, by simp [act, hs], .inl (by simp [act, hs])⟩)
  | onConn op => exact .inr (.inl ⟨op, rfl, rfl⟩)
  | ifConn op =>
    refine .inr (.inr ⟨by simp, by simp, ?_, ?_⟩) <;> simp only [act] <;> split_ifs
    · exact id
    · exact id
    · exact .inl rfl
    · exact .inr ⟨op, rfl⟩
  | call api =>
    cases api <;> exact .inr (.inr ⟨by simp, by simp, id, .inl rfl⟩)
  | start | connected sock =>
    refine .inr (.inr ⟨by simp, by simp, ?_, .inl ?_⟩) <;> simp only [act] <;> split_ifs <;> simp
  | tryConnect sock | retry sock =>
    refine .inr (.inr ⟨by simp, by simp, ?_, .inl ?_⟩) <;> simp only [act, moveSocket] <;> split <;>
      simp
  | makeConn sock =>
    refine .inr (.inr ⟨by simp, by simp, ?_, .inl ?_⟩) <;> simp only [act] <;> split <;> simp
  | disconnected => exact .inr (.inr ⟨by simp, by simp, by simp [act], .inl rfl⟩)
  | create | connect sock | startConn | submitAfter sock | destroy sock | customOnClose | resetConn =>
    exact .inr (.inr ⟨by simp, by simp, id, .inl rfl⟩)

theorem reaches_step_iff {l : TcpClientLabel W} {s t : TcpClient W} (hs : Reaches s)
    (h : step l s = some t) : Reaches t ↔ Misses l s := by
  obtain ⟨-, hmoves⟩ := moves_of_step h
  cases hmoves with
  | call | timer | onClose => exact iff_of_true ⟨hs.returned, hs.disconnecting⟩ trivial
  | @act w env a rest hw =>
    rcases returned_act env s a with ⟨op, rfl, hstate, hret⟩ | ⟨op, rfl, hret⟩ |
      ⟨hstate, hconn, hkeep, hret⟩
    · refine iff_of_false (fun ht => ?_) (by simp [Misses, hw, hstate])
      have := ht.returned ⟨op, true, []⟩ (by simp [hret])
      simp at this
    · refine iff_of_false (fun ht => ?_) (by simp [Misses, hw])
      have := ht.returned ⟨op, false, [op]⟩ (by simp [hret])
      simp at this
    · refine iff_of_true ?_ ?_
      · have hsub : ∀ c ∈ s.returned, c ∈ (s.act env a).1.returned := by
          rcases hret with hret | ⟨op, hret⟩ <;> intro c hc <;> rw [hret]
          · exact hc
          · exact List.mem_append_left _ hc
        refine ⟨fun c hc => ?_, fun hdisc => ?_⟩
        · rcases hret with hret | ⟨op, hret⟩
          · exact hs.returned c (hret ▸ hc)
          · have hc : c ∈ s.returned ++ [⟨op, false, []⟩] := hret ▸ hc
            rcases List.mem_append.mp hc with hc | hc
            · exact hs.returned c hc
            · rw [List.mem_singleton.mp hc]
              rfl
        · obtain ⟨c, hc, hissued⟩ := hs.disconnecting (hkeep hdisc)
          exact ⟨c, hsub c hc, hissued⟩
      · unfold Misses
        dsimp only
        split
        · rename_i heq
          rw [hw, List.cons.injEq] at heq
          exact hstate _ heq.1
        · rename_i heq
          rw [hw, List.cons.injEq] at heq
          exact hconn _ heq.1
        · trivial

omit [DecidableEq W] in
theorem reaches_new : Reaches (new : TcpClient W) :=
  ⟨fun c hc => absurd hc List.not_mem_nil, fun h => by cases h⟩

/-- **`Close` and `Shutdown` reach the connection** all along a schedule, if and only if none of them
finds the client connected and none of the others finds its connection. -/
theorem reaches_iff (ls : List (TcpClientLabel W)) :
    (tcpClient W).AllStates Reaches ls new ↔ (tcpClient W).AllSteps Misses ls new :=
  System.allStates_iff_allSteps (I := fun _ => True) (fun _ _ _ _ _ _ _ => trivial)
    (fun _ _ _ _ hs h => reaches_step_iff hs h) ls trivial reaches_new

/-- `Start` connects at once. -/
def connectAtOnce : List (TcpClientLabel Unit) :=
  .call () .start :: List.replicate 10 (.act () ⟨.ok, []⟩)

/-- `Close` of the connected client calls nothing on its connection. -/
theorem closeConnected_not_reaches : ¬ (tcpClient Unit).AllStates Reaches
    (connectAtOnce ++ [.call () (.closing .close), .act () ⟨.ok, []⟩, .act () ⟨.ok, []⟩]) new := by
  intro h
  obtain ⟨t, ht, hstate, hret⟩ : ∃ t, (tcpClient Unit).run (connectAtOnce ++
      [.call () (.closing .close), .act () ⟨.ok, []⟩, .act () ⟨.ok, []⟩]) new = some t ∧
      t.state_ = .kDisconnecting ∧ t.returned = [⟨.close, true, []⟩] := ⟨_, rfl, rfl, rfl⟩
  obtain ⟨c, hc, hissued⟩ := (h.last ht).disconnecting hstate
  rw [hret, List.mem_singleton] at hc
  rw [hc] at hissued
  exact hissued rfl

/-! ### Connecting -/

/-- Nothing but `Start` and retries, in which `::connect` fails with an error to be retried or
succeeds. -/
def Connects : TcpClientLabel W → Prop
  | .call _ api => api = .start
  | .act _ env => env.connect.switch ≠ .failure
  | .timer _ _ => True
  | .onClose _ => False

/-- A retry begins inside the scope of the `Socket` it refers to. -/
def InScope (l : TcpClientLabel W) (s : TcpClient W) : Prop :=
  match l with
  | .act w _ =>
    match s.stack w with
    | .retry sock :: _ => s.sockets.object sock ≠ .destroyed
    | _ => True
  | _ => True

/-- `Start` has been called, and nothing is left to do; or the behaviour is undefined. -/
def AtRest (s : TcpClient W) : Prop :=
  s.fatal ≠ none ∨ s.state_ ≠ .kOffline ∧ (∀ w, s.stack w = []) ∧ s.retries = []

/-- Every attempt was made on an open socket, and the last one has made the only connection. -/
structure Works (s : TcpClient W) : Prop where
  fatal : s.fatal = none
  attempts : ∀ attempt ∈ s.attempts, attempt.isOpen = true
  state_ : s.state_ = .kConnected
  connections : s.connections = 1

/-- The act has no part in connecting, or not yet. -/
def passive : TcpClientAct → Prop
  | .call .start | .start | .startConn | .destroy _ => True
  | _ => False

/-- `sock` is the sole owner of a descriptor, and only thread `w` can end its scope. -/
structure Held (s : TcpClient W) (w : W) (sock : Nat) : Prop where
  sole : s.sockets.SoleOwner sock
  scope : ∀ v, v ≠ w → .destroy sock ∉ s.stack v

/-- Thread `w` goes on connecting with this act. -/
def Ready (s : TcpClient W) (w : W) : TcpClientAct → Prop
  | .create => s.state_ = .kConnecting ∧ s.sockets.NoOwner
  | .tryConnect sock | .connect sock | .connected sock | .submitAfter sock =>
    s.state_ = .kConnecting ∧ s.Held w sock
  | .makeConn sock => s.state_ = .kConnected ∧ s.Held w sock
  | .retry sock =>
    s.state_ = .kConnecting ∧ (s.sockets.SoleOwner sock ∨ s.sockets.object sock = .destroyed)
  | _ => False

/-- How far connecting has come. -/
inductive Phase (s : TcpClient W) : Prop
  | offline (hstate : s.state_ = .kOffline) (hsockets : s.sockets.NoOwner)
      (hstack : Stacks.All (fun _ a => passive a) s.stack) (hretries : s.retries = [])
      (hconn : s.connections = 0)
  | active {w : W} {a : TcpClientAct} {rest : List TcpClientAct} (hw : s.stack w = a :: rest)
      (hready : s.Ready w a) (hstack : Stacks.All (fun _ a => passive a) (update s.stack w rest))
      (hretries : s.retries = []) (hconn : s.connections = 0)
  | waiting {sock : Nat} (hstate : s.state_ = .kConnecting)
      (hsock : s.sockets.SoleOwner sock ∨ s.sockets.object sock = .destroyed)
      (hstack : Stacks.All (fun _ a => passive a) s.stack) (hretries : s.retries = [sock])
      (hconn : s.connections = 0)
  | done (hstate : s.state_ = .kConnected) (hstack : Stacks.All (fun _ a => passive a) s.stack)
      (hretries : s.retries = []) (hconn : s.connections = 1)

/-- What holds as long as every retry has begun in scope. -/
structure Inv (s : TcpClient W) : Prop where
  fatal : s.fatal = none
  fresh : s.sockets.Fresh
  scopes : ∀ w sock, .destroy sock ∈ s.stack w → sock < s.sockets.constructed
  attempts : ∀ attempt ∈ s.attempts, attempt.isOpen = true
  phase : s.Phase

section Connecting

variable {s t : TcpClient W} {v w : W} {a : TcpClientAct} {rest : List TcpClientAct}

omit [DecidableEq W] in
theorem not_passive_of_ready (h : s.Ready w a) : ¬ passive a := by
  cases a <;> simp_all [Ready, passive]

omit [DecidableEq W] in
/-- A thread has ended the scope of at most one socket, or begun with nothing that ends another. -/
theorem Held.congr {sock : Nat} (hs : s.Held w sock) (hv : v ≠ w)
    (hstack : ∀ u p, u ≠ w → .destroy p ∈ t.stack u → .destroy p ∈ s.stack u)
    (hsockets : t.sockets = s.sockets ∨
      ∃ p, .destroy p ∈ s.stack v ∧ t.sockets = s.sockets.destroy p) : t.Held w sock := by
  refine ⟨?_, fun u hu hmem => hs.scope u hu (hstack u sock hu hmem)⟩
  rcases hsockets with heq | ⟨p, hp, heq⟩
  · rw [heq]
    exact hs.sole
  · rw [heq]
    apply hs.sole.destroy
    rintro rfl
    exact hs.scope v hv hp

omit [DecidableEq W] in
theorem Ready.congr (hs : s.Ready w a) (hv : v ≠ w) (hstate : t.state_ = s.state_)
    (hstack : ∀ u p, u ≠ w → .destroy p ∈ t.stack u → .destroy p ∈ s.stack u)
    (hsockets : t.sockets = s.sockets ∨
      ∃ p, .destroy p ∈ s.stack v ∧ t.sockets = s.sockets.destroy p) : t.Ready w a := by
  cases a with
  | create =>
    refine ⟨hstate.trans hs.1, ?_⟩
    rcases hsockets with heq | ⟨p, -, heq⟩
    · rw [heq]
      exact hs.2
    · rw [heq]
      exact hs.2.destroy p
  | tryConnect sock | connect sock | connected sock | submitAfter sock | makeConn sock =>
    exact ⟨hstate.trans hs.1, hs.2.congr hv hstack hsockets⟩
  | retry sock =>
    refine ⟨hstate.trans hs.1, ?_⟩
    rcases hsockets with heq | ⟨p, -, heq⟩
    · rw [heq]
      exact hs.2
    · rw [heq]
      exact Owners.soleOwner_or_destroyed hs.2 p
  | _ => exact hs.elim

/-- A thread that has no part in connecting goes on. -/
theorem Phase.congr {l : List TcpClientAct} (hs : s.Phase)
    (hv : ∀ a rest, s.stack v = a :: rest → passive a) (hstack : t.stack = update s.stack v l)
    (hl : ∀ b ∈ l, b ∈ s.stack v ∨ passive b ∧ ∀ p, b ≠ .destroy p)
    (hstate : t.state_ = s.state_) (hretries : t.retries = s.retries)
    (hconn : t.connections = s.connections)
    (hsockets : t.sockets = s.sockets ∨
      ∃ p, .destroy p ∈ s.stack v ∧ t.sockets = s.sockets.destroy p) : t.Phase := by
  have hall : ∀ {S : W → List TcpClientAct}, Stacks.All (fun _ a => passive a) S →
      S v = s.stack v → Stacks.All (fun _ a => passive a) (update S v l) := by
    intro S hS hSv
    apply Stacks.all_begin hS
    intro b hb
    rcases hl b hb with hb | hb
    · exact hS v b (hSv ▸ hb)
    · exact hb.1
  cases hs with
  | offline h hnone hpassive hr hc =>
    refine .offline (hstate.trans h) ?_ (hstack ▸ hall hpassive rfl) (hretries.trans hr)
      (hconn.trans hc)
    rcases hsockets with heq | ⟨p, -, heq⟩
    · rw [heq]
      exact hnone
    · rw [heq]
      exact hnone.destroy p
  | @active w a rest hw hready hpassive hr hc =>
    -- it is not the thread that goes on connecting
    have hvw : v ≠ w := by
      rintro rfl
      exact not_passive_of_ready hready (hv a rest hw)
    have hw' : t.stack w = a :: rest := by
      rw [hstack, Function.update_of_ne (Ne.symm hvw)]
      exact hw
    refine .active hw' ?_ ?_ (hretries.trans hr) (hconn.trans hc)
    · refine hready.congr hvw hstate (fun u p hu hp => ?_) hsockets
      rw [hstack] at hp
      by_cases huv : u = v
      · subst huv
        rw [Function.update_self] at hp
        exact (hl _ hp).resolve_right fun h => h.2 p rfl
      · rwa [Function.update_of_ne huv] at hp
    · rw [hstack, Function.update_comm hvw]
      exact hall hpassive (Function.update_of_ne hvw _ _)
  | @waiting sock h hsock hpassive hr hc =>
    refine .waiting (hstate.trans h) ?_ (hstack ▸ hall hpassive rfl) (hretries.trans hr)
      (hconn.trans hc)
    rcases hsockets with heq | ⟨p, -, heq⟩
    · rw [heq]
      exact hsock
    · rw [heq]
      exact Owners.soleOwner_or_destroyed hsock p
  | done h hpassive hr hc =>
    exact .done (hstate.trans h) (hstack ▸ hall hpassive rfl) (hretries.trans hr) (hconn.trans hc)

/-- A thread that gets the stack `l`, with no new scopes but those of new sockets. -/
theorem Inv.scopes_update {l : List TcpClientAct} {n : Nat} (hs : s.Inv)
    (hn : s.sockets.constructed ≤ n) (hl : ∀ p, .destroy p ∈ l → .destroy p ∈ s.stack w ∨ p < n)
    (v : W) (p : Nat) (hp : .destroy p ∈ update s.stack w l v) : p < n := by
  by_cases hv : v = w
  · subst hv
    rw [Function.update_self] at hp
    rcases hl p hp with hp | hp
    · have := hs.scopes v p hp
      omega
    · exact hp
  · rw [Function.update_of_ne hv] at hp
    have := hs.scopes v p hp
    omega

/-- An act that has no part in connecting. -/
theorem inv_passive (env : TcpClientEnv) (hs : s.Inv) (hw : s.stack w = a :: rest) (ha : passive a)
    (hstart : a = .start → s.state_ ≠ .kOffline) :
    Inv { (s.act env a).1 with stack := update s.stack w ((s.act env a).2 ++ rest) } := by
  have hv : ∀ b r, s.stack w = b :: r → passive b := by
    intro b r h
    rw [hw, List.cons.injEq] at h
    exact h.1 ▸ ha
  have hrest : ∀ b ∈ rest, b ∈ s.stack w := fun b hb => hw ▸ List.mem_cons_of_mem a hb
  have hscopes := hs.scopes_update (w := w) (l := rest) le_rfl fun p hp => .inl (hrest _ hp)
  have hphase : ∀ {t : TcpClient W}, t.stack = update s.stack w rest → t.state_ = s.state_ →
      t.retries = s.retries → t.connections = s.connections → (t.sockets = s.sockets ∨
        ∃ p, .destroy p ∈ s.stack w ∧ t.sockets = s.sockets.destroy p) → t.Phase :=
    fun hstack => hs.phase.congr hv hstack fun b hb => .inl (hrest b hb)
  cases a with
  | call api =>
    cases api with
    | closing op => exact ha.elim
    | start =>
      refine ⟨hs.fatal, hs.fresh, hs.scopes_update le_rfl fun p hp => .inl ?_, hs.attempts,
        hs.phase.congr hv rfl (fun b hb => ?_) rfl rfl rfl (.inl rfl)⟩
      · rcases List.mem_cons.mp hp with hp | hp
        · cases hp
        · exact hrest _ hp
      · rcases List.mem_cons.mp hb with rfl | hb
        · exact .inr ⟨trivial, fun _ h => by cases h⟩
        · exact .inl (hrest _ hb)
  | start =>
    have hact : s.act env .start = (s, []) := if_neg (hstart rfl)
    rw [hact]
    exact ⟨hs.fatal, hs.fresh, hscopes, hs.attempts, hphase rfl rfl rfl rfl (.inl rfl)⟩
  | startConn =>
    exact ⟨hs.fatal, hs.fresh, hscopes, hs.attempts, hphase rfl rfl rfl rfl (.inl rfl)⟩
  | destroy sock =>
    have hmem : .destroy sock ∈ s.stack w := hw ▸ List.mem_cons_self
    exact ⟨hs.fatal, hs.fresh.destroy sock, hscopes, hs.attempts,
      hphase rfl rfl rfl rfl (.inr ⟨sock, hmem, rfl⟩)⟩
  | _ => exact ha.elim

/-- Only the thread that goes on connecting has another act. -/
theorem Phase.ready (hs : s.Phase) (hw : s.stack w = a :: rest) (ha : ¬ passive a) :
    s.Ready w a ∧ Stacks.All (fun _ a => passive a) (update s.stack w rest) ∧ s.retries = [] ∧
      s.connections = 0 := by
  have hnot : ¬ Stacks.All (fun _ a => passive a) s.stack := fun hall => ha (hall.head hw)
  cases hs with
  | offline _ _ hpassive => exact absurd hpassive hnot
  | waiting _ _ hpassive => exact absurd hpassive hnot
  | done _ hpassive => exact absurd hpassive hnot
  | @active v b r hv hready hpassive hr hc =>
    by_cases hwv : w = v
    · subst hwv
      rw [hw, List.cons.injEq] at hv
      obtain ⟨rfl, rfl⟩ := hv
      exact ⟨hready, hpassive, hr, hc⟩
    · refine absurd (hpassive w a ?_) ha
      rw [Function.update_of_ne hwv, hw]
      exact List.mem_cons_self

/-- The next act of the connecting thread, on a socket that has just been constructed. -/
theorem inv_construct {sockets : Owners Nat} {b : TcpClientAct} (hs : s.Inv)
    (hw : s.stack w = a :: rest) (ha : ¬ passive a) (hstate : s.state_ = .kConnecting)
    (hsole : sockets.SoleOwner s.sockets.constructed) (hfresh : sockets.Fresh)
    (hn : sockets.constructed = s.sockets.constructed + 1)
    (hb : b = .tryConnect s.sockets.constructed ∨ b = .connect s.sockets.constructed) :
    Inv { s with
      sockets := sockets
      stack := update s.stack w (b :: .destroy s.sockets.constructed :: rest) } := by
  obtain ⟨-, hpassive, hr, hc⟩ := hs.phase.ready hw ha
  have hscopes : ∀ v p, .destroy p ∈
      update s.stack w (b :: .destroy s.sockets.constructed :: rest) v → p < sockets.constructed := by
    apply hs.scopes_update (by omega)
    intro p hp
    rcases List.mem_cons.mp hp with heq | hp
    · rcases hb with rfl | rfl <;> cases heq
    · rcases List.mem_cons.mp hp with heq | hp
      · cases heq
        exact .inr (by omega)
      · exact .inl (hw ▸ List.mem_cons_of_mem a hp)
  have hheld : Held { s with
      sockets := sockets
      stack := update s.stack w (b :: .destroy s.sockets.constructed :: rest) } w
      s.sockets.constructed := by
    refine ⟨hsole, fun v hv hmem => ?_⟩
    have hmem : .destroy s.sockets.constructed ∈ update s.stack w _ v := hmem
    rw [Function.update_of_ne hv] at hmem
    exact absurd (hs.scopes v _ hmem) (lt_irrefl _)
  refine ⟨hs.fatal, hfresh, hscopes, hs.attempts, ?_⟩
  refine .active (w := w) (Function.update_self w _ _) ?_ ?_ hr hc
  · rcases hb with rfl | rfl <;> exact ⟨hstate, hheld⟩
  · show Stacks.All _ (update (update s.stack w _) w _)
    rw [Function.update_idem]
    exact Stacks.all_cons hpassive trivial

/-- The thread that has advanced still holds its socket. -/
theorem Held.advance {sock : Nat} {l : List TcpClientAct} (hs : s.Held w sock)
    (hstack : t.stack = update s.stack w l) (hsockets : t.sockets = s.sockets) :
    t.Held w sock := by
  refine ⟨hsockets ▸ hs.sole, fun v hv => ?_⟩
  rw [hstack, Function.update_of_ne hv]
  exact hs.scope v hv

/-- An act of the thread that goes on connecting. -/
theorem inv_ready (env : TcpClientEnv) (hs : s.Inv) (hw : s.stack w = a :: rest) (ha : ¬ passive a)
    (henv : env.connect.switch ≠ .failure)
    (hscope : ∀ sock, a = .retry sock → s.sockets.object sock ≠ .destroyed) :
    Inv { (s.act env a).1 with stack := update s.stack w ((s.act env a).2 ++ rest) } := by
  obtain ⟨hready, hpassive, hr, hc⟩ := hs.phase.ready hw ha
  have hrest : ∀ b ∈ rest, b ∈ s.stack w := fun b hb => hw ▸ List.mem_cons_of_mem a hb
  have hscopes : ∀ b, (∀ p, b ≠ .destroy p) → ∀ v p, .destroy p ∈ update s.stack w (b :: rest) v →
      p < s.sockets.constructed := by
    refine fun b hb => hs.scopes_update le_rfl fun p hp => .inl ?_
    exact hrest _ ((List.mem_cons.mp hp).resolve_left fun h => hb p h.symm)
  cases a with
  | create =>
    exact inv_construct hs hw ha hready.1 (hready.2.construct _) (hs.fresh.construct _) rfl
      (.inl rfl)
  | tryConnect sock =>
    obtain ⟨sockets, hmove, hsole, hfresh, hn⟩ := hready.2.sole.move hs.fresh
    simp only [act, moveSocket, hmove]
    exact inv_construct hs hw ha hready.1 hsole hfresh hn (.inr rfl)
  | retry sock =>
    have hsock := hready.2.resolve_right (hscope sock rfl)
    obtain ⟨sockets, hmove, hsole, hfresh, hn⟩ := hsock.move hs.fresh
    simp only [act, moveSocket, hmove]
    exact inv_construct hs hw ha hready.1 hsole hfresh hn (.inl rfl)
  | connect sock =>
    have hattempts : ∀ attempt ∈ s.attempts ++ [⟨s.sockets.holdsOpen sock, env.connect⟩],
        attempt.isOpen = true := by
      intro attempt hmem
      rcases List.mem_append.mp hmem with hmem | hmem
      · exact hs.attempts attempt hmem
      · rw [List.mem_singleton.mp hmem]
        exact hready.2.sole.holds
    cases hcase : env.connect.switch with
    | failure => exact absurd hcase henv
    | success =>
      simp only [act, hcase]
      exact ⟨hs.fatal, hs.fresh, hscopes _ (by simp), hattempts,
        .active (w := w) (Function.update_self w _ _)
          ⟨hready.1, hready.2.advance rfl rfl⟩ (by simpa using hpassive) hr hc⟩
    | retry =>
      simp only [act, hcase]
      exact ⟨hs.fatal, hs.fresh, hscopes _ (by simp), hattempts,
        .active (w := w) (Function.update_self w _ _)
          ⟨hready.1, hready.2.advance rfl rfl⟩ (by simpa using hpassive) hr hc⟩
  | connected sock =>
    simp only [act, if_pos hready.1]
    exact ⟨hs.fatal, hs.fresh, hscopes _ (by simp), hs.attempts,
      .active (w := w) (Function.update_self w _ _)
        ⟨rfl, hready.2.advance rfl rfl⟩ (by simpa using hpassive) hr hc⟩
  | makeConn sock =>
    obtain ⟨sockets, hmove, hsole, hfresh, hn⟩ := hready.2.sole.move hs.fresh
    simp only [act, hmove]
    refine ⟨hs.fatal, hfresh, fun v p hp => ?_, hs.attempts,
      .done hready.1 (Stacks.all_cons hpassive trivial) hr ?_⟩
    · have := hscopes .startConn (by simp) v p hp
      show p < sockets.constructed
      omega
    · show s.connections + 1 = 1
      omega
  | submitAfter sock =>
    -- the retry refers to the parameter, whose scope is still on the stack
    have hretries : s.retries ++ [sock] = [sock] := by rw [hr, List.nil_append]
    refine ⟨hs.fatal, hs.fresh, ?_, hs.attempts,
      .waiting hready.1 (.inl hready.2.sole) hpassive hretries hc⟩
    exact hs.scopes_update le_rfl fun p hp => .inl (hrest _ hp)
  | _ => exact hready.elim

/-- The call of `Start` that gets through. -/
theorem inv_firstStart (env : TcpClientEnv) (hs : s.Inv) (hw : s.stack w = .start :: rest)
    (hstate : s.state_ = .kOffline) :
    Inv { (s.act env .start).1 with
      stack := update s.stack w ((s.act env .start).2 ++ rest) } := by
  have hact : s.act env .start = ({ s with state_ := .kConnecting }, [.create]) := if_pos hstate
  rw [hact]
  refine ⟨hs.fatal, hs.fresh, hs.scopes_update le_rfl fun p hp => ?_, hs.attempts, ?_⟩
  · refine .inl (hw ▸ List.mem_cons_of_mem _ ?_)
    exact (List.mem_cons.mp hp).resolve_left fun h => by cases h
  · cases hs.phase with
    | @active v a _ _ hready =>
      -- every act of the connecting thread comes after `kOffline`
      cases a <;> simp_all [Ready]
    | waiting h => simp [hstate] at h
    | done h => simp [hstate] at h
    | offline _ hnone hpassive hr hc =>
      refine .active (Function.update_self w _ _) ⟨rfl, hnone⟩ ?_ hr hc
      show Stacks.All _ (update (update s.stack w _) w rest)
      rw [Function.update_idem]
      exact Stacks.all_begin hpassive fun b hb => hpassive w b (hw ▸ List.mem_cons_of_mem _ hb)

omit [DecidableEq W] in
theorem inScope_act_iff {env : TcpClientEnv} (hw : s.stack w = a :: rest) :
    InScope (.act w env) s ↔ ∀ sock, a = .retry sock → s.sockets.object sock ≠ .destroyed := by
  unfold InScope
  dsimp only
  split
  · rename_i sock _ heq
    rw [hw, List.cons.injEq] at heq
    simp [heq.1]
  · rename_i hne
    apply iff_of_true trivial
    intro sock ha
    exact absurd (ha ▸ hw) (hne sock rest)

/-- What a step of connecting preserves, if a retry begins in scope; otherwise the behaviour is
undefined from there on. -/
theorem inv_step {l : TcpClientLabel W} (hs : s.Inv) (hl : Connects l) (h : step l s = some t) :
    InScope l s ∧ t.Inv ∨ ¬ InScope l s ∧ t.fatal ≠ none := by
  obtain ⟨-, hmoves⟩ := moves_of_step h
  cases hmoves with
  | @call w api hw =>
    obtain rfl : api = .start := hl
    have hidle : ∀ b r, s.stack w = b :: r → passive b := fun b r h => by simp [hw] at h
    refine .inl ⟨trivial, hs.fatal, hs.fresh, hs.scopes_update le_rfl fun p hp => ?_, hs.attempts,
      hs.phase.congr hidle rfl (fun b hb => .inr ?_) rfl rfl rfl (.inl rfl)⟩
    · simp at hp
    · rw [List.mem_singleton.mp hb]
      exact ⟨trivial, fun p h => by cases h⟩
  | onClose => exact hl.elim
  | @timer w i sock hi hw =>
    refine .inl ⟨trivial, hs.fatal, hs.fresh, hs.scopes_update le_rfl fun p hp => ?_, hs.attempts, ?_⟩
    · simp at hp
    · cases hs.phase with
      | offline _ _ _ hr | active _ _ _ hr | done _ _ hr => simp [hr] at hi
      | @waiting o hstate hsock hpassive hr hc =>
        rw [hr, List.getElem?_singleton] at hi
        split_ifs at hi with hi0
        obtain rfl := Option.some.inj hi
        refine .active (Function.update_self w _ _) ⟨hstate, hsock⟩ ?_ ?_ hc
        · show Stacks.All _ (update (update s.stack w _) w [])
          rw [Function.update_idem]
          exact Stacks.all_begin hpassive (by simp)
        · show s.retries.eraseIdx i = []
          rw [hr, hi0]
          rfl
  | @act w env a rest hw =>
    rw [inScope_act_iff hw]
    by_cases ha : passive a
    · refine .inl ⟨fun sock heq => ?_, ?_⟩
      · subst heq
        exact ha.elim
      · by_cases hstart : a = .start ∧ s.state_ = .kOffline
        · obtain ⟨rfl, hstate⟩ := hstart
          exact inv_firstStart env hs hw hstate
        · exact inv_passive env hs hw ha fun heq hstate => hstart ⟨heq, hstate⟩
    · -- a retry moves from its socket, which is in scope or has been destroyed
      by_cases hscope : ∀ sock, a = .retry sock → s.sockets.object sock ≠ .destroyed
      · exact .inl ⟨hscope, inv_ready env hs hw ha hl hscope⟩
      · refine .inr ⟨hscope, ?_⟩
        push Not at hscope
        obtain ⟨sock, rfl, hdead⟩ := hscope
        simp [act, moveSocket, Owners.move, hdead]

theorem inv_new : (new : TcpClient W).Inv where
  fatal := rfl
  fresh := Owners.fresh_empty
  scopes _ _ h := by cases h
  attempts _ h := by cases h
  phase := .offline rfl Owners.noOwner_empty (fun _ _ h => by cases h) rfl rfl

/-- A run of connecting keeps the invariant as long as every retry begins in scope; otherwise it ends
undefined. -/
theorem inv_run {ls : List (TcpClientLabel W)} (hls : ∀ l ∈ ls, Connects l) (hs : s.Inv)
    (h : (tcpClient W).run ls s = some t) :
    (tcpClient W).AllSteps InScope ls s ∧ t.Inv ∨
      ¬ (tcpClient W).AllSteps InScope ls s ∧ t.fatal ≠ none := by
  induction ls generalizing s with
  | nil =>
    obtain rfl := Option.some.inj h
    exact .inl ⟨trivial, hs⟩
  | cons l ls ih =>
    obtain ⟨u, hu, hrun⟩ := Option.bind_eq_some_iff.mp h
    have hls' : ∀ m ∈ ls, Connects m := fun m hm => hls m (List.mem_cons_of_mem l hm)
    rcases inv_step hs (hls l List.mem_cons_self) hu with ⟨hscope, hinv⟩ | ⟨hscope, hfatal⟩
    · rcases ih hls' hinv hrun with ⟨hall, ht⟩ | ⟨hnot, ht⟩
      · refine .inl ⟨fun v hv => ?_, ht⟩
        obtain rfl := Option.some.inj (hu.symm.trans hv)
        exact ⟨hscope, hall⟩
      · exact .inr ⟨fun hall => hnot (hall u hu).2, ht⟩
    · -- nothing runs after that
      refine .inr ⟨fun hall => hscope (hall u hu).1, ?_⟩
      cases ls with
      | nil =>
        obtain rfl := Option.some.inj hrun
        exact hfatal
      | cons m ls =>
        obtain ⟨v, hv, -⟩ := Option.bind_eq_some_iff.mp hrun
        exact absurd (moves_of_step hv).1 hfatal

theorem Inv.works (hs : s.Inv) (hrest : s.AtRest) : s.Works := by
  obtain ⟨hstate, hstack, hretries⟩ := hrest.resolve_left (not_not.mpr hs.fatal)
  cases hs.phase with
  | offline h => exact absurd h hstate
  | active hw => simp [hstack] at hw
  | waiting _ _ _ hr => simp [hretries] at hr
  | done h _ _ hc => exact ⟨hs.fatal, hs.attempts, h, hc⟩

end Connecting

/-- **Connecting works**: a run in which `::connect` fails with errors to be retried, or succeeds,
ends with one connection made on an open socket exactly when every retry begins inside the scope of
the socket it refers to. -/
theorem works_iff {ls : List (TcpClientLabel W)} {t : TcpClient W} (hls : ∀ l ∈ ls, Connects l)
    (h : (tcpClient W).run ls new = some t) (hrest : t.AtRest) :
    t.Works ↔ (tcpClient W).AllSteps InScope ls new := by
  rcases inv_run hls inv_new h with ⟨hall, hinv⟩ | ⟨hnot, hfatal⟩
  · exact iff_of_true (hinv.works hrest) hall
  · exact iff_of_false (fun hw => hfatal hw.fatal) hnot

/-- The first attempt succeeds. -/
theorem works_iff_connectAtOnce : (tcpClient Unit).AllSteps InScope connectAtOnce new := by
  have hls : ∀ l ∈ connectAtOnce, Connects l := by
    simp [connectAtOnce, Connects, ConnectStatus.switch]
  exact (works_iff hls rfl (.inr ⟨by decide, fun _ => rfl, rfl⟩)).mp
    ⟨rfl, by decide, rfl, rfl⟩

/-- The first attempt is refused, and its retry runs when `Start` has returned. -/
def connectionRefused : List (TcpClientLabel Unit) :=
  .call () .start :: List.replicate 8 (.act () ⟨.ECONNREFUSED, []⟩) ++
    [.timer () 0, .act () ⟨.ECONNREFUSED, []⟩]

/-- The retry moves from a socket that does not exist any more. -/
theorem connectionRefused_not_works : (∀ l ∈ connectionRefused, Connects l) ∧
    ∃ t, (tcpClient Unit).run connectionRefused new = some t ∧ t.AtRest ∧ ¬ t.Works := by
  refine ⟨by simp [connectionRefused, Connects, ConnectStatus.switch], _, rfl, .inl (by decide), ?_⟩
  intro hworks
  cases hworks.fatal

end TcpClient

end Lizlib
