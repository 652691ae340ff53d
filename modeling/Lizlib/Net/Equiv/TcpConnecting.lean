import Lizlib.Net.Equiv.TcpClient
import Lizlib.Net.TcpConnecting

/-!
# A client that is connected before its connection is

There is one chain of attempts, and it ends with the first `connect` that returns 0, `EINPROGRESS`,
`EINTR` or `EISCONN` (`Committed`): nothing after that submits a retry.  So the client is honest
about its connection exactly when the connection has been established by the time `tryConnect` makes
the transition, and no connection fails later with an error that is to be retried (`honest_iff`).
-/

namespace Lizlib

namespace TcpClient

open Function (update)

variable {W : Type*}

/-- The number of attempts an act can still make, or go on with. -/
def chained : TcpClientAct → Nat
  | .create | .tryConnect _ | .connect _ | .connected _ | .submitAfter _ | .retry _ => 1
  | _ => 0

/-- The number of attempts an act can still make. -/
def trying : TcpClientAct → Nat
  | .create | .tryConnect _ | .connect _ | .submitAfter _ | .retry _ => 1
  | _ => 0

/-- `Start` has got through. -/
def begun (s : TcpClient W) : Nat := if s.state_ = .kOffline then 0 else 1

/-- There is one chain of attempts, from the `Start` that gets through on. -/
def Chained (s : TcpClient W) : Prop :=
  ∀ F, Stacks.weight F chained s.stack + s.retries.length ≤ s.begun

/-- No attempt will be made any more, and no retry will be submitted. -/
structure Committed (s : TcpClient W) : Prop where
  state_ : s.state_ ≠ .kOffline
  retries : s.retries = []
  stack : Stacks.All (fun _ a => trying a = 0) s.stack

theorem begun_le (s : TcpClient W) : s.begun ≤ 1 := by
  unfold begun
  split_ifs <;> omega

theorem sum_chained_calls (calls : List TcpClientApi) :
    ((calls.map TcpClientAct.call).map chained).sum = 0 := by
  induction calls with
  | nil => rfl
  | cons api calls ih =>
    rw [List.map_cons, List.map_cons, List.sum_cons, ih]
    rfl

/-- A thread is about to submit a retry. -/
def Pending (s : TcpClient W) : Prop := ∃ w sock rest, s.stack w = .submitAfter sock :: rest

/-- The acts between the transition and the end of `conn_->Start()`. -/
def starts (a : TcpClientAct) : Prop := a = .startConn ∨ ∃ sock, a = .makeConn sock

theorem Committed.not_pending {s : TcpClient W} (h : Committed s) : ¬ Pending s := by
  rintro ⟨w, sock, rest, hw⟩
  have htrying := h.stack.head hw
  cases htrying

/-- An act hands the chain on. -/
theorem chained_act (env : TcpClientEnv) (s : TcpClient W) (a : TcpClientAct) :
    ((s.act env a).2.map chained).sum + (s.act env a).1.retries.length + s.begun ≤
      chained a + s.retries.length + (s.act env a).1.begun := by
  have hle := s.begun_le
  cases a with
  | call api => cases api <;> simp [act, chained]
  | start =>
    by_cases hstate : s.state_ = .kOffline
    · simp [act, hstate, begun, chained]
      omega
    · simp [act, hstate, chained]
  | tryConnect sock | retry sock =>
    simp only [act, moveSocket]
    cases s.sockets.move sock with
    | none =>
      show 0 + s.retries.length + s.begun ≤ 1 + s.retries.length + s.begun
      omega
    | some sockets => exact Nat.le_refl _
  | connect sock =>
    simp only [act]
    cases env.connect.switch with
    | failure =>
      show 0 + s.retries.length + s.begun ≤ 1 + s.retries.length + s.begun
      omega
    | _ => exact Nat.le_refl _
  | connected sock =>
    by_cases hstate : s.state_ = .kConnecting
    · simp [act, hstate, begun, chained]
    · simp [act, hstate, chained]
  | makeConn sock =>
    simp only [act]
    cases s.sockets.move sock <;> exact Nat.le_refl _
  | submitAfter sock =>
    simp only [act]
    show 0 + (s.retries ++ [sock]).length + s.begun ≤ 1 + s.retries.length + s.begun
    rw [List.length_append, List.length_singleton]
    omega
  | disconnecting op =>
    by_cases hstate : s.state_ = .kConnected
    · simp [act, hstate, begun, chained]
    · simp [act, hstate, chained]
  | ifConn op =>
    simp only [act]
    split_ifs <;> exact Nat.le_refl _
  | customOnClose =>
    simp only [act]
    rw [sum_chained_calls]
    simp [chained]
  | disconnected =>
    show 0 + s.retries.length + s.begun ≤ 0 + s.retries.length + 1
    omega
  | create | startConn | destroy | onConn | resetConn => exact Nat.le_refl _

/-- After the chain has ended, no act begins another. -/
theorem trying_act {s : TcpClient W} (hs : s.state_ ≠ .kOffline) (env : TcpClientEnv)
    {a : TcpClientAct} (ha : trying a = 0) :
    (∀ b ∈ (s.act env a).2, trying b = 0) ∧ (s.act env a).1.retries = s.retries ∧
      (s.act env a).1.state_ ≠ .kOffline := by
  cases a with
  | call api => cases api <;> simp [act, trying, hs]
  | start => simp [act, hs]
  | connected sock =>
    simp only [act]
    split_ifs <;> simp [trying, hs]
  | makeConn sock =>
    simp only [act]
    cases s.sockets.move sock <;> simp [trying, hs]
  | disconnecting op | ifConn op =>
    simp only [act]
    split_ifs <;> simp [trying, hs]
  | customOnClose =>
    refine ⟨?_, rfl, hs⟩
    intro b hb
    obtain ⟨api, -, rfl⟩ := List.mem_map.mp hb
    rfl
  | disconnected => simp [act]
  | startConn | destroy | onConn | resetConn => exact ⟨by simp [act], rfl, hs⟩
  | create | tryConnect | connect | submitAfter | retry => cases ha

variable [DecidableEq W]

theorem eq_of_act {s c : TcpClient W} {w : W} {env : TcpClientEnv} {a : TcpClientAct}
    {rest : List TcpClientAct} (h : step (.act w env) s = some c) (hw : s.stack w = a :: rest) :
    c = { (s.act env a).1 with stack := update s.stack w ((s.act env a).2 ++ rest) } := by
  obtain ⟨-, hmoves⟩ := moves_of_step h
  cases hmoves with
  | act hw' =>
    obtain ⟨rfl, rfl⟩ := List.cons.inj (hw.symm.trans hw')
    rfl

theorem chained_step {l : TcpClientLabel W} {s t : TcpClient W} (hs : Chained s)
    (h : step l s = some t) : Chained t := by
  obtain ⟨-, hmoves⟩ := moves_of_step h
  intro F
  cases hmoves with
  | @call w api hw =>
    have hbegin := Stacks.weight_begin F chained [.call api] hw
    have hbefore := hs (insert w F)
    have hnew : (([.call api] : List TcpClientAct).map chained).sum = 0 := rfl
    show Stacks.weight F chained (update s.stack w _) + s.retries.length ≤ s.begun
    omega
  | @act w env a rest hw =>
    have hadvance := Stacks.weight_advance F chained (s.act env a).2 hw
    have hbefore := hs (insert w F)
    have hact := chained_act env s a
    show Stacks.weight F chained (update s.stack w _) + (s.act env a).1.retries.length ≤
      (s.act env a).1.begun
    omega
  | @timer w i sock hi hw =>
    have hbegin := Stacks.weight_begin F chained [.retry sock] hw
    have hbefore := hs (insert w F)
    have hnew : (([.retry sock] : List TcpClientAct).map chained).sum = 1 := rfl
    have hlt : i < s.retries.length := (List.getElem?_eq_some_iff.mp hi).1
    show Stacks.weight F chained (update s.stack w _) + (s.retries.eraseIdx i).length ≤ s.begun
    rw [List.length_eraseIdx_of_lt hlt]
    omega
  | @onClose w hw =>
    have hbegin := Stacks.weight_begin F chained [.customOnClose, .disconnected, .resetConn] hw
    have hbefore := hs (insert w F)
    have hnew : (([.customOnClose, .disconnected, .resetConn] : List TcpClientAct).map chained).sum =
        0 := rfl
    show Stacks.weight F chained (update s.stack w _) + s.retries.length ≤ s.begun
    omega

theorem committed_step {l : TcpClientLabel W} {s t : TcpClient W} (hs : Committed s)
    (h : step l s = some t) : Committed t := by
  obtain ⟨-, hmoves⟩ := moves_of_step h
  cases hmoves with
  | call hw => exact ⟨hs.state_, hs.retries, Stacks.all_begin hs.stack (by simp [trying])⟩
  | @act w env a rest hw =>
    obtain ⟨hnew, hretries, hstate⟩ := trying_act hs.state_ env (hs.stack.head hw)
    exact ⟨hstate, hretries.trans hs.retries, Stacks.all_advance hs.stack hw hnew⟩
  | timer hi =>
    rw [hs.retries] at hi
    cases hi
  | onClose hw => exact ⟨hs.state_, hs.retries, Stacks.all_begin hs.stack (by simp [trying])⟩

omit [DecidableEq W] in
/-- Only the transition leads to `conn_->Start()`. -/
theorem starts_act {env : TcpClientEnv} {s : TcpClient W} {a b : TcpClientAct}
    (hb : b ∈ (s.act env a).2) (hstarts : starts b) :
    starts a ∨ s.state_ = .kConnecting ∧ ∃ sock, a = .connected sock := by
  have hno : ∀ {l : List TcpClientAct}, b ∈ l → (∀ c ∈ l, ¬ starts c) →
      starts a ∨ s.state_ = .kConnecting ∧ ∃ sock, a = .connected sock :=
    fun hmem hnone => absurd hstarts (hnone b hmem)
  cases a with
  | connected sock =>
    simp only [act] at hb
    split_ifs at hb with hstate
    · exact Or.inr ⟨hstate, sock, rfl⟩
    · cases hb
  | makeConn sock => exact Or.inl (Or.inr ⟨sock, rfl⟩)
  | customOnClose =>
    obtain ⟨api, -, rfl⟩ := List.mem_map.mp hb
    rcases hstarts with h | ⟨sock, h⟩ <;> cases h
  | call api => cases api <;> exact hno hb (by simp [act, starts])
  | start | disconnecting op | ifConn op =>
    simp only [act] at hb
    split_ifs at hb <;> exact hno hb (by simp [starts])
  | tryConnect sock | retry sock =>
    simp only [act, moveSocket] at hb
    split at hb <;> exact hno hb (by simp [starts])
  | connect sock =>
    simp only [act] at hb
    split at hb <;> exact hno hb (by simp [starts])
  | create | startConn | submitAfter | destroy | onConn | disconnected | resetConn =>
    exact hno hb (by simp [act, starts])

theorem starts_step {l : TcpClientLabel W} {s t : TcpClient W} (h : step l s = some t)
    (ht : Stacks.Any starts t.stack) : Stacks.Any starts s.stack ∨
      s.state_ = .kConnecting ∧ ∃ w env sock rest, l = .act w env ∧ s.stack w = .connected sock :: rest := by
  obtain ⟨-, hmoves⟩ := moves_of_step h
  cases hmoves with
  | call hw =>
    rcases (Stacks.any_begin hw).mp ht with ⟨b, hb, hstarts⟩ | hs
    · rw [List.mem_singleton.mp hb] at hstarts
      rcases hstarts with h | ⟨sock, h⟩ <;> cases h
    · exact Or.inl hs
  | @act w env a rest hw =>
    rcases Stacks.any_advance hw ht with ⟨b, hb, hstarts⟩ | hs
    · rcases starts_act hb hstarts with ha | ⟨hstate, sock, rfl⟩
      · exact Or.inl (Stacks.Any.head hw ha)
      · exact Or.inr ⟨hstate, w, env, sock, rest, rfl, hw⟩
    · exact Or.inl hs
  | timer hi hw =>
    rcases (Stacks.any_begin hw).mp ht with ⟨b, hb, hstarts⟩ | hs
    · rw [List.mem_singleton.mp hb] at hstarts
      rcases hstarts with h | ⟨sock, h⟩ <;> cases h
    · exact Or.inl hs
  | onClose hw =>
    rcases (Stacks.any_begin hw).mp ht with ⟨b, hb, hstarts⟩ | hs
    · simp only [List.mem_cons, List.not_mem_nil, or_false] at hb
      rcases hb with rfl | rfl | rfl <;> rcases hstarts with h | ⟨sock, h⟩ <;> cases h
    · exact Or.inl hs

/-- Only its own thread submits the retry. -/
theorem pending_step {l : TcpClientLabel W} {s t : TcpClient W} (hs : Pending s)
    (h : step l s = some t)
    (hl : ∀ w env sock rest, l = .act w env → s.stack w ≠ .submitAfter sock :: rest) : Pending t := by
  obtain ⟨v, sock, rest, hv⟩ := hs
  obtain ⟨-, hmoves⟩ := moves_of_step h
  have hother : ∀ {w : W} {l : List TcpClientAct}, v ≠ w →
      update s.stack w l v = .submitAfter sock :: rest := by
    intro w l hvw
    rw [Function.update_of_ne hvw]
    exact hv
  cases hmoves with
  | call hw | timer hi hw | onClose hw =>
    refine ⟨v, sock, rest, hother ?_⟩
    rintro rfl
    cases hw.symm.trans hv
  | act hw =>
    refine ⟨v, sock, rest, hother ?_⟩
    rintro rfl
    exact hl _ _ _ _ rfl hv

section Act

variable {w : W} {env : TcpClientEnv} {s t : TcpClient W} {a : TcpClientAct}
  {rest : List TcpClientAct} (h : step (.act w env) s = some t) (hw : s.stack w = a :: rest)

include h hw

/-- Any other act leaves the retry to be submitted. -/
theorem pending_of_act (ha : ∀ sock, a ≠ .submitAfter sock) (hs : Pending s) : Pending t := by
  apply pending_step hs h
  intro v e sock r hl hv
  obtain ⟨rfl, -⟩ := TcpClientLabel.act.inj hl
  have hsame := hw.symm.trans hv
  exact ha sock (List.cons.inj hsame).1

/-- Any other act than the transition leads no thread to `conn_->Start()`. -/
theorem starts_of_act (ha : ∀ sock, a ≠ .connected sock) (ht : Stacks.Any starts t.stack) :
    Stacks.Any starts s.stack := by
  rcases starts_step h ht with hany | ⟨-, v, e, sock, r, hl, hv⟩
  · exact hany
  · obtain ⟨rfl, -⟩ := TcpClientLabel.act.inj hl
    have hsame := hw.symm.trans hv
    exact absurd (List.cons.inj hsame).1 (ha sock)

end Act

/-- **The chain ends** with a `connect` that does not fail. -/
theorem committed_connect {w : W} {env : TcpClientEnv} {sock : Nat} {rest : List TcpClientAct}
    {s : TcpClient W} (hs : Chained s) (hw : s.stack w = .connect sock :: rest)
    (hcase : env.connect.switch = .success) :
    Committed { (s.act env (.connect sock)).1 with
      stack := update s.stack w ((s.act env (.connect sock)).2 ++ rest) } := by
  have hle : ∀ a, trying a ≤ chained a := by
    intro a
    cases a <;> simp [trying, chained]
  have hone : ∀ F, 1 ≤ Stacks.weight (insert w F) chained s.stack := by
    intro F
    have hupdate := Stacks.weight_update (S := s.stack) (insert w F) chained
      (Finset.mem_insert_self w F) []
    rw [hw] at hupdate
    simp only [List.map_cons, List.sum_cons, chained, List.map_nil, List.sum_nil] at hupdate
    omega
  -- `Start` has begun, as a thread connects
  have hstart := hs (insert w ∅)
  have hfirst := hone ∅
  have hbegun := s.begun_le
  have hstate : s.state_ ≠ .kOffline := by
    intro hoff
    have hzero : s.begun = 0 := if_pos hoff
    omega
  refine ⟨hstate, List.length_eq_zero_iff.mp ?_, Stacks.all_of_weight fun F => ?_⟩
  · show s.retries.length = 0
    omega
  · have hadvance := Stacks.weight_advance F trying (s.act env (.connect sock)).2 hw
    -- the chain was on this stack, so no other stack has it and no retry is owed
    have hmono := Stacks.weight_mono (insert w F) hle s.stack
    have hbefore := hs (insert w F)
    have hnew : ((s.act env (.connect sock)).2.map trying).sum = 0 := by
      simp only [act, hcase]
      rfl
    have htrying : trying (.connect sock) = 1 := rfl
    show Stacks.weight F trying (update s.stack w _) = 0
    omega

end TcpClient

namespace TcpConnecting

open Function (update)
open TcpClient (Committed Chained Pending starts chained trying)

variable {W : Type*}

/-- What holds along every schedule. -/
structure Inv (s : TcpConnecting W) : Prop where
  chained : Chained s.client
  /-- After a `connect` that has not failed there is no other. -/
  committed : s.link = .connecting ∨ s.link = .established → Committed s.client
  owing : s.owed = true → Pending s.client ∨ Committed s.client
  /-- `conn_->Start()` comes after the transition. -/
  starting : Stacks.Any starts s.client.stack → s.connected ≠ []

variable [DecidableEq W]

/-- **Connected means connected**: the client is connected, and its handler is told so, once the
connection has been established; and a failure that is to be retried leads to a retry, whether
`connect` returns it or the kernel reports it later. -/
structure Honest (s : TcpConnecting W) : Prop where
  connected : ∀ link ∈ s.connected, link = .established
  onConnect : ∀ link ∈ s.onConnect, link = .established
  retried : s.client.fatal = none → s.ended = false → s.owed = true →
    (tcpConnecting W).Leads (fun _ => True) (fun t => t.owed = false) s

/-- `tryConnect` makes the transition when the connection has been established, and no connection
fails later with an error that is to be retried. -/
def Established : ConnectingLabel W → TcpConnecting W → Prop
  | .client l, s =>
    match s.current l with
    | some (.connected _, _) => s.client.state_ = .kConnecting → s.link = .established
    | _ => True
  | .fail error, _ => error.switch ≠ .retry
  | _, _ => True

/-! ### Steps -/

/-- One step from `s`, by its label. -/
inductive Moves (s : TcpConnecting W) : ConnectingLabel W → TcpConnecting W → Prop
  | connect {w : W} {env : TcpClientEnv} {sock : Nat} {rest : List TcpClientAct}
      (hw : s.client.stack w = .connect sock :: rest) {c : TcpClient W}
      (hc : s.client.step (.act w env) = some c) :
      Moves s (.client (.act w env)) { s with
        client := c
        link := env.connect.link
        owed := s.owed || env.connect.switch = .retry }
  | connected {w : W} {env : TcpClientEnv} {sock : Nat} {rest : List TcpClientAct}
      (hw : s.client.stack w = .connected sock :: rest) {c : TcpClient W}
      (hc : s.client.step (.act w env) = some c) :
      Moves s (.client (.act w env)) { s with
        client := c
        connected :=
          if s.client.state_ = .kConnecting then s.connected ++ [s.link] else s.connected }
  | submitAfter {w : W} {env : TcpClientEnv} {sock : Nat} {rest : List TcpClientAct}
      (hw : s.client.stack w = .submitAfter sock :: rest) {c : TcpClient W}
      (hc : s.client.step (.act w env) = some c) :
      Moves s (.client (.act w env)) { s with client := c, owed := false }
  | other {l : TcpClientLabel W} {c : TcpClient W} (hc : s.client.step l = some c)
      (hl : ∀ a env, s.current l = some (a, env) →
        ∀ sock, a ≠ .connect sock ∧ a ≠ .connected sock ∧ a ≠ .submitAfter sock) :
      Moves s (.client l) { s with client := c }
  | establish (hlink : s.link = .connecting) : Moves s .establish { s with link := .established }
  | fail {error : ConnectStatus} (hlink : s.link = .connecting) :
      Moves s (.fail error) { s with
        link := .failed error
        owed := s.owed || error.switch = .retry }
  | onConnect {w : W} {rest : List TcpClientAct} (hw : s.client.stack w = .startConn :: rest)
      {info : Bool} : Moves s (.onConnect w info) { s with onConnect := [s.link] }
  | ends {w : W} {rest : List TcpClientAct} (hw : s.client.stack w = .startConn :: rest)
      {info : Bool} (hlink : s.link ≠ .established) :
      Moves s (.onConnect w info) { s with ended := true }

omit [DecidableEq W] in
theorem current_eq_some {s : TcpConnecting W} {l : TcpClientLabel W} {a : TcpClientAct}
    {env : TcpClientEnv} (h : s.current l = some (a, env)) :
    ∃ w rest, l = .act w env ∧ s.client.stack w = a :: rest := by
  cases l with
  | act w env' =>
    unfold current at h
    cases hw : s.client.stack w with
    | nil => simp [hw] at h
    | cons b rest =>
      simp only [hw, List.head?_cons, Option.map_some, Option.some.injEq, Prod.mk.injEq] at h
      obtain ⟨rfl, rfl⟩ := h
      exact ⟨w, rest, rfl, hw⟩
  | _ => cases h

omit [DecidableEq W] in
theorem current_of_stack {s : TcpConnecting W} {w : W} {env : TcpClientEnv} {a : TcpClientAct}
    {rest : List TcpClientAct} (hw : s.client.stack w = a :: rest) :
    s.current (.act w env) = some (a, env) := by
  show (s.client.stack w).head?.map _ = _
  rw [hw]
  rfl

/-- **Inversion of a step**. -/
theorem moves_of_step {l : ConnectingLabel W} {s t : TcpConnecting W} (h : step l s = some t) :
    (s.client.fatal = none ∧ s.ended = false) ∧ Moves s l t := by
  unfold step at h
  rw [Option.ite_none_left_eq_some, not_or, not_not, Bool.not_eq_true] at h
  obtain ⟨hlive, h⟩ := h
  refine ⟨hlive, ?_⟩
  cases l with
  | client l =>
    dsimp only at h
    rw [Option.ite_none_left_eq_some] at h
    obtain ⟨c, hc, rfl⟩ := Option.map_eq_some_iff.mp h.2
    cases hcurrent : s.current l with
    | none => exact .other hc (by simp [hcurrent])
    | some p =>
      obtain ⟨a, env⟩ := p
      obtain ⟨w, rest, rfl, hw⟩ := current_eq_some hcurrent
      cases a with
      | connect sock => exact .connect hw hc
      | connected sock => exact .connected hw hc
      | submitAfter sock => exact .submitAfter hw hc
      | _ => exact .other hc (by simp [hcurrent])
  | establish =>
    dsimp only at h
    split_ifs at h with hlink
    obtain rfl := Option.some.inj h
    exact .establish hlink
  | fail error =>
    dsimp only at h
    split_ifs at h with hlink
    obtain rfl := Option.some.inj h
    exact .fail hlink.1
  | onConnect w info =>
    dsimp only at h
    split at h
    · rename_i rest hw
      split_ifs at h with honce hfatal
      · obtain rfl := Option.some.inj h
        exact .ends hw hfatal.2
      · obtain rfl := Option.some.inj h
        exact .onConnect hw
    · cases h

section Step

variable {l : ConnectingLabel W} {s t : TcpConnecting W}

theorem inv_connect (hs : Inv s) {w : W} {env : TcpClientEnv} {sock : Nat}
    {rest : List TcpClientAct} (hw : s.client.stack w = .connect sock :: rest) {c : TcpClient W}
    (hc : s.client.step (.act w env) = some c) :
    Inv { s with
      client := c
      link := env.connect.link
      owed := s.owed || env.connect.switch = .retry } := by
  have hstack := TcpClient.eq_of_act hc hw
  refine ⟨TcpClient.chained_step hs.chained hc, ?_, ?_, ?_⟩
  · intro hlink
    have hcase : env.connect.switch = .success := by
      cases h : env.connect <;> simp [h, ConnectStatus.link] at hlink <;> rfl
    rw [hstack]
    exact TcpClient.committed_connect hs.chained hw hcase
  · intro howed
    by_cases hcase : env.connect.switch = .retry
    · refine Or.inl ⟨w, sock, rest, ?_⟩
      rw [hstack]
      simp [TcpClient.act, hcase]
    · have hold : s.owed = true := by simpa [hcase] using howed
      rcases hs.owing hold with hpending | hcommitted
      · exact Or.inl (TcpClient.pending_of_act hc hw (by simp) hpending)
      · exact Or.inr (TcpClient.committed_step hcommitted hc)
  · intro hstarts
    exact hs.starting (TcpClient.starts_of_act hc hw (by simp) hstarts)

theorem inv_step (hs : Inv s) (h : step l s = some t) : Inv t := by
  obtain ⟨-, hmoves⟩ := moves_of_step h
  cases hmoves with
  | connect hw hc => exact inv_connect hs hw hc
  | @connected w env sock rest hw c hc =>
    refine ⟨TcpClient.chained_step hs.chained hc,
      fun hlink => TcpClient.committed_step (hs.committed hlink) hc, ?_, ?_⟩
    · intro howed
      rcases hs.owing howed with hpending | hcommitted
      · exact Or.inl (TcpClient.pending_of_act hc hw (by simp) hpending)
      · exact Or.inr (TcpClient.committed_step hcommitted hc)
    · intro hstarts
      dsimp only
      split_ifs with hstate
      · simp
      · rcases TcpClient.starts_step hc hstarts with hany | ⟨hconnecting, -⟩
        · exact hs.starting hany
        · exact absurd hconnecting hstate
  | @submitAfter w env sock rest hw c hc =>
    refine ⟨TcpClient.chained_step hs.chained hc,
      fun hlink => TcpClient.committed_step (hs.committed hlink) hc, ?_, ?_⟩
    · intro howed
      cases howed
    intro hstarts
    exact hs.starting (TcpClient.starts_of_act hc hw (by simp) hstarts)
  | @other l c hc hl =>
    refine ⟨TcpClient.chained_step hs.chained hc,
      fun hlink => TcpClient.committed_step (hs.committed hlink) hc, ?_, ?_⟩
    · intro howed
      rcases hs.owing howed with hpending | hcommitted
      · refine Or.inl (TcpClient.pending_step hpending hc ?_)
        rintro v e p r rfl hv
        exact (hl _ _ (current_of_stack hv) p).2.2 rfl
      · exact Or.inr (TcpClient.committed_step hcommitted hc)
    · intro hstarts
      rcases TcpClient.starts_step hc hstarts with hany | ⟨-, v, e, p, r, rfl, hv⟩
      · exact hs.starting hany
      · exact absurd rfl (hl _ _ (current_of_stack hv) p).2.1
  | establish hlink => exact ⟨hs.chained, fun _ => hs.committed (Or.inl hlink), hs.owing, hs.starting⟩
  | fail hlink =>
    refine ⟨hs.chained, ?_, fun _ => Or.inr (hs.committed (Or.inl hlink)), hs.starting⟩
    rintro (h | h) <;> cases h
  | onConnect | ends => exact ⟨hs.chained, hs.committed, hs.owing, hs.starting⟩

/-! ### Retries -/

/-- Once the chain has ended, what is owed stays owed. -/
theorem owed_step (hs : Committed s.client ∧ s.owed = true) (h : step l s = some t) :
    Committed t.client ∧ t.owed = true := by
  obtain ⟨hcommitted, howed⟩ := hs
  obtain ⟨-, hmoves⟩ := moves_of_step h
  cases hmoves with
  | connect hw | submitAfter hw =>
    have htrying := hcommitted.stack.head hw
    cases htrying
  | connected hw hc => exact ⟨TcpClient.committed_step hcommitted hc, howed⟩
  | other hc => exact ⟨TcpClient.committed_step hcommitted hc, howed⟩
  | establish | onConnect | ends => exact ⟨hcommitted, howed⟩
  | fail =>
    refine ⟨hcommitted, ?_⟩
    show (s.owed || _) = true
    rw [howed, Bool.true_or]

/-- A retry comes if and only if a thread is about to submit it. -/
theorem leads_iff_pending (hs : Inv s) (hfatal : s.client.fatal = none) (hended : s.ended = false)
    (howed : s.owed = true) :
    (tcpConnecting W).Leads (fun _ => True) (fun t => t.owed = false) s ↔ Pending s.client := by
  constructor
  · intro hleads
    by_contra hpending
    have hcommitted := (hs.owing howed).resolve_left hpending
    refine System.not_leads (I := fun s => Committed s.client ∧ s.owed = true)
      (fun l s t hI _ h => owed_step hI h) ?_ ⟨hcommitted, howed⟩ hleads
    rintro s ⟨-, h⟩ hf
    rw [h] at hf
    cases hf
  · rintro ⟨w, sock, rest, hw⟩
    obtain ⟨c, hc⟩ : ∃ c, s.client.step (.act w ⟨.ok, []⟩) = some c := by
      unfold TcpClient.step
      rw [if_neg (not_not.mpr hfatal)]
      dsimp only
      rw [hw]
      exact ⟨_, rfl⟩
    have hcurrent : s.current (.act w ⟨.ok, []⟩) = some (.submitAfter sock, ⟨.ok, []⟩) :=
      current_of_stack hw
    have hstep : (tcpConnecting W).step (.client (.act w ⟨.ok, []⟩)) s =
        some { s with client := c, owed := false } := by
      show TcpConnecting.step (.client (.act w ⟨.ok, []⟩)) s = _
      unfold TcpConnecting.step awaits
      rw [if_neg (by simp [hfatal, hended])]
      dsimp only
      rw [hcurrent, hc]
      rfl
    exact System.Leads.step hstep trivial (System.Leads.here rfl)

/-! ### The exact condition -/

/-- Where the behaviour is defined, what is owed is about to be submitted. -/
theorem honest_of_pending (ht : Inv t) (hconnected : ∀ link ∈ t.connected, link = .established)
    (honConnect : ∀ link ∈ t.onConnect, link = .established)
    (hpending : t.owed = true → Pending t.client) : Honest t :=
  ⟨hconnected, honConnect, fun hfatal hended howed =>
    (leads_iff_pending ht hfatal hended howed).mpr (hpending howed)⟩

/-- After the transition the connection stays established. -/
theorem established_step (hs : Inv s) (hlink : s.connected ≠ [] → s.link = .established)
    (h : step l s = some t) (ht : Honest t) : t.connected ≠ [] → t.link = .established := by
  obtain ⟨-, hmoves⟩ := moves_of_step h
  cases hmoves with
  | connect hw =>
    intro hne
    have hcommitted := hs.committed (Or.inr (hlink hne))
    have htrying := hcommitted.stack.head hw
    cases htrying
  | connected hw hc =>
    intro hne
    by_cases hstate : s.client.state_ = .kConnecting
    · have hall := ht.connected
      dsimp only at hall
      rw [if_pos hstate] at hall
      exact hall s.link (by simp)
    · rw [if_neg hstate] at hne
      exact hlink hne
  | submitAfter | other | onConnect | ends => exact hlink
  | establish => exact fun _ => rfl
  | fail hconnecting =>
    intro hne
    rw [hlink hne] at hconnecting
    cases hconnecting

/-- The transition of `tryConnect`. -/
theorem honest_connected_iff (hhonest : Honest s) {w : W} {env : TcpClientEnv} {sock : Nat}
    {rest : List TcpClientAct} {c : TcpClient W}
    (ht : Inv { s with
      client := c
      connected := if s.client.state_ = .kConnecting then s.connected ++ [s.link] else s.connected })
    (hpending : s.owed = true → Pending s.client)
    (hw : s.client.stack w = .connected sock :: rest)
    (hc : s.client.step (.act w env) = some c) :
    Honest { s with
      client := c
      connected :=
        if s.client.state_ = .kConnecting then s.connected ++ [s.link] else s.connected } ↔
      Established (.client (.act w env)) s := by
  have hguard : Established (.client (.act w env)) s ↔
      (s.client.state_ = .kConnecting → s.link = .established) := by
    unfold Established
    dsimp only
    rw [current_of_stack hw]
  rw [hguard]
  constructor
  · intro hhonest' hstate
    have hall := hhonest'.connected
    dsimp only at hall
    rw [if_pos hstate] at hall
    exact hall s.link (by simp)
  · intro hestablished
    refine honest_of_pending ht ?_ hhonest.onConnect ?_
    · dsimp only
      split_ifs with hstate
      · intro link hmem
        rcases List.mem_append.mp hmem with hmem | hmem
        · exact hhonest.connected link hmem
        · rw [List.mem_singleton.mp hmem]
          exact hestablished hstate
      · exact hhonest.connected
    · intro howed
      exact TcpClient.pending_of_act hc hw (by simp) (hpending howed)

/-- **One step**. -/
theorem honest_step_iff (hs : Inv s) (hlink : s.connected ≠ [] → s.link = .established)
    (hhonest : Honest s) (h : step l s = some t) : Honest t ↔ Established l s := by
  have ht := inv_step hs h
  obtain ⟨⟨hfatal, hended⟩, hmoves⟩ := moves_of_step h
  have hpending : s.owed = true → Pending s.client := fun howed =>
    (leads_iff_pending hs hfatal hended howed).mp (hhonest.retried hfatal hended howed)
  cases hmoves with
  | @connect w env sock rest hw c hc =>
    refine iff_of_true (honest_of_pending ht hhonest.connected hhonest.onConnect ?_) ?_
    · intro howed
      by_cases hcase : env.connect.switch = .retry
      · refine ⟨w, sock, rest, ?_⟩
        rw [TcpClient.eq_of_act hc hw]
        simp [TcpClient.act, hcase]
      · have hold : s.owed = true := by simpa [hcase] using howed
        exact TcpClient.pending_of_act hc hw (by simp) (hpending hold)
    · show (match s.current (.act w env) with | some (.connected _, _) => _ | _ => True)
      rw [current_of_stack hw]
      trivial
  | connected hw hc => exact honest_connected_iff hhonest ht hpending hw hc
  | @submitAfter w env sock rest hw c hc =>
    refine iff_of_true (honest_of_pending ht hhonest.connected hhonest.onConnect ?_) ?_
    · intro howed
      cases howed
    · show (match s.current (.act w env) with | some (.connected _, _) => _ | _ => True)
      rw [current_of_stack hw]
      trivial
  | @other l c hc hl =>
    refine iff_of_true (honest_of_pending ht hhonest.connected hhonest.onConnect ?_) ?_
    · intro howed
      refine TcpClient.pending_step (hpending howed) hc ?_
      rintro v e p r rfl hv
      exact (hl _ _ (current_of_stack hv) p).2.2 rfl
    · unfold Established
      dsimp only
      split
      · rename_i sock env hcurrent
        exact absurd rfl (hl _ _ hcurrent sock).2.1
      · trivial
  | establish =>
    exact iff_of_true (honest_of_pending ht hhonest.connected hhonest.onConnect hpending) trivial
  | @fail error hconnecting =>
    by_cases hcase : error.switch = .retry
    · refine iff_of_false (fun hhonest' => ?_) (fun hne => hne hcase)
      have howed : (s.owed || error.switch = .retry) = true := by simp [hcase]
      have hleads := hhonest'.retried hfatal hended howed
      have hcommitted := hs.committed (Or.inl hconnecting)
      exact hcommitted.not_pending ((leads_iff_pending ht hfatal hended howed).mp hleads)
    · refine iff_of_true (honest_of_pending ht hhonest.connected hhonest.onConnect ?_) hcase
      intro howed
      have hold : s.owed = true := by simpa [hcase] using howed
      exact hpending hold
  | @onConnect w rest hw =>
    refine iff_of_true (honest_of_pending ht hhonest.connected ?_ hpending) trivial
    intro link hmem
    rw [List.mem_singleton.mp hmem]
    exact hlink (hs.starting (Stacks.Any.head hw (Or.inl rfl)))
  | @ends w rest hw info hnot =>
    -- the callback runs after the transition, which has found the connection established
    exact absurd (hlink (hs.starting (Stacks.Any.head hw (Or.inl rfl)))) hnot

end Step

omit [DecidableEq W] in
theorem inv_new : Inv (new : TcpConnecting W) where
  chained F := by
    have hweight := Stacks.weight_nil F chained
    show Stacks.weight F chained (fun _ => []) + 0 ≤ 0
    omega
  committed := by
    rintro (h | h) <;> cases h
  owing h := by cases h
  starting := by
    rintro ⟨w, a, ha, -⟩
    cases ha

theorem honest_new : Honest (new : TcpConnecting W) where
  connected link h := by cases h
  onConnect link h := by cases h
  retried _ _ h := by cases h

/-- **The exact condition**: connected means connected, all along a schedule, if and only if every
transition of `tryConnect` finds the connection established and no connection fails later with an
error that is to be retried. -/
theorem honest_iff (ls : List (ConnectingLabel W)) :
    (tcpConnecting W).AllStates Honest ls new ↔ (tcpConnecting W).AllSteps Established ls new := by
  refine System.allStates_iff_allSteps
    (I := fun s => Inv s ∧ (s.connected ≠ [] → s.link = .established)) ?_ ?_ ls
    ⟨inv_new, fun hne => absurd rfl hne⟩ honest_new
  · rintro l s t ⟨hs, hlink⟩ - h ht
    exact ⟨inv_step hs h, established_step hs hlink h ht⟩
  · rintro l s t ⟨hs, hlink⟩ hhonest h
    exact honest_step_iff hs hlink hhonest h

/-- `Start`, up to the transition, with a `connect` that goes on in the background. -/
def connectInProgress : List (ConnectingLabel Unit) :=
  .client (.call () .start) :: List.replicate 6 (.client (.act () ⟨.EINPROGRESS, []⟩))

/-- The client is connected before its connection is. -/
theorem connectInProgress_not_honest :
    ¬ (tcpConnecting Unit).AllStates Honest connectInProgress new := by
  intro h
  obtain ⟨t, ht, hconnected⟩ : ∃ t, (tcpConnecting Unit).run connectInProgress new = some t ∧
      t.connected = [.connecting] := ⟨_, rfl, rfl⟩
  have hall := (h.last ht).connected
  rw [hconnected] at hall
  cases hall .connecting (by simp)

end TcpConnecting

end Lizlib
