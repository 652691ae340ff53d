import Lizlib.Net.Equiv.Close
import Lizlib.Net.Equiv.TcpOwners

/-!
# The last owner of a connection

When the last owner of a connection goes, its destructor calls `ForceClose`, and a task that
captures `this` is left dangling.  So the connection has to be disconnected, and no such task may be
queued (`Retired`).  Nothing in the code sees to it: `TcpServer::Close` clears `conns_` right after
the `Submit` of `Close`, `~TcpClient` does not look at the connection, and `handleRemove` leaves the
channel registered.

The rule is kept in every run in which these three go in order (`retained_of_orderly`): a server or
a client only lets go of a connection that is retired, and the task that removes the connection is
the last one that captures `this`.
-/

namespace Lizlib

/-- `ForceShutdown` and `ForceClose`. -/
def TcpApi.forced : TcpApi → Bool
  | .forceShutdown | .forceClose => true
  | _ => false

namespace TcpOwners

open Function (update)
open TcpConnection (Next quiet)

variable {T : Type*}

/-- The connection is disconnected, and no task that captures `this` is queued. -/
def Retired (s : TcpOwners T) : Prop := s.conn.state_ = .kDisconnected ∧ false ∉ s.queued

/-- **The lifetime rule**: the connection is retired when the last owner goes. -/
def Retained (s : TcpOwners T) : Prop := s.useCount = 0 → Retired s

/-- `OnClose` is to be called or is running, or the server or the client has let go. -/
def Dropping (s : TcpOwners T) : Prop := s.member = .dropped ∨ .clearConn ∈ s.conn.stack none

/-- What the loop's thread does in an act comes in order: it removes the connection when no task
that captures `this` is queued, and nothing submits another one from then on. -/
def OrderlyAct [DecidableEq T] (s : TcpOwners T) (w : Option T) : TcpAct T → Prop
  | .submit _ => Dropping s → w ∈ s.closures
  | .handleRemove => false ∉ s.queued
  | _ => True

/-- The step is one of the operations other than the forced ones, and it comes in order. -/
def Orderly [DecidableEq T] : OwnersLabel T → TcpOwners T → Prop
  | .conn (.call _ api), _ => api.forced = false
  | .conn (.act w env), s =>
    (∀ api ∈ env.calls, api.forced = false) ∧
      ∀ a ∈ (s.conn.stack w).head?, OrderlyAct s w a
  | .conn .dispatch, s => ¬ Dropping s
  | .next t, s => s.closing t = .clear → s.member = .present → Retired s
  | .destroy, s => s.member = .present → Retired s
  | _, _ => True

instance (s : TcpOwners T) : Decidable (Retired s) := inferInstanceAs (Decidable (_ ∧ _))

instance : DecidablePred (Retained : TcpOwners T → Prop) :=
  fun _ => inferInstanceAs (Decidable (_ → _))

instance [DecidableEq T] (s : TcpOwners T) : Decidable (Dropping s) :=
  inferInstanceAs (Decidable (_ ∨ _))

instance [DecidableEq T] (s : TcpOwners T) (w : Option T) : DecidablePred (OrderlyAct s w)
  | .submit _ => inferInstanceAs (Decidable (_ → _))
  | .handleRemove => inferInstanceAs (Decidable (¬ _))
  | .call _ | .storeDisconnected | .storeDisconnecting | .addChannel | .connect | .setReadable _
  | .setWritable _ | .update _ | .handleSend _ | .append _ | .handleRead | .handleWrite
  | .handleError | .handleClose | .callback _ | .checkDisconnecting | .channelShutdown _
  | .clearConn | .closeTask | .shutdownTask _ => .isTrue trivial

instance [DecidableEq T] : ∀ (l : OwnersLabel T) (s : TcpOwners T), Decidable (Orderly l s)
  | .conn (.call _ _), _ => inferInstanceAs (Decidable (_ = _))
  | .conn (.act _ _), _ => inferInstanceAs (Decidable (_ ∧ _))
  | .conn .dispatch, _ => inferInstanceAs (Decidable (¬ _))
  | .next _, _ => inferInstanceAs (Decidable (_ → _ → _))
  | .destroy, _ => inferInstanceAs (Decidable (_ → _))
  | .conn .task, _ | .conn (.collect _), _ | .submitted _, _ | .handler, _ | .countDown, _
  | .finish, _ | .starter, _ | .close _, _ | .getConnection, _ | .drop, _ => .isTrue trivial

/-! ### The invariant -/

/-- The acts a thread may have yet to do, when nothing is forced. -/
def Unforced (w : Option T) : TcpAct T → Prop
  | .call api => api.forced = false
  | .submit _ => True
  | .storeDisconnecting => False
  | _ => w = none

/-- The callback of `Start` has not called `OnConnect`, or `OnConnect` has not returned. -/
inductive Starting (c : TcpConnection T) : Option Bool → Prop
  | queued (hstack : c.stack none = []) (hqueue : c.queue.head? = some .start)
      (hstate : c.state_ = .kConnecting) : Starting c none
  | adding {b : Bool} (hstack : c.stack none = [.addChannel, .connect])
      (hstate : c.state_ = .kConnecting) : Starting c (some b)
  | connecting {b : Bool} (hstack : c.stack none = [.connect]) (hstate : c.state_ = .kConnecting) :
      Starting c (some b)
  | connected {b : Bool} (hstack : .setReadable true ∈ c.stack none) : Starting c (some b)

/-- The accept callback still owns a connection that is not in `conns_` yet. -/
def Awaited (s : TcpOwners T) : Prop :=
  s.side = .server ∧ s.latch ≠ 0 ∧ (s.starter = .addChannel ∨ s.starter = .await) ∧
    Starting s.conn s.work

/-- What orderly steps keep. -/
structure Kept (s : TcpOwners T) : Prop where
  length : s.queued.length = s.conn.queue.length
  unforced : Stacks.All Unforced s.conn.stack
  dropping : Dropping s → Retired s
  absent : s.member = .absent → Awaited s

theorem unforced_next {c : TcpConnection T} {w : Option T} {env : TcpEnv} {a : TcpAct T}
    {new : List (TcpAct T)} (hnext : Next c w env a new) (ha : Unforced w a)
    (hcalls : ∀ api ∈ env.calls, api.forced = false) : ∀ b ∈ new, Unforced w b := by
  cases hnext with
  | callback =>
    intro b hb
    obtain ⟨api, hapi, rfl⟩ := List.mem_map.mp hb
    exact hcalls api hapi
  | forceShutdown | forceClose => cases ha
  | _ => simp_all [Unforced]

theorem unforced_acts (task : TcpTask T) : ∀ a ∈ task.acts, Unforced none a := by
  cases task with
  | handleEvents events =>
    intro a ha
    rcases TcpConnection.mem_acts_handleEvents ha with rfl | rfl | rfl | rfl <;> rfl
  | _ => simp [TcpTask.acts, Unforced]

theorem clearConn_notMem_acts (task : TcpTask T) : .clearConn ∉ task.acts := by
  cases task with
  | handleEvents events =>
    intro ha
    rcases TcpConnection.mem_acts_handleEvents ha with h | h | h | h <;> cases h
  | _ => simp [TcpTask.acts]

/-- Only `handleRemove` leads to `OnClose`. -/
theorem handleRemove_of_next {c : TcpConnection T} {w : Option T} {env : TcpEnv} {a : TcpAct T}
    {new : List (TcpAct T)} (hnext : Next c w env a new) (hnew : .clearConn ∈ new) :
    a = .handleRemove ∧ c.state_ = .kDisconnected := by
  cases hnext with
  | handleRemove hs => exact ⟨rfl, hs⟩
  | callback =>
    obtain ⟨api, -, h⟩ := List.mem_map.mp hnew
    cases h
  | _ => simp at hnew

/-- What is still starting after a step that leaves the loop's thread alone. -/
theorem Starting.frame {c d : TcpConnection T} {work : Option Bool} (h : Starting c work)
    (hstack : d.stack none = c.stack none) (hqueue : ∃ tasks, c.queue ++ tasks = d.queue)
    (hstate : c.state_ = .kConnecting → d.state_ = .kConnecting) : Starting d work := by
  cases h with
  | queued hs hq hc =>
    obtain ⟨tasks, htasks⟩ := hqueue
    refine .queued (hstack.trans hs) ?_ (hstate hc)
    rw [← htasks, List.head?_append, hq]
    rfl
  | adding hs hc => exact .adding (hstack.trans hs) (hstate hc)
  | connecting hs hc => exact .connecting (hstack.trans hs) (hstate hc)
  | connected hs => exact .connected (hstack ▸ hs)

/-- Only the loop's own thread moves `state_` away from `kConnecting`. -/
theorem stores_kConnecting {w : Option T} {a : TcpAct T} (ha : Unforced w a) (hw : w ≠ none) :
    a.stores .kConnecting = .kConnecting := by
  cases a with
  | call api => cases api <;> rfl
  | storeDisconnected => exact absurd ha hw
  | storeDisconnecting => cases ha
  | connect => exact absurd ha hw
  | _ => rfl

/-- As long as the connection is starting, it has an owner. -/
theorem Awaited.owned {s : TcpOwners T} (h : Awaited s) : 0 < s.useCount := by
  obtain ⟨hside, -, hstarter, -⟩ := h
  have hconn : 0 < s.starterOwners := by
    unfold starterOwners
    rcases hstarter with hpc | hpc
    · rw [hside, hpc, if_pos ⟨rfl, by decide⟩]
      omega
    · rw [hside, hpc, if_pos ⟨rfl, by decide⟩]
      omega
  unfold useCount
  omega

/-- The rule follows from the invariant. -/
theorem Kept.retained {s : TcpOwners T} (hs : Kept s) : Retained s := by
  intro hcount
  cases hmember : s.member with
  | absent =>
    have howned := (hs.absent hmember).owned
    omega
  | present =>
    unfold useCount at hcount
    rw [if_pos hmember] at hcount
    omega
  | dropped => exact hs.dropping (Or.inl hmember)

variable [DecidableEq T]

/-- What an act does to the owners. -/
theorem observe_act (s : TcpOwners T) (c : TcpConnection T) {w : Option T} (env : TcpEnv)
    {a : TcpAct T} {rest : List (TcpAct T)} (hw : s.conn.stack w = a :: rest) :
    ∃ closures forceClose pc, s.observe c (.act w env) =
      { s with
        conn := c
        queued := s.queued ++ a.submits.map fun _ => decide (w ∈ s.closures)
        closures := closures
        forceClose := forceClose
        onClose := pc } := by
  have hhead : (s.conn.stack w).head? = some a := by
    rw [hw]
    rfl
  have hnothing : s.queued ++ ([] : List (TcpTask T)).map (fun _ => decide (w ∈ s.closures)) =
      s.queued := List.append_nil _
  simp only [observe, hhead]
  cases a with
  | submit task => exact ⟨_, _, _, rfl⟩
  | call api =>
    simp only [TcpAct.submits, hnothing]
    cases api <;> exact ⟨_, _, _, rfl⟩
  | storeDisconnected =>
    simp only [TcpAct.submits, hnothing]
    split_ifs <;> exact ⟨_, _, _, rfl⟩
  | _ =>
    simp only [TcpAct.submits, hnothing]
    exact ⟨_, _, _, rfl⟩

/-- An act of the loop's thread in the callback of `Start`. -/
theorem starting_act {s : TcpConnection T} {work : Option Bool} {env : TcpEnv} {a : TcpAct T}
    {rest : List (TcpAct T)} (h : Starting s work) (hw : s.stack none = a :: rest)
    (ha : a ≠ .setReadable true) :
    Starting { (s.act none env a).1 with
      stack := update s.stack none ((s.act none env a).2 ++ rest) } work := by
  cases h with
  | queued hstack =>
    rw [hw] at hstack
    cases hstack
  | adding hstack hstate =>
    rw [hw] at hstack
    obtain ⟨rfl, rfl⟩ := List.cons.inj hstack
    refine .connecting ?_ hstate
    show update s.stack none [.connect] none = [.connect]
    exact Function.update_self _ _ _
  | connecting hstack hstate =>
    rw [hw] at hstack
    obtain ⟨rfl, rfl⟩ := List.cons.inj hstack
    refine .connected ?_
    show .setReadable true ∈ update s.stack none _ none
    rw [Function.update_self]
    simp [TcpConnection.act, hstate]
  | connected hstack =>
    rw [hw, List.mem_cons] at hstack
    have hrest := hstack.resolve_left (Ne.symm ha)
    refine .connected ?_
    show .setReadable true ∈ update s.stack none _ none
    rw [Function.update_self]
    exact List.mem_append_right _ hrest

/-! ### The steps of the connection -/

section Conn

variable {s : TcpOwners T} {l : TcpLabel T} {c : TcpConnection T}

theorem length_conn (hs : Kept s) (hc : s.conn.step l = some c) :
    (s.observe c l).queued.length = (s.observe c l).conn.queue.length := by
  obtain ⟨-, hmoves⟩ := TcpConnection.moves_of_step hc
  have hlength := hs.length
  cases hmoves with
  | @act w env a rest hw =>
    obtain ⟨_, _, _, hframe⟩ := observe_act s _ env hw
    rw [hframe]
    show (s.queued ++ _).length = (s.conn.act w env a).1.queue.length
    rw [(TcpConnection.act_effect s.conn w env a).queue, List.length_append, List.length_append,
      List.length_map, hlength]
  | @task task queue hidle hq =>
    show s.queued.tail.length = queue.length
    rw [List.length_tail, hlength, hq]
    rfl
  | @dispatch events =>
    show (s.queued ++ [false]).length = (s.conn.queue ++ [TcpTask.handleEvents events]).length
    rw [List.length_append, List.length_append, hlength]
    rfl
  | call | collect => exact hlength

theorem unforced_conn (hs : Kept s) (hg : Orderly (.conn l) s) (hc : s.conn.step l = some c) :
    Stacks.All Unforced (s.observe c l).conn.stack := by
  obtain ⟨_, _, _, _, _, hframe⟩ := observe_frame s c l
  rw [hframe]
  refine TcpConnection.all_step hs.unforced ?_ ?_ (fun task _ => unforced_acts task) hc
  · rintro u api rfl
    exact hg
  · rintro w env a new rfl - ha hnext
    exact unforced_next hnext ha hg.1

/-- A connection that is being dropped stays retired: a closure that is submitted captures `self`. -/
theorem retired_act (hs : Kept s) {w : Option T} (env : TcpEnv) {a : TcpAct T}
    {rest : List (TcpAct T)} (hw : s.conn.stack w = a :: rest) (hg : OrderlyAct s w a)
    (hd : Dropping s) :
    (s.conn.act w env a).1.state_ = .kDisconnected ∧
      false ∉ s.queued ++ a.submits.map fun _ => decide (w ∈ s.closures) := by
  have heffect := TcpConnection.act_effect s.conn w env a
  obtain ⟨hstate, hqueued⟩ := hs.dropping hd
  constructor
  · rw [heffect.state_, hstate]
    apply TcpConnection.stores_kDisconnected
    rintro rfl
    exact hs.unforced.head hw
  · intro hmem
    rcases List.mem_append.mp hmem with hmem | hmem
    · exact hqueued hmem
    · obtain ⟨task, htask, hfalse⟩ := List.mem_map.mp hmem
      rw [TcpConnection.mem_submits htask] at hg
      exact of_decide_eq_false hfalse (hg hd)

/-- Only the loop's thread begins to drop the connection, with `handleRemove`. -/
theorem handleRemove_of_begin {w : Option T} {env : TcpEnv} {a : TcpAct T}
    {rest : List (TcpAct T)} (hw : s.conn.stack w = a :: rest)
    (hnone : .clearConn ∉ s.conn.stack none)
    (hmem : .clearConn ∈ update s.conn.stack w ((s.conn.act w env a).2 ++ rest) none) :
    a = .handleRemove ∧ s.conn.state_ = .kDisconnected := by
  by_cases hloop : w = none
  · subst hloop
    rw [Function.update_self] at hmem
    have hrest : .clearConn ∉ rest := fun h => hnone (hw ▸ List.mem_cons_of_mem a h)
    have hnew := (List.mem_append.mp hmem).resolve_right hrest
    exact handleRemove_of_next (TcpConnection.act_next s.conn none env a) hnew
  · rw [Function.update_of_ne (Ne.symm hloop)] at hmem
    exact absurd hmem hnone

/-- The connection is retired when it begins to be dropped, and stays so. -/
theorem dropping_conn (hs : Kept s) (hg : Orderly (.conn l) s) (hc : s.conn.step l = some c)
    (hd : Dropping (s.observe c l)) : Retired (s.observe c l) := by
  obtain ⟨-, hmoves⟩ := TcpConnection.moves_of_step hc
  cases hmoves with
  | @call u api hidle =>
    have hstack : update s.conn.stack (some u) [.call api] none = s.conn.stack none :=
      Function.update_of_ne (by simp) _ _
    have hbefore : Dropping s := hd.imp_right fun hmem => hstack ▸ hmem
    exact hs.dropping hbefore
  | @act w env a rest hw =>
    obtain ⟨_, _, _, hframe⟩ := observe_act s { (s.conn.act w env a).1 with
      stack := update s.conn.stack w ((s.conn.act w env a).2 ++ rest) } env hw
    rw [hframe] at hd ⊢
    have hhead : a ∈ (s.conn.stack w).head? := by
      rw [hw]
      rfl
    have horderly := hg.2 a hhead
    by_cases hbefore : Dropping s
    · exact retired_act hs env hw horderly hbefore
    · have hmember : s.member ≠ .dropped := fun h => hbefore (Or.inl h)
      have hnone : .clearConn ∉ s.conn.stack none := fun h => hbefore (Or.inr h)
      obtain ⟨rfl, hstate⟩ := handleRemove_of_begin hw hnone (hd.resolve_left hmember)
      refine ⟨(TcpConnection.act_effect s.conn w env _).state_.trans hstate, ?_⟩
      show false ∉ s.queued ++ []
      rw [List.append_nil]
      exact horderly
  | @task task queue hidle hq =>
    have hmember : s.member = .dropped := by
      refine hd.resolve_right fun hmem => ?_
      have hacts : .clearConn ∈ update s.conn.stack none task.acts none := hmem
      rw [Function.update_self] at hacts
      exact clearConn_notMem_acts task hacts
    obtain ⟨hstate, hqueued⟩ := hs.dropping (Or.inl hmember)
    exact ⟨hstate, fun hmem => hqueued (List.mem_of_mem_tail hmem)⟩
  | collect => exact hs.dropping hd
  | dispatch => exact absurd hd hg

/-- The callback of `Start` runs undisturbed up to the entry in `conns_`. -/
theorem starting_conn (hs : Kept s) (hside : s.side = .server) (habsent : s.member = .absent)
    (hstarting : Starting s.conn s.work) (hw : s.waits l = false) (hc : s.conn.step l = some c) :
    Starting (s.observe c l).conn (s.observe c l).work := by
  obtain ⟨-, hmoves⟩ := TcpConnection.moves_of_step hc
  cases hmoves with
  | @call u api =>
    have hstack : update s.conn.stack (some u) [.call api] none = s.conn.stack none :=
      Function.update_of_ne (by simp) _ _
    exact hstarting.frame hstack ⟨[], List.append_nil _⟩ id
  | @act w env a rest hstack =>
    have heffect := TcpConnection.act_effect s.conn w env a
    obtain ⟨_, _, _, hframe⟩ := observe_act s { (s.conn.act w env a).1 with
      stack := update s.conn.stack w ((s.conn.act w env a).2 ++ rest) } env hstack
    rw [hframe]
    by_cases hloop : w = none
    · subst hloop
      refine starting_act hstarting hstack ?_
      rintro rfl
      simp [waits, hstack, hside, habsent] at hw
    · refine hstarting.frame (Function.update_of_ne (Ne.symm hloop) _ _) ⟨_, heffect.queue.symm⟩ ?_
      intro hstate
      rw [heffect.state_, hstate]
      exact stores_kConnecting (hs.unforced.head hstack) hloop
  | @task task queue hidle hq =>
    have hlength := hs.length
    have hwork : s.work = none := by simpa [waits] using hw
    rw [hwork] at hstarting
    cases hstarting with
    | queued hstack hqueue hstate =>
      rw [hq] at hqueue hlength
      obtain rfl := Option.some.inj hqueue
      -- the flags are as many as the tasks
      cases hflags : s.queued with
      | nil =>
        rw [hflags] at hlength
        cases hlength
      | cons b flags =>
        have hrunning : (s.observe { s.conn with
            queue := queue, stack := update s.conn.stack none TcpTask.start.acts } .task).work =
            some b := by
          show s.queued.head? = some b
          rw [hflags]
          rfl
        have hacts : update s.conn.stack none TcpTask.start.acts none = TcpTask.start.acts :=
          Function.update_self _ _ _
        rw [hrunning]
        exact .adding hacts hstate
  | collect => exact hstarting.frame rfl ⟨[], List.append_nil _⟩ id
  | dispatch => exact hstarting.frame rfl ⟨_, rfl⟩ id

end Conn

/-! ### All steps -/

section Step

variable {s t : TcpOwners T} {l : OwnersLabel T}

omit [DecidableEq T] in
/-- A member that is released, if only a retired connection is let go. -/
theorem retired_drop (hs : Kept s) (hg : s.member = .present → Retired s)
    (hd : s.member.drop = .dropped ∨ .clearConn ∈ s.conn.stack none) : Retired s := by
  rcases hd with hdrop | hmem
  · cases hmember : s.member with
    | absent =>
      rw [hmember] at hdrop
      cases hdrop
    | present => exact hg hmember
    | dropped => exact hs.dropping (Or.inl hmember)
  · exact hs.dropping (Or.inr hmem)

omit [DecidableEq T] in
theorem absent_of_drop (h : s.member.drop = .absent) : s.member = .absent := by
  cases hmember : s.member with
  | absent => rfl
  | present =>
    rw [hmember] at h
    cases h
  | dropped =>
    rw [hmember] at h
    cases h

omit [DecidableEq T] in
theorem kept_handled (hs : Kept s) (h : Handled s t) : Kept t := by
  cases h with
  | emplace hhead hside habsent =>
    refine ⟨hs.length, hs.unforced, fun hd => ?_, fun hpresent => ?_⟩
    · have hmem : .clearConn ∈ s.conn.stack none := hd.resolve_left (by simp)
      exact hs.dropping (Or.inr hmem)
    · cases hpresent
  | goto => exact ⟨hs.length, hs.unforced, hs.dropping, hs.absent⟩
  | drop hhead =>
    -- `OnClose` is running
    have hdropping : Dropping s := Or.inr (List.mem_of_head? hhead)
    refine ⟨hs.length, hs.unforced, fun _ => hs.dropping hdropping, fun habsent => ?_⟩
    exact hs.absent (absent_of_drop habsent)

omit [DecidableEq T] in
theorem kept_started (hs : Kept s) (h : Started s t) : Kept t := by
  have hpc : s.member = .absent → s.starter = .addChannel ∨ s.starter = .await :=
    fun habsent => (hs.absent habsent).2.2.1
  cases h with
  | addChannel =>
    refine ⟨hs.length, hs.unforced, hs.dropping, fun habsent => ?_⟩
    obtain ⟨hside, hlatch, -, hstarting⟩ := hs.absent habsent
    exact ⟨hside, hlatch, Or.inr rfl, hstarting⟩
  | await _ hlatch =>
    refine ⟨hs.length, hs.unforced, hs.dropping, fun habsent => ?_⟩
    exact absurd hlatch (hs.absent habsent).2.1
  | passed h =>
    refine ⟨hs.length, hs.unforced, hs.dropping, fun habsent => ?_⟩
    rcases hpc habsent with hat | hat <;> cases h.symm.trans hat
  | failed h => exact ⟨hs.length, hs.unforced, hs.dropping, hs.absent⟩
  | scope h =>
    refine ⟨hs.length, hs.unforced, hs.dropping, fun habsent => ?_⟩
    rcases hpc habsent with hat | hat <;> cases h.symm.trans hat

theorem kept_closed {u : T} (hs : Kept s) (hg : Orderly (.next u) s) (h : Closed s u t) :
    Kept t := by
  cases h with
  | goto => exact ⟨hs.length, hs.unforced, hs.dropping, hs.absent⟩
  | @conn c hpresent hc =>
    have horderly : Orderly (.conn (.call u .close)) s := rfl
    refine ⟨length_conn hs hc, unforced_conn hs horderly hc, dropping_conn hs horderly hc, ?_⟩
    intro habsent
    cases hpresent.symm.trans habsent
  | clear hpc =>
    refine ⟨hs.length, hs.unforced, fun hd => ?_, fun habsent => hs.absent (absent_of_drop habsent)⟩
    have hretired : Retired s := retired_drop hs (hg hpc) hd
    exact hretired

/-- **Step lemma**. -/
theorem kept_step (hs : Kept s) (hg : Orderly l s) (h : step l s = some t) : Kept t := by
  obtain ⟨-, hmoves⟩ := moves_of_step h
  cases hmoves with
  | @conn l c hw hc =>
    refine ⟨length_conn hs hc, unforced_conn hs hg hc, dropping_conn hs hg hc, fun habsent => ?_⟩
    obtain ⟨_, _, _, _, _, hframe⟩ := observe_frame s c l
    have hmember : (s.observe c l).member = s.member := by rw [hframe]
    obtain ⟨hside, hlatch, hpc, hstarting⟩ := hs.absent (hmember ▸ habsent)
    have hkeeps := starting_conn hs hside (hmember ▸ habsent) hstarting hw hc
    rw [hframe] at hkeeps ⊢
    exact ⟨hside, hlatch, hpc, hkeeps⟩
  | handler hhandled => exact kept_handled hs hhandled
  | starter hstarted => exact kept_started hs hstarted
  | next hclosed => exact kept_closed hs hg hclosed
  | countDown hwork hidle =>
    refine ⟨hs.length, hs.unforced, hs.dropping, fun habsent => ?_⟩
    -- the callback has not come to `latch.CountDown()`
    obtain ⟨-, -, -, hstarting⟩ := hs.absent habsent
    generalize s.work = work at hwork hstarting
    cases hstarting with
    | queued => exact absurd rfl hwork
    | adding hstack | connecting hstack => cases hidle.symm.trans hstack
    | connected hstack =>
      rw [hidle] at hstack
      cases hstack
  | finish hlatch =>
    refine ⟨hs.length, hs.unforced, hs.dropping, fun habsent => ?_⟩
    exact absurd hlatch (hs.absent habsent).2.1
  | destroy hside =>
    refine ⟨hs.length, hs.unforced, fun hd => ?_, fun habsent => hs.absent (absent_of_drop habsent)⟩
    have hretired : Retired s := retired_drop hs hg hd
    exact hretired
  | submitted | close | getConnection | drop =>
    exact ⟨hs.length, hs.unforced, hs.dropping, hs.absent⟩

end Step

theorem kept_start (side : TcpSide) (onLoop : Bool) (addr : Nat) (cells : Nat → UInt8) :
    Kept (start side onLoop addr cells : TcpOwners T) := by
  have hidle : Stacks.All Unforced (TcpConnection.start addr cells : TcpConnection T).stack :=
    fun _ _ hmem => absurd hmem List.not_mem_nil
  have hmember : (start side onLoop addr cells : TcpOwners T).member ≠ .dropped := by
    cases side <;> simp [start]
  cases onLoop with
  | true =>
    refine ⟨rfl, Stacks.all_begin hidle (unforced_acts .start), fun hd => ?_, fun habsent => ?_⟩
    · exact absurd (hd.resolve_left hmember) (clearConn_notMem_acts .start)
    · cases side with
      | server => exact ⟨rfl, Nat.one_ne_zero, Or.inl rfl, .adding rfl rfl⟩
      | client => cases habsent
  | false =>
    refine ⟨rfl, hidle, fun hd => ?_, fun habsent => ?_⟩
    · exact absurd (hd.resolve_left hmember) List.not_mem_nil
    · cases side with
      | server => exact ⟨rfl, Nat.one_ne_zero, Or.inl rfl, .queued rfl rfl rfl⟩
      | client => cases habsent

/-- **Run lemma**: in a run whose steps are all orderly, the last owner of the connection lets go of
a connection that is disconnected, and to which no queued task refers without owning it. -/
theorem retained_of_orderly (side : TcpSide) (onLoop : Bool) (addr : Nat) (cells : Nat → UInt8)
    (ls : List (OwnersLabel T))
    (h : (tcpOwners T).AllSteps Orderly ls (start side onLoop addr cells)) :
    (tcpOwners T).AllStates Retained ls (start side onLoop addr cells) :=
  h.allStates (fun _ _ _ hs hg ht => kept_step hs hg ht) (fun _ hs => hs.retained)
    (kept_start side onLoop addr cells)

/-- There is nothing to read any more. -/
def endOfStream : TcpEnv := { (quiet : TcpEnv) with read := .data [] }

/-- The accept callback gets through, and the connection is the server's alone. -/
def accepted : List (OwnersLabel Unit) :=
  connected ++ [.starter, .starter, .finish, .starter, .starter]

/-- The peer closes, and `OnClose` releases the last owner. -/
def peerCloses : List (OwnersLabel Unit) :=
  accepted ++ [.conn (.collect Events.EPOLLIN), .conn .dispatch, .conn .task] ++
    List.replicate 4 (.conn (.act none endOfStream)) ++ [.finish, .conn .task] ++
    List.replicate 2 (.conn (.act none quiet)) ++ [.handler, .handler, .handler]

theorem retained_peerCloses :
    (∃ t, (tcpOwners Unit).run peerCloses (start .server false 0 fun _ => 0) = some t ∧
      t.useCount = 0) ∧
    (tcpOwners Unit).AllStates Retained peerCloses (start .server false 0 fun _ => 0) :=
  ⟨⟨_, rfl, rfl⟩, retained_of_orderly .server false 0 _ peerCloses (by decide +kernel)⟩

/-- `TcpServer::Close` submits the task of `Close` and clears `conns_`. -/
def serverCloses : List (OwnersLabel Unit) :=
  accepted ++ [.close (), .next (), .next (), .conn (.act (some ()) quiet),
    .conn (.act (some ()) quiet), .next ()]

/-- The last owner is gone before the loop has taken the task, which captures `this`. -/
theorem serverCloses_not_retained : ¬ (tcpOwners Unit).AllStates Retained serverCloses
    (start .server false 0 fun _ => 0) := by
  decide +kernel

end TcpOwners

end Lizlib
