import Lizlib.Data.Stacks
import Lizlib.Net.TcpConnection

/-!
# The steps of a connection

What every invariant of a connection is derived from.  `Moves` lists the steps of the system,
`Effect` what one act does to each field and `Next` the acts that can follow it; `Shaped` says which
acts a thread can have before it, and `all_step` and `mem_queue_step` what a step adds to the stacks
and to the queue.
-/

namespace Lizlib

/-! ### What an act does to each field -/

namespace TcpAct

variable {T : Type*}

/-- The tasks an act submits. -/
def submits : TcpAct T → List (TcpTask T)
  | .submit task => [task]
  | _ => []

/-- What an act delivers, in a context with or without its connection. -/
def delivers (conn : Bool) : TcpAct T → List (Callback × Bool)
  | .callback cb => [(cb, conn)]
  | _ => []

/-- `state_` after an act. -/
def stores (state : TcpState) : TcpAct T → TcpState
  | .call .close => if state = .kConnected then .kDisconnected else state
  | .call (.shutdown _) => if state = .kConnected then .kDisconnecting else state
  | .storeDisconnected => .kDisconnected
  | .storeDisconnecting => .kDisconnecting
  | .connect => if state = .kConnecting then .kConnected else state
  | _ => state

/-- The channel's `events_` after an act. -/
def masks (events : EventMask) : TcpAct T → EventMask
  | .setReadable on => SocketChannel.setReadable events on
  | .setWritable on => SocketChannel.setWritable events on
  | _ => events

/-- The registered mask after an act. -/
def registers (registered : Option EventMask) : TcpAct T → Option EventMask
  | .addChannel => registered <|> some SelectEvents.kNoneEvent
  | .update events => registered.map fun _ => events
  | _ => registered

/-- The calls of `channel_->Shutdown` an act makes. -/
def shuts : TcpAct T → List Bool
  | .channelShutdown close_read => [close_read]
  | _ => []

/-- The payloads thread `w` hands to `Send` with an act. -/
def sends (w : Option T) (state : TcpState) : TcpAct T → List (Payload T)
  | .call (.send buffer) => [⟨w, buffer, state = .kConnected⟩]
  | _ => []

/-- The act is the `Shutdown` that changes `state_`. -/
def wins (state : TcpState) : TcpAct T → Bool
  | .call (.shutdown _) => state = .kConnected
  | _ => false

/-- The acts thread `w` may have yet to do: besides the operations and what they submit, everything
is done by the loop's own thread. -/
def Admissible (w : Option T) : TcpAct T → Prop
  | .call _ | .storeDisconnected | .storeDisconnecting => True
  | .submit (.handleSend p) => w ≠ none ∧ p.caller = w
  | .submit .start | .submit (.handleEvents _) => False
  | .submit _ => True
  | _ => w = none

/-- The acts that follow at once from the one before. -/
def immediate : TcpAct T → Bool
  | .submit _ | .update _ | .handleSend _ | .append _ => true
  | _ => false

/-- The acts a task may consist of. -/
def begins : TcpAct T → Bool
  | .addChannel | .connect | .handleSend _ | .handleRead | .handleWrite | .handleError
  | .handleClose | .handleRemove | .closeTask | .shutdownTask _ => true
  | .setWritable on | .channelShutdown on => !on
  | _ => false

end TcpAct

namespace TcpConnection

open Function (update)

variable {T : Type*}

/-! ### Writing and appending -/

/-- `handleWrite` ends the process, reports an error, or writes what there is to write. -/
inductive Written (s : TcpConnection T) (env : TcpEnv) : TcpConnection T × List (TcpAct T) → Prop
  | notWritable (hw : SocketChannel.writable s.events_ = false) :
      Written s env ({ s with fatal := some .notWritable }, [])
  | failed (hw : SocketChannel.writable s.events_ = true) (he : env.write = none) :
      Written s env (s, [.handleError])
  | noLoad {n : Nat} {f : Fault} (hn : n ≤ s.output_.readableBytes)
      (hl : s.output_.load s.output_.r_idx_ n = .error f) :
      Written s env ({ s with fatal := some (.output f) }, [])
  | noRetrieve {n : Nat} {f : Fault} (hn : n ≤ s.output_.readableBytes)
      (hb : s.output_.retrieve n true = .error f) :
      Written s env ({ s with fatal := some (.output f) }, [])
  | wrote {n : Nat} {l : List UInt8} {b : Buffer} (hn : n ≤ s.output_.readableBytes)
      (hl : s.output_.load s.output_.r_idx_ n = .ok l) (hb : s.output_.retrieve n true = .ok b) :
      Written s env ({ s with output_ := b, written := s.written ++ l },
        drained { s with output_ := b, written := s.written ++ l })
  | empty : Written s env (s, s.drained)

theorem handleWrite_cases (s : TcpConnection T) (env : TcpEnv) :
    Written s env (s.handleWrite env) := by
  unfold handleWrite
  split_ifs with hw hpos
  · exact .notWritable hw
  · cases he : env.write with
    | none => exact .failed (by simpa using hw) he
    | some n =>
      -- the socket takes at most what there is
      have hn : min n s.output_.readableBytes ≤ s.output_.readableBytes := Nat.min_le_right _ _
      simp only [writeOut]
      cases hl : s.output_.load s.output_.r_idx_ (min n s.output_.readableBytes) with
      | error f => exact .noLoad hn hl
      | ok l =>
        cases hb : s.output_.retrieve (min n s.output_.readableBytes) true with
        | error f => exact .noRetrieve hn hb
        | ok b => exact .wrote hn hl hb
  · exact .empty

/-- `output_.Append` fails, or `output_` has taken the bytes. -/
inductive Appended (s : TcpConnection T) (p : Payload T) (env : TcpEnv) :
    TcpConnection T × List (TcpAct T) → Prop
  | fault {f : Fault} (h : s.output_.append (.bytes p.buffer.1) p.buffer.1.length false false
        env.memory.1 = .error f) :
      Appended s p env ({ s with fatal := some (.output f) }, [])
  | full {b : Buffer} {ret : Int} (h : s.output_.append (.bytes p.buffer.1) p.buffer.1.length false
        false env.memory.1 = .ok (b, ret)) (hret : ret ≠ p.buffer.1.length) :
      Appended s p env ({ s with output_ := b, fatal := some .outputFull }, [])
  | accepted {b : Buffer} (h : s.output_.append (.bytes p.buffer.1) p.buffer.1.length false false
        env.memory.1 = .ok (b, p.buffer.1.length)) :
      Appended s p env
        ({ s with output_ := b, accepted := s.accepted ++ [p] }, [.setWritable true])

theorem append_cases (s : TcpConnection T) (p : Payload T) (env : TcpEnv) :
    Appended s p env (s.append p env) := by
  unfold append
  cases h : s.output_.append (.bytes p.buffer.1) p.buffer.1.length false false env.memory.1 with
  | error f => exact .fault h
  | ok r =>
    obtain ⟨b, ret⟩ := r
    simp only
    split_ifs with hret
    · exact .accepted (hret ▸ h)
    · exact .full h hret

/-! ### The effect of an act -/

/-- The fields of a connection after thread `w` has executed the act `a`. -/
structure Effect [DecidableEq T] (s : TcpConnection T) (w : Option T) (a : TcpAct T)
    (t : TcpConnection T) : Prop where
  state_ : t.state_ = a.stores s.state_
  events_ : t.events_ = a.masks s.events_
  registered : t.registered = a.registers s.registered
  queue : t.queue = s.queue ++ a.submits
  stack : t.stack = s.stack
  collected : t.collected = s.collected
  delivered : t.delivered = s.delivered ++ a.delivers s.conn_
  shutdowns : t.shutdowns = s.shutdowns ++ a.shuts
  calls : t.calls = s.calls ++ a.sends w s.state_
  winner : t.winner = if a.wins s.state_ then some (w, owed w s.calls) else s.winner
  accepted : ∃ acc, t.accepted = s.accepted ++ acc ∧ ∀ p ∈ acc, a = .append p
  written : ∃ l, t.written = s.written ++ l

/-- An act that touches none of these fields, or only `output_`, what it takes and what it writes. -/
theorem Effect.output [DecidableEq T] {s : TcpConnection T} {w : Option T} {a : TcpAct T}
    (f : Option TcpFatal) (b : Buffer) (c : Bool) {d : List (Payload T)} {l : List UInt8}
    (hs : a.stores s.state_ = s.state_) (he : a.masks s.events_ = s.events_)
    (hr : a.registers s.registered = s.registered) (hq : a.submits = [])
    (hd : a.delivers s.conn_ = []) (hsh : a.shuts = []) (hc : a.sends w s.state_ = [])
    (hw : a.wins s.state_ = false)
    (hacc : ∃ acc, d = s.accepted ++ acc ∧ ∀ p ∈ acc, a = .append p)
    (hl : ∃ l', l = s.written ++ l') :
    Effect s w a { s with fatal := f, output_ := b, conn_ := c, accepted := d, written := l } where
  state_ := hs.symm
  events_ := he.symm
  registered := hr.symm
  queue := by rw [hq, List.append_nil]
  stack := rfl
  collected := rfl
  delivered := by rw [hd, List.append_nil]
  shutdowns := by rw [hsh, List.append_nil]
  calls := by rw [hc, List.append_nil]
  winner := by rw [hw]; rfl
  accepted := hacc
  written := hl

/-- An act that touches none of these fields. -/
theorem Effect.none [DecidableEq T] {s : TcpConnection T} {w : Option T} {a : TcpAct T}
    (f : Option TcpFatal) (b : Buffer) (c : Bool) (hs : a.stores s.state_ = s.state_)
    (he : a.masks s.events_ = s.events_) (hr : a.registers s.registered = s.registered)
    (hq : a.submits = []) (hd : a.delivers s.conn_ = []) (hsh : a.shuts = [])
    (hc : a.sends w s.state_ = []) (hw : a.wins s.state_ = false) :
    Effect s w a { s with fatal := f, output_ := b, conn_ := c } :=
  .output f b c hs he hr hq hd hsh hc hw ⟨[], (List.append_nil _).symm, by simp⟩
    ⟨[], (List.append_nil _).symm⟩

/-- What a thread may have to do next after an act, and when. -/
inductive Next (s : TcpConnection T) (w : Option T) (env : TcpEnv) :
    TcpAct T → List (TcpAct T) → Prop
  | nil {a : TcpAct T} : Next s w env a []
  | send {p : Payload T} (hw : w ≠ none) (hp : p.caller = w) :
      Next s w env (.call (.send p.buffer)) [.submit (.handleSend p)]
  | sendOnLoop {p : Payload T} (hw : w = none) (hp : p.caller = none) :
      Next s w env (.call (.send p.buffer)) [.handleSend p]
  | close (hs : s.state_ = .kConnected) : Next s w env (.call .close) [.submit .close]
  | shutdown {close_read : Bool} (hs : s.state_ = .kConnected) :
      Next s w env (.call (.shutdown close_read)) [.submit (.shutdown close_read)]
  | forceShutdown (hs : s.state_ ≠ .kDisconnected) :
      Next s w env (.call .forceShutdown) [.storeDisconnecting]
  | forceClose (hs : s.state_ ≠ .kDisconnected) :
      Next s w env (.call .forceClose) [.storeDisconnected]
  | storeDisconnected : Next s w env .storeDisconnected [.submit .handleRemove]
  | storeDisconnecting : Next s w env .storeDisconnecting [.submit .forceShutdown]
  | connect (hs : s.state_ = .kConnecting) :
      Next s w env .connect [.callback .onConnect, .setReadable true]
  | setReadable {on : Bool} :
      Next s w env (.setReadable on) [.update (SocketChannel.setReadable s.events_ on)]
  | setWritable {on : Bool} :
      Next s w env (.setWritable on) [.update (SocketChannel.setWritable s.events_ on)]
  | handleSend {p : Payload T} (hs : s.state_ = .kConnected) :
      Next s w env (.handleSend p) [.append p]
  | append {p : Payload T} : Next s w env (.append p) [.setWritable true]
  | readFailed : Next s w env .handleRead [.handleError]
  | readEnd : Next s w env .handleRead [.handleClose]
  | readData {l : List UInt8} : Next s w env .handleRead [.callback (.onRead l)]
  | writeFailed (he : env.write = none) : Next s w env .handleWrite [.handleError]
  | drained (hz : (s.handleWrite env).1.output_.readableBytes = 0) :
      Next s w env .handleWrite
        [.setWritable false, .callback .onWriteComplete, .checkDisconnecting]
  | handleError : Next s w env .handleError [.callback .onError]
  | handleClose (hs : s.state_ ≠ .kDisconnected) :
      Next s w env .handleClose [.storeDisconnected]
  | handleRemove (hs : s.state_ = .kDisconnected) :
      Next s w env .handleRemove [.callback .onClose, .clearConn]
  | callback {cb : Callback} : Next s w env (.callback cb) (env.calls.map .call)
  | checkDisconnecting (hs : s.state_ = .kDisconnecting) :
      Next s w env .checkDisconnecting [.channelShutdown false]
  | closeTask (hz : s.output_.readableBytes = 0) : Next s w env .closeTask [.handleRemove]
  | shutdownTask {close_read : Bool} (hz : s.output_.readableBytes = 0) :
      Next s w env (.shutdownTask close_read) [.setWritable false, .channelShutdown close_read]

/-- What an act has found when it ends the process with `f`. -/
def Cause (s : TcpConnection T) (a : TcpAct T) : TcpFatal → Prop
  | .notWritable => a = .handleWrite ∧ SocketChannel.writable s.events_ = false
  | .unregistered => s.registered = none ∧ ∃ events, a = .update events
  | .notDisconnected => a = .handleRemove ∧ s.state_ ≠ .kDisconnected
  | .shutdownFailed => ∃ close_read, a = .channelShutdown close_read
  | .outputFull | .output _ => a = .handleWrite ∨ ∃ p, a = .append p

/-! ### The shape of the stacks -/

/-- Each thread only has acts of its own to do, those that follow at once come first, and a queued
`handleSend` was submitted by another thread than the loop's. -/
structure Shaped (s : TcpConnection T) : Prop where
  admissible : Stacks.All TcpAct.Admissible s.stack
  immediate : ∀ w, ∀ a ∈ (s.stack w).tail, a.immediate = false
  queued : ∀ p, .handleSend p ∈ s.queue → p.caller ≠ none

section Next

variable {s : TcpConnection T} {w : Option T} {env : TcpEnv} {a : TcpAct T} {new : List (TcpAct T)}

theorem Next.admissible (h : Next s w env a new) (ha : a.Admissible w) :
    ∀ b ∈ new, b.Admissible w := by
  cases h <;> simp_all [TcpAct.Admissible]

theorem Next.immediate (h : Next s w env a new) : ∀ b ∈ new.tail, b.immediate = false := by
  cases h with
  | callback =>
    intro b hb
    obtain ⟨api, -, rfl⟩ := List.mem_map.mp (List.mem_of_mem_tail hb)
    rfl
  | _ => simp [TcpAct.immediate]

end Next

/-- The acts of `HandleEvents`. -/
theorem mem_acts_handleEvents {events : EventMask} {a : TcpAct T}
    (h : a ∈ (TcpTask.handleEvents events).acts) :
    a = .handleRead ∨ a = .handleWrite ∨ a = .handleError ∨ a = .handleClose := by
  obtain ⟨handler, -, rfl⟩ := List.mem_map.mp h
  cases handler <;> simp

/-- The only act that submits a task. -/
theorem mem_submits {a : TcpAct T} {task : TcpTask T} (h : task ∈ a.submits) : a = .submit task := by
  cases a with
  | submit task' => rw [List.mem_singleton.mp h]
  | _ => cases h

theorem begins_of_mem_acts {task : TcpTask T} {a : TcpAct T} (h : a ∈ task.acts) :
    a.begins = true := by
  cases task with
  | handleEvents events => rcases mem_acts_handleEvents h with rfl | rfl | rfl | rfl <;> rfl
  | start | forceShutdown =>
    simp only [TcpTask.acts, List.mem_cons, List.not_mem_nil, or_false] at h
    rcases h with rfl | rfl <;> rfl
  | _ =>
    obtain rfl := List.mem_singleton.mp h
    rfl

theorem admissible_acts (task : TcpTask T) : ∀ a ∈ task.acts, a.Admissible none := by
  cases task with
  | handleEvents events =>
    intro a ha
    rcases mem_acts_handleEvents ha with rfl | rfl | rfl | rfl <;> rfl
  | _ => simp [TcpTask.acts, TcpAct.Admissible]

theorem immediate_acts (task : TcpTask T) : ∀ a ∈ task.acts.tail, a.immediate = false := by
  cases task with
  | handleEvents events =>
    intro a ha
    rcases mem_acts_handleEvents (List.mem_of_mem_tail ha) with rfl | rfl | rfl | rfl <;> rfl
  | _ => simp [TcpTask.acts, TcpAct.immediate]

theorem shaped_start (addr : Nat) (cells : Nat → UInt8) :
    Shaped (start addr cells : TcpConnection T) := by
  refine ⟨?_, ?_, ?_⟩ <;> simp [start, Stacks.All]

/-! ### Steps -/

/-- The act a step executes. -/
def current (l : TcpLabel T) (s : TcpConnection T) : Option (TcpAct T) :=
  match l with
  | .act w _ => (s.stack w).head?
  | _ => none

theorem current_of_stack {s : TcpConnection T} {w : Option T} {env : TcpEnv} {a : TcpAct T}
    {rest : List (TcpAct T)} (hw : s.stack w = a :: rest) : current (.act w env) s = some a := by
  rw [current, hw, List.head?_cons]

variable [DecidableEq T]

/-- One step from `s`, by its label. -/
inductive Moves (s : TcpConnection T) : TcpLabel T → TcpConnection T → Prop
  | call {t : T} {api : TcpApi} (hidle : s.stack (some t) = []) :
      Moves s (.call t api) { s with stack := update s.stack (some t) [.call api] }
  | act {w : Option T} {env : TcpEnv} {a : TcpAct T} {rest : List (TcpAct T)}
      (hw : s.stack w = a :: rest) :
      Moves s (.act w env) { (s.act w env a).1 with
        stack := update s.stack w ((s.act w env a).2 ++ rest) }
  | task {task : TcpTask T} {queue : List (TcpTask T)} (hidle : s.stack none = [])
      (hq : s.queue = task :: queue) :
      Moves s .task { s with queue := queue, stack := update s.stack none task.acts }
  | collect {interest events : EventMask} (hr : s.registered = some interest)
      (hc : s.collected = none) (he : reportable interest events = true) :
      Moves s (.collect events) { s with collected := some events }
  | dispatch {events : EventMask} (hc : s.collected = some events) :
      Moves s .dispatch { s with collected := none, queue := s.queue ++ [.handleEvents events] }

/-- **Inversion of a step**. -/
theorem moves_of_step {l : TcpLabel T} {s t : TcpConnection T} (h : step l s = some t) :
    s.fatal = none ∧ Moves s l t := by
  unfold step at h
  split_ifs at h with hf
  refine ⟨not_not.mp hf, ?_⟩
  cases l with
  | call u api =>
    simp only [Option.ite_none_right_eq_some, Option.some.injEq] at h
    obtain ⟨hidle, rfl⟩ := h
    exact .call hidle
  | act w env =>
    cases hw : s.stack w with
    | nil => simp [hw] at h
    | cons a rest =>
      simp only [hw, Option.some.injEq] at h
      subst h
      exact .act hw
  | task =>
    cases hidle : s.stack none with
    | cons a rest => simp [hidle] at h
    | nil =>
      cases hq : s.queue with
      | nil => simp [hidle, hq] at h
      | cons task queue =>
        simp only [hidle, hq, Option.some.injEq] at h
        subst h
        exact .task hidle hq
  | collect events =>
    cases hr : s.registered with
    | none => simp [hr] at h
    | some interest =>
      cases hc : s.collected with
      | some m => simp [hr, hc] at h
      | none =>
        simp only [hr, hc, Option.ite_none_right_eq_some, Option.some.injEq] at h
        obtain ⟨he, rfl⟩ := h
        rw [← hr]
        exact .collect hr hc he
  | dispatch =>
    cases hc : s.collected with
    | none => simp [hc] at h
    | some events =>
      simp only [hc, Option.some.injEq] at h
      subst h
      exact .dispatch hc

theorem act_effect (s : TcpConnection T) (w : Option T) (env : TcpEnv) (a : TcpAct T) :
    Effect s w a (s.act w env a).1 := by
  cases a with
  | call api =>
    cases api with
    | send | close | shutdown =>
      by_cases hs : s.state_ = .kConnected <;> constructor <;>
        simp [act, call, hs, TcpAct.stores, TcpAct.masks, TcpAct.registers, TcpAct.submits,
          TcpAct.delivers, TcpAct.shuts, TcpAct.sends, TcpAct.wins]
    | forceShutdown | forceClose =>
      simp only [act, call]
      split_ifs <;> exact .none _ _ _ rfl rfl rfl rfl rfl rfl rfl rfl
  | append p =>
    have h := append_cases s p env
    simp only [act]
    generalize s.append p env = r at h ⊢
    cases h with
    | accepted =>
      exact .output _ _ _ rfl rfl rfl rfl rfl rfl rfl rfl ⟨[p], rfl, by simp⟩
        ⟨[], (List.append_nil _).symm⟩
    | _ => exact .none _ _ _ rfl rfl rfl rfl rfl rfl rfl rfl
  | handleWrite =>
    have h := handleWrite_cases s env
    simp only [act]
    generalize s.handleWrite env = r at h ⊢
    cases h with
    | wrote =>
      exact .output _ _ _ rfl rfl rfl rfl rfl rfl rfl rfl ⟨[], (List.append_nil _).symm, by simp⟩
        ⟨_, rfl⟩
    | _ => exact .none _ _ _ rfl rfl rfl rfl rfl rfl rfl rfl
  | update events =>
    cases hr : s.registered <;> constructor <;>
      simp [act, hr, TcpAct.stores, TcpAct.masks, TcpAct.registers, TcpAct.submits,
        TcpAct.delivers, TcpAct.shuts, TcpAct.sends, TcpAct.wins]
  | connect =>
    by_cases hs : s.state_ = .kConnecting <;> constructor <;>
      simp [act, hs, TcpAct.stores, TcpAct.masks, TcpAct.registers, TcpAct.submits,
        TcpAct.delivers, TcpAct.shuts, TcpAct.sends, TcpAct.wins]
  -- these have one field to change
  | submit | storeDisconnected | storeDisconnecting | addChannel | setReadable | setWritable
    | callback | channelShutdown =>
    constructor <;> simp [act, setEvents, TcpAct.stores, TcpAct.masks, TcpAct.registers,
      TcpAct.submits, TcpAct.delivers, TcpAct.shuts, TcpAct.sends, TcpAct.wins]
  | _ =>
    simp only [act]
    repeat' split
    -- no branch touches a field
    all_goals exact .none _ _ _ rfl rfl rfl rfl rfl rfl rfl rfl

/-- An operation, up to its first access to `state_`, touches no other field. -/
theorem call_frame (s : TcpConnection T) (w : Option T) (api : TcpApi) : ∃ st c x,
    (s.call w api).1 = { s with state_ := st, calls := s.calls ++ c, winner := x } := by
  cases api with
  | send buffer => exact ⟨_, _, _, rfl⟩
  | _ =>
    simp only [call]
    split_ifs
    all_goals exact ⟨_, [], _, by rw [List.append_nil]⟩

/-- Every way for the process to end has its cause. -/
theorem fatal_act {s : TcpConnection T} {w : Option T} {env : TcpEnv} {a : TcpAct T} {f : TcpFatal}
    (hfatal : s.fatal = none) (h : (s.act w env a).1.fatal = some f) : Cause s a f := by
  cases a with
  | handleWrite =>
    have hcases := handleWrite_cases s env
    simp only [act] at h
    generalize s.handleWrite env = r at hcases h
    cases hcases with
    | notWritable hw =>
      obtain rfl := Option.some.inj h
      exact ⟨rfl, hw⟩
    | noLoad | noRetrieve =>
      obtain rfl := Option.some.inj h
      exact .inl rfl
    | _ => simp [hfatal] at h
  | append p =>
    have hcases := append_cases s p env
    simp only [act] at h
    generalize s.append p env = r at hcases h
    cases hcases with
    | fault | full =>
      obtain rfl := Option.some.inj h
      exact .inr ⟨p, rfl⟩
    | accepted => simp [hfatal] at h
  | call api =>
    -- no operation ends the process before its first access to `state_`
    obtain ⟨st, c, x, hcall⟩ := call_frame s w api
    simp [act, hcall, hfatal] at h
  | update events =>
    simp only [act] at h
    split_ifs at h with hr
    · simp [hfatal] at h
    · obtain rfl := Option.some.inj h
      exact ⟨by simpa using hr, events, rfl⟩
  | handleRemove =>
    simp only [act] at h
    split_ifs at h with hs
    · simp [hfatal] at h
    · obtain rfl := Option.some.inj h
      exact ⟨rfl, hs⟩
  | channelShutdown close_read =>
    simp only [act] at h
    split_ifs at h
    · simp [hfatal] at h
    · obtain rfl := Option.some.inj h
      exact ⟨close_read, rfl⟩
  | _ =>
    simp only [act, setEvents] at h
    repeat' split at h
    all_goals simp [hfatal] at h

theorem act_next (s : TcpConnection T) (w : Option T) (env : TcpEnv) (a : TcpAct T) :
    Next s w env a (s.act w env a).2 := by
  cases a with
  | call api =>
    cases api with
    | send buffer =>
      simp only [act, call]
      split_ifs with hw
      · exact .sendOnLoop (p := ⟨w, buffer, s.state_ = .kConnected⟩) hw hw
      · exact .send (p := ⟨w, buffer, s.state_ = .kConnected⟩) hw rfl
    | close =>
      simp only [act, call]
      split_ifs with hs
      · exact .close hs
      · exact .nil
    | shutdown close_read =>
      simp only [act, call]
      split_ifs with hs
      · exact .shutdown hs
      · exact .nil
    | forceShutdown =>
      simp only [act, call]
      split_ifs with hs
      · exact .nil
      · exact .forceShutdown hs
    | forceClose =>
      simp only [act, call]
      split_ifs with hs
      · exact .nil
      · exact .forceClose hs
  | append p =>
    have h := append_cases s p env
    simp only [act]
    generalize s.append p env = r at h ⊢
    cases h with
    | accepted => exact .append
    | _ => exact .nil
  | handleWrite =>
    have h := handleWrite_cases s env
    simp only [act]
    generalize hr : s.handleWrite env = r at h ⊢
    cases h with
    | failed _ he => exact .writeFailed he
    | wrote | empty =>
      simp only [drained]
      split_ifs with hz
      · exact .drained (by rw [hr]; exact hz)
      · exact .nil
    | _ => exact .nil
  | setReadable on =>
    simp only [act, setEvents]
    split_ifs
    · exact .setReadable
    · exact .nil
  | setWritable on =>
    simp only [act, setEvents]
    split_ifs
    · exact .setWritable
    · exact .nil
  | handleSend p =>
    simp only [act]
    split_ifs with hs
    · exact .nil
    · exact .nil
    · exact .handleSend (not_not.mp hs)
  | handleRead =>
    simp only [act]
    split
    · exact .nil
    · exact .readFailed
    · exact .readEnd
    · exact .readData
  | submit | addChannel | channelShutdown | clearConn => exact .nil
  | update =>
    simp only [act]
    split_ifs <;> exact .nil
  | storeDisconnected => exact .storeDisconnected
  | storeDisconnecting => exact .storeDisconnecting
  | handleError => exact .handleError
  | callback => exact .callback
  | connect =>
    simp only [act]
    split_ifs with hs
    · exact .connect hs
    · exact .nil
  | handleClose =>
    simp only [act]
    split_ifs with hs
    · exact .nil
    · exact .handleClose hs
  | handleRemove =>
    simp only [act]
    split_ifs with hs
    · exact .handleRemove hs
    · exact .nil
  | checkDisconnecting =>
    simp only [act]
    split_ifs with hs
    · exact .checkDisconnecting hs
    · exact .nil
  | closeTask =>
    simp only [act]
    split_ifs with hz
    · exact .closeTask hz
    · exact .nil
  | shutdownTask close_read =>
    simp only [act]
    split_ifs with hz
    · exact .shutdownTask hz
    · exact .nil

/-- Replacing one stack by one of the right shape. -/
theorem tail_update {s : TcpConnection T} {p : TcpAct T → Prop}
    (h : ∀ v, ∀ a ∈ (s.stack v).tail, p a) (w : Option T) {l : List (TcpAct T)}
    (hl : ∀ a ∈ l.tail, p a) : ∀ v, ∀ a ∈ (update s.stack w l v).tail, p a := by
  intro v
  by_cases hv : v = w
  · subst hv
    rwa [Function.update_self]
  · rw [Function.update_of_ne hv]
    exact h v

section Step

variable {l : TcpLabel T} {s t : TcpConnection T}

/-- A step that executes an act. -/
theorem act_of_current (h : step l s = some t) {a : TcpAct T} (ha : current l s = some a) :
    ∃ w env rest, l = .act w env ∧ s.stack w = a :: rest ∧
      t = { (s.act w env a).1 with stack := update s.stack w ((s.act w env a).2 ++ rest) } := by
  obtain ⟨-, hmoves⟩ := moves_of_step h
  cases hmoves with
  | @act w env b rest hw =>
    obtain rfl := Option.some.inj ((current_of_stack hw).symm.trans ha)
    exact ⟨w, env, rest, rfl, hw, rfl⟩
  | _ => cases ha

theorem state_of_current (h : step l s = some t) {a : TcpAct T} (ha : current l s = some a) :
    t.state_ = a.stores s.state_ := by
  obtain ⟨w, env, rest, -, -, rfl⟩ := act_of_current h ha
  exact (act_effect s w env a).state_

/-- **What is on the stacks** after a step: a thread begins an operation, an act is replaced by what
follows it, or the loop's thread begins a task. -/
theorem all_step {p : Option T → TcpAct T → Prop} (hs : Stacks.All p s.stack)
    (hcall : ∀ u api, l = .call u api → p (some u) (.call api))
    (hact : ∀ w env a new, l = .act w env → current l s = some a → p w a → Next s w env a new →
      ∀ b ∈ new, p w b)
    (htask : ∀ task ∈ s.queue, ∀ b ∈ task.acts, p none b) (h : step l s = some t) :
    Stacks.All p t.stack := by
  obtain ⟨-, hmoves⟩ := moves_of_step h
  cases hmoves with
  | @call u api hidle =>
    apply Stacks.all_begin hs
    intro b hb
    obtain rfl := List.mem_singleton.mp hb
    exact hcall u api rfl
  | @act w env a rest hw =>
    exact Stacks.all_advance hs hw
      (hact w env a _ rfl (current_of_stack hw) (hs.head hw) (act_next s w env a))
  | @task task queue hidle hq =>
    exact Stacks.all_begin hs (htask task (hq ▸ List.mem_cons_self))
  | collect => exact hs
  | dispatch => exact hs

/-- **What is on the queue** after a step: what was there before, what the act submits, or a task
for an event. -/
theorem mem_queue_step (h : step l s = some t) {task : TcpTask T} (ht : task ∈ t.queue) :
    task ∈ s.queue ∨ (∃ w a, a ∈ s.stack w ∧ current l s = some a ∧ task ∈ a.submits) ∨
      ∃ events ∈ s.collected, task = .handleEvents events := by
  obtain ⟨-, hmoves⟩ := moves_of_step h
  cases hmoves with
  | call => exact .inl ht
  | @act w env a rest hw =>
    dsimp only at ht
    rw [(act_effect s w env a).queue, List.mem_append] at ht
    exact ht.imp_right fun ht => .inl ⟨w, a, hw ▸ List.mem_cons_self, current_of_stack hw, ht⟩
  | task hidle hq => exact .inl (hq ▸ List.mem_cons_of_mem _ ht)
  | collect => exact .inl ht
  | dispatch hc =>
    refine (List.mem_append.mp ht).imp_right fun ht => .inr ⟨_, hc, ?_⟩
    exact List.mem_singleton.mp ht

/-- **What is below the tops of the stacks** after a step. -/
theorem tail_step {p : TcpAct T → Prop} (hs : ∀ w, ∀ a ∈ (s.stack w).tail, p a)
    (hnext : ∀ w env a new, Next s w env a new → ∀ b ∈ new.tail, p b)
    (htask : ∀ task : TcpTask T, ∀ b ∈ task.acts.tail, p b) (h : step l s = some t) :
    ∀ w, ∀ a ∈ (t.stack w).tail, p a := by
  obtain ⟨-, hmoves⟩ := moves_of_step h
  cases hmoves with
  | call => exact tail_update hs _ (by simp)
  | @act w env a rest hw =>
    have hrest : ∀ b ∈ rest, p b := by simpa [hw] using hs w
    apply tail_update hs w
    cases hn : (s.act w env a).2 with
    | nil => exact fun b hb => hrest b (List.mem_of_mem_tail hb)
    | cons c new =>
      intro b hb
      rcases List.mem_append.mp hb with hb | hb
      · exact hnext w env a _ (act_next s w env a) b (by simpa [hn] using hb)
      · exact hrest b hb
  | @task task queue hidle hq => exact tail_update hs none (htask task)
  | collect => exact hs
  | dispatch => exact hs

theorem shaped_step (hs : Shaped s) (h : step l s = some t) : Shaped t := by
  have himmediate := tail_step hs.immediate (fun _ _ _ _ hnext => hnext.immediate) immediate_acts h
  refine ⟨?_, himmediate, ?_⟩
  · exact all_step hs.admissible (fun u api _ => trivial)
      (fun w env a new _ _ ha hnext => hnext.admissible ha) (fun task _ => admissible_acts task) h
  · intro p hp
    rcases mem_queue_step h hp with hp | ⟨w, a, ha, -, hp⟩ | ⟨events, -, heq⟩
    · exact hs.queued p hp
    · -- only a thread other than the loop's submits it
      have hadm := hs.admissible w a ha
      rw [mem_submits hp] at hadm
      rw [hadm.2]
      exact hadm.1
    · cases heq

end Step

/-! ### Schedules -/

/-- The handler calls nothing, every system call succeeds and there is nothing to read. -/
def quiet : TcpEnv := ⟨.again, some 100, [], ⟨fun _ => none, fun _ _ => rfl⟩, true⟩

/-- Two bytes to send. -/
def twoBytes : Bytes := ⟨[1, 2], by decide⟩

/-- The loop's thread takes a task and executes the first `n` acts it leads to. -/
def runTask (n : Nat) : List (TcpLabel T) := .task :: List.replicate n (.act none quiet)

/-- A thread calls an operation and executes the first `n` acts of it. -/
def runCall (t : T) (api : TcpApi) (n : Nat) : List (TcpLabel T) :=
  .call t api :: List.replicate n (.act (some t) quiet)

end TcpConnection

end Lizlib
