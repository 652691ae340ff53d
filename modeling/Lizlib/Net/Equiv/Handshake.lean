import Lizlib.Data.WaitGraph
import Lizlib.Net.Handshake

/-!
# When the handshake with a loop hangs

A caller blocked in `latch.Await()` waits for a loop that has its callback, queued or running.
`noHang_of_safe`: nobody waits for ever in a run in which no callback is dropped by a loop that has
been joined, no loop goes to sleep on a callback, and no two loops wait for each other (`Safe`).
-/

namespace Lizlib

namespace Handshakes

open Function (update)

variable {T E : Type*}

/-! ### Who waits for whom -/

/-- The act leads to `latch.CountDown()`. -/
def serves (latch : Nat) : HandshakeAct E → Prop
  | .serve _ n | .countDown n => n = latch
  | _ => False

/-- Thread `w` is blocked in `latch.Await()`. -/
def Blocked (s : Handshakes T E) (w : Caller T E) (e : E) (latch : Nat) : Prop :=
  (s.stack w).head? = some (.blocked e latch) ∧ s.down latch = false

/-- Some thread is about to notify loop `e`. -/
def Notified (s : Handshakes T E) (e : E) : Prop := ∃ w, (s.stack w).head? = some (.notify e)

/-- The callbacks of loop `e` behind the one that it is about to take, if it is. -/
def upcoming (s : Handshakes T E) (e : E) : List HandshakeTask :=
  if s.pc e = .look then (s.queue e).tail else s.queue e

/-- The callback is queued on loop `e`, which will still take it. -/
structure Comes (s : Handshakes T E) (e : E) (task : HandshakeTask) : Prop where
  mem : task ∈ s.queue e
  running : s.pc e ≠ .exited
  cancelled : s.cancel_signal_ e = true → s.pc e = .look ∧ (s.queue e).head? = some task
  awake : s.pc e = .asleep → s.Notified e

/-- The callback that counts the latch down is running on loop `e`, or will be. -/
def Serves (s : Handshakes T E) (e : E) (latch : Nat) : Prop :=
  (∃ a ∈ s.stack (.loop e), serves latch a) ∨ ∃ kind, s.Comes e (.serve kind latch)

/-- Thread `w` is not blocked on a latch. -/
def Free (s : Handshakes T E) (w : Caller T E) : Prop := ∀ e latch, ¬ s.Blocked w e latch

/-- Thread `w` is blocked on a latch that the loop `u` counts down. -/
def Waits (s : Handshakes T E) (w u : Caller T E) : Prop :=
  ∃ e latch, s.Blocked w e latch ∧ s.Serves e latch ∧ u = .loop e

/-- Nobody waits for ever: a blocked caller waits for a loop that has its callback, will still
execute it, and is not waiting for ever itself. -/
def NoHang (s : Handshakes T E) : Prop := ∀ w, GetsOn s.Free s.Waits w

/-- A callback of a handshake is submitted before the loop is joined, and the loop is joined with
none before it; nobody waits for a loop that waits for them; and no loop goes to sleep with callbacks
queued and nobody about to notify it. -/
def Safe (l : HandshakeLabel T E) (s : Handshakes T E) : Prop :=
  match l with
  | .act w _ =>
    match s.stack w with
    | .submit e (.serve _ _) :: _ => s.cancel_signal_ e = false
    | .store e :: _ =>
      (∀ v kind latch, .push e (.serve kind latch) ∉ s.stack v) ∧
        ∀ kind latch, .serve kind latch ∉ s.upcoming e
    | .await e latch :: _ =>
      w ≠ .loop e → s.down latch = false → ¬ Relation.ReflTransGen s.Waits (.loop e) w
    | _ => True
  | .loop e => s.pc e = .wait → s.queue e = [] ∨ s.Notified e
  | _ => True

variable [DecidableEq T] [DecidableEq E]

/-! ### Steps -/

/-- What one act does, and what it leaves to be done. -/
structure ActFrame (s : Handshakes T E) (w : Caller T E) (a : HandshakeAct E)
    (next : Handshakes T E × List (HandshakeAct E)) : Prop where
  stack : next.1.stack = s.stack
  down : ∀ latch, s.down latch = true → next.1.down latch = true
  pc : next.1.pc = s.pc ∨ ∃ e, a = .notify e ∧ next.1 = s.wake e
  queue : ∀ e, next.1.queue e = s.queue e ∨
    ∃ task, a = .push e task ∧ next.1.queue e = s.queue e ++ [task]
  cancelled : ∀ e, next.1.cancel_signal_ e = s.cancel_signal_ e ∨ a = .store e
  serves : ∀ latch, serves latch a → (∃ b ∈ next.2, serves latch b) ∨ next.1.down latch = true
  submit : ∀ e kind latch, .submit e (.serve kind latch) ∈ next.2 → w ≠ .loop e
  push : ∀ e kind latch, .push e (.serve kind latch) ∈ next.2 →
    a = .submit e (.serve kind latch) ∧ s.cancel_signal_ e = false
  await : ∀ e latch, .await e latch ∈ next.2 →
    (w = .loop e ∧ ∃ kind, next.2 = [.serve kind latch, .await e latch]) ∨
    (∃ kind, a = .submit e (.serve kind latch) ∧ s.cancel_signal_ e = true) ∨
    ∃ kind, a = .push e (.serve kind latch)
  blocked : ∀ e latch, .blocked e latch ∈ next.2 → a = .await e latch ∧ next.2 = [.blocked e latch]

theorem act_frame (s : Handshakes T E) (w : Caller T E) (env : HandshakeEnv E)
    (a : HandshakeAct E) : ActFrame s w a (s.act w env a) := by
  cases a with
  | call api =>
    cases api with
    | handshake kind e =>
      by_cases hw : w = .loop e
      · simp only [act, hw, ne_eq, not_true, if_false]
        constructor <;> simp [serves]
      · simp only [act, hw, ne_eq, not_false_eq_true, if_true]
        constructor <;> simp [serves]
        rintro _ _ _ rfl - -
        exact hw
    | submit e => constructor <;> simp [act, serves]
  | submit e task =>
    by_cases hc : s.cancel_signal_ e = true
    · cases task <;> constructor <;> simp [act, serves, hc, HandshakeTask.after]
    · rw [Bool.not_eq_true] at hc
      cases task <;> constructor <;> simp [act, serves, hc]
      rintro _ _ _ rfl rfl rfl
      exact ⟨⟨rfl, rfl, rfl⟩, hc⟩
  | push e task =>
    have hqueue : ∀ e', update s.queue e (s.queue e ++ [task]) e' = s.queue e' ∨
        ∃ task', HandshakeAct.push e task = .push e' task' ∧
          update s.queue e (s.queue e ++ [task]) e' = s.queue e' ++ [task'] := by
      intro e'
      by_cases he : e' = e
      · subst he
        exact .inr ⟨task, rfl, Function.update_self _ _ _⟩
      · exact .inl (Function.update_of_ne he _ _)
    by_cases hq : s.queue e = []
    · cases task <;> constructor <;>
        first | exact hqueue | simp [act, serves, hq, HandshakeTask.after]
    · cases task <;> constructor <;>
        first | exact hqueue | simp [act, serves, hq, HandshakeTask.after]
  | notify e => constructor <;> simp [act, serves, wake]
  | serve kind latch =>
    cases kind with
    | start => by_cases hc : env.connecting = true <;> constructor <;> simp [act, serves, hc]
    | close => constructor <;> simp [act, serves]
  | handler => constructor <;> simp [act, serves]
  | countDown latch =>
    constructor <;> simp [act, serves]
    intro n hn
    by_cases h : n = latch
    · simp [h]
    · simpa [h] using hn
  | await e latch => by_cases hd : s.down latch = true <;> constructor <;> simp [act, serves, hd]
  | blocked e latch => constructor <;> simp [act, serves]
  | join e => by_cases hc : s.cancel_signal_ e = true <;> constructor <;> simp [act, serves, hc]
  | store e =>
    constructor <;> simp [act, serves]
    intro e'
    by_cases he : e' = e
    · simp [he]
    · simp [he]
  | joinThread e => constructor <;> simp [act, serves]

/-- The steps that are no acts of a thread. -/
inductive Idle (s : Handshakes T E) : Handshakes T E → Prop
  | begins (t : T) (a : HandshakeAct E) (h : s.stack (.other t) = [])
      (ha : (∃ api, a = .call api) ∨ ∃ e, a = .join e) :
      Idle s { s with stack := update s.stack (.other t) [a] }
  | check (e : E) (h : s.pc e = .check) :
      Idle s { s with pc := update s.pc e (if s.cancel_signal_ e then .exited else .look) }
  | empty (e : E) (hq : s.queue e = []) : Idle s { s with pc := update s.pc e .wait }
  | pop (e : E) (task : HandshakeTask) (rest : List HandshakeTask) (h : s.stack (.loop e) = [])
      (hq : s.queue e = task :: rest) :
      Idle s { s with
        pc := update s.pc e .check
        queue := update s.queue e rest
        stack := update s.stack (.loop e) task.acts }
  | wait (e : E) (h : s.pc e = .wait) (hsafe : s.queue e = [] ∨ s.Notified e) :
      Idle s { s with pc := update s.pc e .asleep }
  | wake (e : E) : Idle s (s.wake e)

/-- Thread `w` executes the act `a`. -/
def acted (s : Handshakes T E) (w : Caller T E) (env : HandshakeEnv E) (a : HandshakeAct E)
    (rest : List (HandshakeAct E)) : Handshakes T E :=
  { (s.act w env a).1 with stack := update s.stack w ((s.act w env a).2 ++ rest) }

/-- What a step does. -/
theorem step_cases {l : HandshakeLabel T E} {s t : Handshakes T E} (hsafe : Safe l s)
    (h : step l s = some t) :
    Idle s t ∨ ∃ w env a rest, l = .act w env ∧ s.stack w = a :: rest ∧ t = s.acted w env a rest := by
  cases l with
  | call t' api =>
    simp only [step] at h
    split at h
    case isTrue hs =>
      obtain rfl := Option.some.inj h
      exact .inl (.begins t' _ hs (.inl ⟨api, rfl⟩))
    case isFalse => cases h
  | join t' e =>
    simp only [step] at h
    split at h
    case isTrue hs =>
      obtain rfl := Option.some.inj h
      exact .inl (.begins t' _ hs (.inr ⟨e, rfl⟩))
    case isFalse => cases h
  | act w env =>
    simp only [step] at h
    split at h
    case h_1 => cases h
    case h_2 a rest hs =>
      split at h
      case isTrue =>
        obtain rfl := Option.some.inj h
        exact .inr ⟨w, env, a, rest, rfl, hs, rfl⟩
      case isFalse => cases h
  | loop e =>
    simp only [step] at h
    split at h
    case isFalse => cases h
    case isTrue hs =>
      unfold loopStep at h
      split at h
      case h_1 hpc =>
        obtain rfl := Option.some.inj h
        exact .inl (.check e hpc)
      case h_2 hpc =>
        split at h
        case h_1 hq =>
          obtain rfl := Option.some.inj h
          exact .inl (.empty e hq)
        case h_2 task rest hq =>
          obtain rfl := Option.some.inj h
          exact .inl (.pop e task rest hs hq)
      case h_3 hpc =>
        obtain rfl := Option.some.inj h
        exact .inl (.wait e hpc (hsafe hpc))
      case h_4 => cases h
      case h_5 => cases h
  | spurious e =>
    simp only [step] at h
    split at h
    case isTrue =>
      obtain rfl := Option.some.inj h
      exact .inl (.wake e)
    case isFalse => cases h

variable {s t : Handshakes T E}

theorem Idle.down (h : Idle s t) : t.down = s.down := by cases h <;> rfl

theorem Idle.cancel_signal_ (h : Idle s t) : t.cancel_signal_ = s.cancel_signal_ := by
  cases h <;> rfl

omit [DecidableEq T] in
/-- A loop that is notified is not asleep, and no other is concerned. -/
theorem wake_pc (s : Handshakes T E) (e e' : E) :
    (s.wake e).pc e' = s.pc e' ∧ (s.pc e' = .asleep → e' ≠ e) ∨
      s.pc e' = .asleep ∧ (s.wake e).pc e' = .check := by
  by_cases hpc : s.pc e = .asleep
  · by_cases he : e' = e
    · subst he
      exact .inr ⟨hpc, by simp [wake, hpc]⟩
    · exact .inl ⟨by simp [wake, hpc, he], fun _ => he⟩
  · refine .inl ⟨by simp [wake, hpc], ?_⟩
    rintro h rfl
    exact hpc h

/-- Where the thread of a loop stands after a step that is no act. -/
theorem Idle.pc (h : Idle s t) (e : E) :
    t.pc e = s.pc e ∧ t.queue e = s.queue e ∨
      t.pc e = .exited ∧ s.cancel_signal_ e = true ∨
      t.pc e = .asleep ∧ t.queue e = s.queue e ∧ (s.queue e = [] ∨ s.Notified e) ∨
      t.pc e ≠ .exited ∧ t.pc e ≠ .asleep := by
  cases h with
  | begins => exact .inl ⟨rfl, rfl⟩
  | check e' =>
    by_cases he : e = e'
    · subst he
      cases hc : s.cancel_signal_ e with
      | true => exact .inr (.inl ⟨by simp, rfl⟩)
      | false => exact .inr (.inr (.inr (by simp)))
    · exact .inl ⟨by simp [he], rfl⟩
  | empty e' =>
    by_cases he : e = e'
    · subst he
      exact .inr (.inr (.inr (by simp)))
    · exact .inl ⟨by simp [he], rfl⟩
  | pop e' =>
    by_cases he : e = e'
    · subst he
      exact .inr (.inr (.inr (by simp)))
    · exact .inl (by simp [he])
  | wait e' _ hw =>
    by_cases he : e = e'
    · subst he
      exact .inr (.inr (.inl ⟨by simp, rfl, hw⟩))
    · exact .inl ⟨by simp [he], rfl⟩
  | wake e' =>
    rcases wake_pc s e' e with ⟨h, -⟩ | ⟨-, h⟩
    · exact .inl ⟨h, rfl⟩
    · exact .inr (.inr (.inr (by simp [h])))

/-- Where the thread of a loop stands after an act, of another thread or of its own. -/
theorem acted_pc (s : Handshakes T E) (w : Caller T E) (env : HandshakeEnv E) (a : HandshakeAct E)
    (rest : List (HandshakeAct E)) (e : E) :
    (s.acted w env a rest).pc e = s.pc e ∧ (s.pc e = .asleep → a ≠ .notify e) ∨
      s.pc e = .asleep ∧ (s.acted w env a rest).pc e = .check := by
  show (s.act w env a).1.pc e = s.pc e ∧ _ ∨ _ ∧ (s.act w env a).1.pc e = .check
  by_cases ha : ∃ e', a = .notify e'
  · obtain ⟨e', rfl⟩ := ha
    rcases wake_pc s e' e with ⟨h, hne⟩ | h
    · refine .inl ⟨h, fun hpc heq => ?_⟩
      exact hne hpc (HandshakeAct.notify.inj heq).symm
    · exact .inr h
  · rcases (act_frame s w env a).pc with h | ⟨e', h, -⟩
    · refine .inl ⟨by rw [h], ?_⟩
      rintro - rfl
      exact ha ⟨e, rfl⟩
    · exact absurd ⟨e', h⟩ ha

/-! ### What a caller waits for is not lost -/

/-- A notification that is about to come still is after another act. -/
theorem Notified.of_update {e : E} {w : Caller T E} {as : List (HandshakeAct E)}
    (hn : s.Notified e) (hw : (s.stack w).head? ≠ some (.notify e))
    (ht : t.stack = update s.stack w as) : t.Notified e := by
  obtain ⟨v, hv⟩ := hn
  have hne : v ≠ w := by
    rintro rfl
    exact hw hv
  exact ⟨v, by rw [ht, Function.update_of_ne hne, hv]⟩

theorem Idle.notified {e : E} (h : Idle s t) (hn : s.Notified e) : t.Notified e := by
  cases h with
  | begins t' a hs => exact hn.of_update (by simp [hs]) rfl
  | pop e' task rest hs => exact hn.of_update (by simp [hs]) rfl
  | check | empty | wait | wake => exact hn

theorem acted_notified {w : Caller T E} {env : HandshakeEnv E} {a : HandshakeAct E}
    {rest : List (HandshakeAct E)} {e : E} (hs : s.stack w = a :: rest) (hn : s.Notified e)
    (hpc : (s.acted w env a rest).pc e = .asleep) :
    s.pc e = .asleep ∧ (s.acted w env a rest).Notified e := by
  rcases acted_pc s w env a rest e with ⟨h, hne⟩ | ⟨-, h⟩
  · rw [h] at hpc
    refine ⟨hpc, hn.of_update ?_ rfl⟩
    rw [hs]
    intro heq
    exact hne hpc (Option.some.inj heq)
  · rw [h] at hpc
    cases hpc

omit [DecidableEq T] [DecidableEq E] in
/-- A callback comes as long as nothing happens to its loop. -/
theorem Comes.frame {e : E} {task : HandshakeTask} (hc : s.Comes e task)
    (hqueue : t.queue e = s.queue e) (hpc : t.pc e = s.pc e)
    (hcancel : t.cancel_signal_ e = s.cancel_signal_ e)
    (hnotified : s.Notified e → t.Notified e) : t.Comes e task where
  mem := by
    rw [hqueue]
    exact hc.mem
  running := by
    rw [hpc]
    exact hc.running
  cancelled := by
    rw [hcancel, hpc, hqueue]
    exact hc.cancelled
  awake := by
    rw [hpc]
    exact fun h => hnotified (hc.awake h)

omit [DecidableEq T] [DecidableEq E] in
/-- A loop that is to take the callback at its next look, or has not been joined. -/
theorem Comes.not_cancelled {e : E} {task : HandshakeTask} (hc : s.Comes e task)
    (hpc : s.pc e ≠ .look) : s.cancel_signal_ e ≠ true := by
  intro h
  exact hpc (hc.cancelled h).1

/-- The callback is taken, or still comes, when a loop takes a step. -/
theorem Comes.idle {e : E} {kind : Handshake} {latch : Nat} (hc : s.Comes e (.serve kind latch))
    (h : Idle s t) : t.Serves e latch := by
  have hnotified := h.notified (e := e)
  cases h with
  | begins t' a hs => exact .inr ⟨kind, hc.frame rfl rfl rfl hnotified⟩
  | check e' hpc =>
    refine .inr ⟨kind, ?_⟩
    by_cases he : e = e'
    · subst he
      have hcancel := hc.not_cancelled (by simp [hpc])
      constructor <;> simp [hc.mem, hcancel]
    · exact hc.frame rfl (by simp [he]) rfl hnotified
  | empty e' hq =>
    have he : e ≠ e' := by
      rintro rfl
      have hmem := hc.mem
      rw [hq] at hmem
      cases hmem
    exact .inr ⟨kind, hc.frame rfl (by simp [he]) rfl hnotified⟩
  | pop e' task rest hs hq =>
    by_cases he : e = e'
    · subst he
      by_cases htask : task = .serve kind latch
      · subst htask
        exact .inl ⟨.serve kind latch, by simp [HandshakeTask.acts], rfl⟩
      · have hmem := hc.mem
        rw [hq, List.mem_cons] at hmem
        have hcancel : s.cancel_signal_ e ≠ true := by
          intro hcancel
          have hhead := (hc.cancelled hcancel).2
          rw [hq] at hhead
          exact htask (Option.some.inj hhead)
        refine .inr ⟨kind, ?_⟩
        constructor <;> simp [hmem.resolve_left (Ne.symm htask), hcancel]
    · exact .inr ⟨kind, hc.frame (by simp [he]) (by simp [he]) rfl hnotified⟩
  | wait e' hpc hsafe =>
    refine .inr ⟨kind, ?_⟩
    by_cases he : e = e'
    · subst he
      have hcancel := hc.not_cancelled (by simp [hpc])
      have hne : s.queue e ≠ [] := List.ne_nil_of_mem hc.mem
      have hn := hnotified (hsafe.resolve_left hne)
      constructor <;> simp [hc.mem, hcancel, hn]
    · exact hc.frame rfl (by simp [he]) rfl hnotified
  | wake e' =>
    refine .inr ⟨kind, ?_⟩
    rcases wake_pc s e' e with ⟨hpc, -⟩ | ⟨hpc, hcheck⟩
    · exact hc.frame rfl hpc rfl hnotified
    · have hcancel := hc.not_cancelled (by simp [hpc])
      exact ⟨hc.mem, by simp [hcheck], fun h => absurd h hcancel, by simp [hcheck]⟩

omit [DecidableEq T] [DecidableEq E] in
/-- The only callback that is queued and not upcoming is the one that the loop is about to take. -/
theorem head_of_not_upcoming {e : E} {task : HandshakeTask} (hmem : task ∈ s.queue e)
    (hnot : task ∉ s.upcoming e) : s.pc e = .look ∧ (s.queue e).head? = some task := by
  by_cases hpc : s.pc e = .look
  · refine ⟨hpc, ?_⟩
    rw [upcoming, if_pos hpc] at hnot
    cases hq : s.queue e with
    | nil => simp [hq] at hmem
    | cons first rest =>
      rw [hq, List.mem_cons] at hmem
      rw [hq] at hnot
      rw [hmem.resolve_right hnot]
      rfl
  · rw [upcoming, if_neg hpc] at hnot
    exact absurd hmem hnot

/-- The callback still comes when a thread executes an act. -/
theorem Comes.acted {w : Caller T E} {env : HandshakeEnv E} {a : HandshakeAct E}
    {rest : List (HandshakeAct E)} {e : E} {kind : Handshake} {latch : Nat}
    (hc : s.Comes e (.serve kind latch)) (hs : s.stack w = a :: rest) (hsafe : Safe (.act w env) s) :
    (s.acted w env a rest).Comes e (.serve kind latch) where
  mem := by
    rcases (act_frame s w env a).queue e with h | ⟨task, -, h⟩
    · show _ ∈ (s.act w env a).1.queue e
      rw [h]
      exact hc.mem
    · show _ ∈ (s.act w env a).1.queue e
      rw [h]
      exact List.mem_append_left _ hc.mem
  running := by
    rcases acted_pc s w env a rest e with ⟨h, -⟩ | ⟨-, h⟩
    · rw [h]
      exact hc.running
    · rw [h]
      decide
  cancelled := by
    intro hcancel
    have hbefore : s.pc e = .look ∧ (s.queue e).head? = some (.serve kind latch) := by
      rcases (act_frame s w env a).cancelled e with h | rfl
      · exact hc.cancelled (h.symm.trans hcancel)
      · simp only [Safe, hs] at hsafe
        exact head_of_not_upcoming hc.mem (hsafe.2 kind latch)
    constructor
    · rcases acted_pc s w env a rest e with ⟨h, -⟩ | ⟨h, -⟩
      · rw [h, hbefore.1]
      · rw [hbefore.1] at h
        cases h
    · show ((s.act w env a).1.queue e).head? = _
      rcases (act_frame s w env a).queue e with h | ⟨task, -, h⟩
      · rw [h, hbefore.2]
      · rw [h, List.head?_append, hbefore.2]
        rfl
  awake := by
    intro hpc
    rcases acted_pc s w env a rest e with ⟨h, -⟩ | ⟨-, h⟩
    · exact (acted_notified hs (hc.awake (h.symm.trans hpc)) hpc).2
    · rw [h] at hpc
      cases hpc

/-- **What a caller waits for is not lost**: it runs, will run or has run. -/
theorem serves_step {l : HandshakeLabel T E} (hsafe : Safe l s) (h : step l s = some t) {e : E}
    {latch : Nat} (hserves : s.Serves e latch) : t.Serves e latch ∨ t.down latch = true := by
  rcases step_cases hsafe h with hidle | ⟨w, env, a, rest, rfl, hs, rfl⟩
  · left
    rcases hserves with ⟨b, hb, hlatch⟩ | ⟨kind, hc⟩
    · refine .inl ⟨b, ?_, hlatch⟩
      cases hidle with
      | begins t' a hs => simpa using hb
      | pop e' task rest hs =>
        have hne : e ≠ e' := by
          rintro rfl
          simp [hs] at hb
        simpa [hne] using hb
      | check | empty | wait | wake => exact hb
    · exact hc.idle hidle
  · rcases hserves with ⟨b, hb, hlatch⟩ | ⟨kind, hc⟩
    · by_cases hw : .loop e = w
      · subst hw
        rw [hs, List.mem_cons] at hb
        rcases hb with rfl | hb
        · rcases (act_frame s (.loop e) env b).serves latch hlatch with ⟨c, hc, hserves⟩ | hdown
          · exact .inl (.inl ⟨c, by simp [acted, hc], hserves⟩)
          · exact .inr hdown
        · exact .inl (.inl ⟨b, by simp [acted, hb], hlatch⟩)
      · exact .inl (.inl ⟨b, by simpa [acted, hw] using hb, hlatch⟩)
    · exact .inl (.inr ⟨kind, hc.acted hs hsafe⟩)

/-! ### The invariant -/

theorem down_step {l : HandshakeLabel T E} (hsafe : Safe l s)
    (h : step l s = some t) {latch : Nat} (hdown : s.down latch = true) : t.down latch = true := by
  rcases step_cases hsafe h with hidle | ⟨w, env, a, rest, rfl, hs, rfl⟩
  · rw [hidle.down]
    exact hdown
  · exact (act_frame s w env a).down latch hdown

/-- Where what a thread has yet to do comes from. -/
theorem mem_stack_step {l : HandshakeLabel T E} (hsafe : Safe l s) (h : step l s = some t)
    {v : Caller T E} {b : HandshakeAct E} (hb : b ∈ t.stack v) :
    b ∈ s.stack v ∨
      (∃ env a rest, l = .act v env ∧ s.stack v = a :: rest ∧ b ∈ (s.act v env a).2) ∨
      (∃ api, b = .call api) ∨ (∃ e, b = .join e) ∨ ∃ task : HandshakeTask, b ∈ task.acts := by
  rcases step_cases hsafe h with hidle | ⟨w, env, a, rest, rfl, hs, rfl⟩
  · cases hidle with
    | begins t' a hs ha =>
      by_cases hv : v = .other t'
      · subst hv
        obtain rfl : b = a := by simpa using hb
        rcases ha with ha | ha
        · exact .inr (.inr (.inl ha))
        · exact .inr (.inr (.inr (.inl ha)))
      · exact .inl (by simpa [hv] using hb)
    | pop e task rest hs =>
      by_cases hv : v = .loop e
      · subst hv
        exact .inr (.inr (.inr (.inr ⟨task, by simpa using hb⟩)))
      · exact .inl (by simpa [hv] using hb)
    | check | empty | wait | wake => exact .inl hb
  · by_cases hv : v = w
    · subst hv
      simp only [acted, Function.update_self, List.mem_append] at hb
      rcases hb with hb | hb
      · exact .inr (.inl ⟨env, a, rest, rfl, hs, hb⟩)
      · exact .inl (by simp [hs, hb])
    · exact .inl (by simpa [acted, hv] using hb)

omit [DecidableEq T] [DecidableEq E] in
/-- No callback of a handshake is submitted by the loop itself. -/
def Others (w : Caller T E) : HandshakeAct E → Prop
  | .submit e (.serve _ _) | .push e (.serve _ _) => w ≠ .loop e
  | _ => True

/-- What holds in every state of a safe run. -/
structure Inv (s : Handshakes T E) : Prop where
  exited : ∀ e, s.pc e = .exited → s.cancel_signal_ e = true
  asleep : ∀ e, s.pc e = .asleep → s.queue e = [] ∨ s.Notified e
  cancelled : ∀ e, s.cancel_signal_ e = true →
    ∀ w kind latch, .push e (.serve kind latch) ∉ s.stack w
  others : ∀ w, ∀ a ∈ s.stack w, Others w a
  /-- A loop executes its own callback before it waits for it. -/
  own : ∀ e latch before after, s.stack (.loop e) = before ++ .await e latch :: after →
    (∃ a ∈ before, serves latch a) ∨ s.down latch = true
  /-- Another caller has submitted its callback. -/
  submitted : ∀ w e latch, w ≠ .loop e → .await e latch ∈ s.stack w →
    s.Serves e latch ∨ s.down latch = true
  /-- Nothing is left to be done before a thread leaves `latch.Await()`. -/
  blocked : ∀ w e latch, .blocked e latch ∉ (s.stack w).tail

omit [DecidableEq T] [DecidableEq E] in
theorem inv_start : Inv (start : Handshakes T E) := by
  constructor <;> simp [start]

theorem exited_step {l : HandshakeLabel T E} (hsafe : Safe l s) (h : step l s = some t)
    (hinv : ∀ e, s.pc e = .exited → s.cancel_signal_ e = true) (e : E)
    (hpc : t.pc e = .exited) : t.cancel_signal_ e = true := by
  rcases step_cases hsafe h with hidle | ⟨w, env, a, rest, rfl, hs, rfl⟩
  · rw [hidle.cancel_signal_]
    rcases hidle.pc e with ⟨h, -⟩ | ⟨-, hcancel⟩ | ⟨h, -⟩ | ⟨h, -⟩
    · exact hinv e (h.symm.trans hpc)
    · exact hcancel
    · rw [h] at hpc
      cases hpc
    · exact absurd hpc h
  · rcases acted_pc s w env a rest e with ⟨h, -⟩ | ⟨-, h⟩
    · rcases (act_frame s w env a).cancelled e with hcancel | rfl
      · exact hcancel.trans (hinv e (h.symm.trans hpc))
      · show update s.cancel_signal_ e true e = true
        rw [Function.update_self]
    · rw [h] at hpc
      cases hpc

theorem asleep_step {l : HandshakeLabel T E} (hsafe : Safe l s) (h : step l s = some t)
    (hinv : ∀ e, s.pc e = .asleep → s.queue e = [] ∨ s.Notified e) (e : E)
    (hpc : t.pc e = .asleep) : t.queue e = [] ∨ t.Notified e := by
  rcases step_cases hsafe h with hidle | ⟨w, env, a, rest, rfl, hs, rfl⟩
  · rcases hidle.pc e with ⟨h, hq⟩ | ⟨h, -⟩ | ⟨-, hq, hwait⟩ | ⟨-, h⟩
    · rw [hq]
      exact (hinv e (h.symm.trans hpc)).imp id hidle.notified
    · rw [h] at hpc
      cases hpc
    · rw [hq]
      exact hwait.imp id hidle.notified
    · exact absurd hpc h
  · rcases acted_pc s w env a rest e with ⟨h, -⟩ | ⟨-, h⟩
    · rcases hinv e (h.symm.trans hpc) with hq | hn
      · rcases (act_frame s w env a).queue e with hqueue | ⟨task, rfl, -⟩
        · exact .inl (hqueue.trans hq)
        · exact .inr ⟨w, by simp [acted, act, hq]⟩
      · exact .inr (acted_notified hs hn hpc).2
    · rw [h] at hpc
      cases hpc

/-- A loop that is joined has no callback of a handshake on its way, and gets none. -/
theorem cancelled_step {l : HandshakeLabel T E} (hsafe : Safe l s) (h : step l s = some t)
    (hinv : ∀ e, s.cancel_signal_ e = true →
      ∀ w kind latch, .push e (.serve kind latch) ∉ s.stack w)
    (e : E) (hcancel : t.cancel_signal_ e = true) (v : Caller T E) (kind : Handshake)
    (latch : Nat) : .push e (.serve kind latch) ∉ t.stack v := by
  intro hmem
  rcases mem_stack_step hsafe h hmem with hold | ⟨env, a, rest, rfl, hs, hmem⟩ | hnew
  -- it was about to be pushed before: then the loop is not joined by this step
  · rcases step_cases hsafe h with hidle | ⟨w, env, a, rest, rfl, hs, rfl⟩
    · exact hinv e (hidle.cancel_signal_ ▸ hcancel) v kind latch hold
    · rcases (act_frame s w env a).cancelled e with heq | rfl
      · exact hinv e (heq.symm.trans hcancel) v kind latch hold
      · simp only [Safe, hs] at hsafe
        exact hsafe.1 v kind latch hold
  -- it has just passed the check of `Submit`
  · obtain ⟨rfl, hnot⟩ := (act_frame s v env a).push e kind latch hmem
    simp only [step, hs] at h
    split at h
    case isTrue =>
      obtain rfl := Option.some.inj h
      simp [act, hnot] at hcancel
    case isFalse => cases h
  · rcases hnew with ⟨api, h⟩ | ⟨e', h⟩ | ⟨task, h⟩
    · cases h
    · cases h
    · cases task <;> simp [HandshakeTask.acts] at h

theorem others_step {l : HandshakeLabel T E} (hsafe : Safe l s) (h : step l s = some t)
    (hinv : ∀ w, ∀ a ∈ s.stack w, Others w a) (v : Caller T E) (b : HandshakeAct E)
    (hmem : b ∈ t.stack v) : Others v b := by
  rcases mem_stack_step hsafe h hmem with hmem | ⟨env, a, rest, rfl, hs, hmem⟩ | hnew
  · exact hinv v b hmem
  · unfold Others
    split
    case h_1 => exact (act_frame s v env a).submit _ _ _ hmem
    case h_2 =>
      obtain ⟨rfl, -⟩ := (act_frame s v env a).push _ _ _ hmem
      exact hinv v _ (by rw [hs]; exact List.mem_cons_self)
    case h_3 => trivial
  · rcases hnew with ⟨api, rfl⟩ | ⟨e, rfl⟩ | ⟨task, h⟩
    · trivial
    · trivial
    · cases task <;> simp [HandshakeTask.acts] at h <;> subst h <;> trivial

theorem blocked_step {l : HandshakeLabel T E} (hsafe : Safe l s) (h : step l s = some t)
    (hinv : ∀ w e latch, .blocked e latch ∉ (s.stack w).tail) (v : Caller T E) (e : E)
    (latch : Nat) : .blocked e latch ∉ (t.stack v).tail := by
  intro hmem
  rcases step_cases hsafe h with hidle | ⟨w, env, a, rest, rfl, hs, rfl⟩
  · cases hidle with
    | begins t' a hs =>
      by_cases hv : v = .other t'
      · subst hv
        simp at hmem
      · exact hinv v e latch (by simpa [hv] using hmem)
    | pop e' task rest hs =>
      by_cases hv : v = .loop e'
      · subst hv
        cases task <;> simp [HandshakeTask.acts] at hmem
      · exact hinv v e latch (by simpa [hv] using hmem)
    | check | empty | wait | wake => exact hinv v e latch hmem
  · by_cases hv : v = w
    · subst hv
      have hrest : .blocked e latch ∉ rest := by
        have := hinv v e latch
        rwa [hs] at this
      simp only [acted, Function.update_self] at hmem
      rcases List.mem_append.mp (List.mem_of_mem_tail hmem) with hnew | hold
      · obtain ⟨-, hnext⟩ := (act_frame s v env a).blocked e latch hnew
        rw [hnext] at hmem
        exact hrest hmem
      · exact hrest hold
    · exact hinv v e latch (by simpa [acted, hv] using hmem)

/-- The callback that is pushed will be executed. -/
theorem Inv.serves_push {w : Caller T E} {env : HandshakeEnv E} {rest : List (HandshakeAct E)}
    {e : E} {kind : Handshake} {latch : Nat} (hinv : Inv s)
    (hs : s.stack w = .push e (.serve kind latch) :: rest) :
    (s.acted w env (.push e (.serve kind latch)) rest).Comes e (.serve kind latch) := by
  have hcancel : s.cancel_signal_ e ≠ true := by
    intro hcancel
    apply hinv.cancelled e hcancel w kind latch
    rw [hs]
    exact List.mem_cons_self
  constructor
  case mem => simp [acted, act]
  case running =>
    intro hpc
    exact hcancel (hinv.exited e hpc)
  case cancelled =>
    intro h
    exact absurd h hcancel
  case awake =>
    intro hpc
    -- the push onto an empty queue is followed by a notification
    rcases hinv.asleep e hpc with hq | hn
    · exact ⟨w, by simp [acted, act, hq]⟩
    · exact (acted_notified hs hn hpc).2

theorem submitted_step {l : HandshakeLabel T E} (hsafe : Safe l s) (h : step l s = some t)
    (hinv : Inv s) (v : Caller T E) (e : E) (latch : Nat) (hv : v ≠ .loop e)
    (hmem : .await e latch ∈ t.stack v) : t.Serves e latch ∨ t.down latch = true := by
  rcases mem_stack_step hsafe h hmem with hmem | ⟨env, a, rest, rfl, hs, hmem⟩ | hnew
  · rcases hinv.submitted v e latch hv hmem with hserves | hdown
    · exact serves_step hsafe h hserves
    · exact .inr (down_step hsafe h hdown)
  · rcases (act_frame s v env a).await e latch hmem with ⟨rfl, -⟩ | ⟨kind, rfl, hcancel⟩ | ⟨kind, rfl⟩
    · exact absurd rfl hv
    · simp only [Safe, hs] at hsafe
      rw [hsafe] at hcancel
      cases hcancel
    · simp only [step, hs] at h
      obtain rfl := Option.some.inj h
      exact .inl (.inr ⟨kind, hinv.serves_push hs⟩)
  · rcases hnew with ⟨api, h⟩ | ⟨e', h⟩ | ⟨task, h⟩
    · cases h
    · cases h
    · cases task <;> simp [HandshakeTask.acts] at h

/-- What stands before a call of `Await` on the loop's own stack, after an act of the loop. -/
theorem Inv.own_act {e : E} {latch : Nat} {env : HandshakeEnv E} {a : HandshakeAct E}
    {rest before after : List (HandshakeAct E)} (hinv : Inv s) (hs : s.stack (.loop e) = a :: rest)
    (hstack : (s.act (.loop e) env a).2 ++ rest = before ++ .await e latch :: after) :
    (∃ b ∈ before, serves latch b) ∨ (s.act (.loop e) env a).1.down latch = true := by
  have hframe := act_frame s (.loop e) env a
  -- an act that was there before: what stood before it is still there, but for `a` itself
  have hrest : ∀ between, before = (s.act (.loop e) env a).2 ++ between →
      rest = between ++ .await e latch :: after →
      (∃ b ∈ before, serves latch b) ∨ (s.act (.loop e) env a).1.down latch = true := by
    rintro between rfl rfl
    rcases hinv.own e latch (a :: between) after hs with ⟨b, hb, hserves⟩ | hdown
    · rcases List.mem_cons.mp hb with rfl | hb
      · rcases hframe.serves latch hserves with ⟨c, hc, hserves⟩ | hdown
        · exact .inl ⟨c, List.mem_append_left _ hc, hserves⟩
        · exact .inr hdown
      · exact .inl ⟨b, List.mem_append_right _ hb, hserves⟩
    · exact .inr (hframe.down latch hdown)
  rcases List.append_eq_append_iff.mp hstack with ⟨between, hb, hr⟩ | ⟨between, hnext, hafter⟩
  · exact hrest between hb hr
  · cases between with
    | nil => exact hrest [] (by simpa using hnext.symm) (by simpa using hafter.symm)
    | cons b between =>
      obtain ⟨rfl, -⟩ := List.cons.inj hafter
      have ha : Others (.loop e) a := hinv.others _ a (by rw [hs]; exact List.mem_cons_self)
      -- the loop calls `Start` or `Close` on itself
      rcases hframe.await e latch (by simp [hnext]) with ⟨-, kind, heq⟩ | ⟨kind, rfl, -⟩ | ⟨kind, rfl⟩
      · rw [hnext] at heq
        cases before with
        | nil => cases heq
        | cons c before =>
          obtain ⟨rfl, -⟩ := List.cons.inj heq
          exact .inl ⟨_, List.mem_cons_self, rfl⟩
      · exact absurd rfl ha
      · exact absurd rfl ha

/-- What stands before the callers of its own loop's callback is executed first. -/
theorem own_step {l : HandshakeLabel T E} (hsafe : Safe l s) (h : step l s = some t)
    (hinv : Inv s) (e : E) (latch : Nat) (before after : List (HandshakeAct E))
    (hstack : t.stack (.loop e) = before ++ .await e latch :: after) :
    (∃ a ∈ before, serves latch a) ∨ t.down latch = true := by
  rcases step_cases hsafe h with hidle | ⟨w, env, a, rest, rfl, hs, rfl⟩
  · rw [hidle.down]
    apply hinv.own e latch before after
    cases hidle with
    | begins t' a hs => simpa using hstack
    | pop e' task rest hs =>
      by_cases he : e = e'
      · subst he
        have hmem : .await e latch ∈ task.acts := by
          have hacts : task.acts = before ++ .await e latch :: after := by simpa using hstack
          rw [hacts]
          exact List.mem_append_right _ List.mem_cons_self
        cases task <;> simp [HandshakeTask.acts] at hmem
      · simpa [he] using hstack
    | check | empty | wait | wake => exact hstack
  · by_cases hw : .loop e = w
    · subst hw
      exact hinv.own_act hs (by simpa [acted] using hstack)
    · rcases hinv.own e latch before after (by simpa [acted, hw] using hstack) with hb | hdown
      · exact .inl hb
      · exact .inr ((act_frame s w env a).down latch hdown)

/-- **The invariant**: every safe step keeps it. -/
theorem inv_step {l : HandshakeLabel T E} (hsafe : Safe l s) (h : step l s = some t)
    (hinv : Inv s) : Inv t where
  exited := exited_step hsafe h hinv.exited
  asleep := asleep_step hsafe h hinv.asleep
  cancelled := cancelled_step hsafe h hinv.cancelled
  others := others_step hsafe h hinv.others
  own := own_step hsafe h hinv
  submitted := submitted_step hsafe h hinv
  blocked := blocked_step hsafe h hinv.blocked

/-! ### Nobody waits for ever -/

/-- A thread that is blocked after a step was so before it, or has just begun. -/
theorem blocked_of_step {l : HandshakeLabel T E} (hsafe : Safe l s) (h : step l s = some t)
    (hinv : Inv s) {v : Caller T E} {e : E} {latch : Nat} (hblocked : t.Blocked v e latch) :
    s.Blocked v e latch ∨
      ∃ env rest, l = .act v env ∧ s.stack v = .await e latch :: rest ∧
        s.down latch = false := by
  obtain ⟨hhead, hdown⟩ := hblocked
  have hsdown : s.down latch = false := by
    rw [← Bool.not_eq_true]
    intro hd
    rw [down_step hsafe h hd] at hdown
    cases hdown
  rcases step_cases hsafe h with hidle | ⟨w, env, a, rest, rfl, hs, rfl⟩
  · refine .inl ⟨?_, hsdown⟩
    cases hidle with
    | begins t' a hs ha =>
      by_cases hv : v = .other t'
      · subst hv
        obtain rfl : a = .blocked e latch := by simpa using hhead
        simp at ha
      · simpa [hv] using hhead
    | pop e' task rest hs =>
      by_cases hv : v = .loop e'
      · subst hv
        cases task <;> simp [HandshakeTask.acts] at hhead
      · simpa [hv] using hhead
    | check | empty | wait | wake => exact hhead
  · by_cases hv : v = w
    · subst hv
      have hmem := List.mem_of_head? hhead
      simp only [acted, Function.update_self, List.mem_append] at hmem
      -- `.blocked` is never behind another act, so it is new
      rcases hmem with hnew | hold
      · obtain ⟨rfl, -⟩ := (act_frame s v env a).blocked e latch hnew
        exact .inr ⟨env, rest, rfl, hs, hsdown⟩
      · have hnot := hinv.blocked v e latch
        rw [hs] at hnot
        exact absurd hold hnot
    · exact .inl ⟨by simpa [acted, hv] using hhead, hsdown⟩

/-- **A caller begins to wait**: for a loop that does not wait for it. -/
theorem getsOn_await {w : Caller T E} {env : HandshakeEnv E} {e : E} {latch : Nat}
    {rest : List (HandshakeAct E)} (hsafe : Safe (.act w env) s)
    (h : step (.act w env) s = some t) (hinv : Inv s) (hno : NoHang s)
    (hs : s.stack w = .await e latch :: rest) (hdown : s.down latch = false) :
    GetsOn t.Free t.Waits w := by
  obtain rfl : t = s.acted w env (.await e latch) rest := by
    simp only [step, hs] at h
    exact (Option.some.inj h).symm
  -- on the loop's own thread the callback has been executed
  have hw : w ≠ .loop e := by
    rintro rfl
    rcases hinv.own e latch [] rest hs with ⟨a, ha, -⟩ | hd
    · cases ha
    · rw [hdown] at hd
      cases hd
  -- an act that leaves all latches as they are
  have hserves : ∀ e' n, s.down n = false → s.Serves e' n →
      (s.acted w env (.await e latch) rest).Serves e' n := by
    intro e' n hn hserves
    apply (serves_step hsafe h hserves).resolve_right
    show ¬ s.down n = true
    simp [hn]
  have hnot : ¬ Relation.ReflTransGen s.Waits (.loop e) w := by
    simp only [Safe, hs] at hsafe
    exact hsafe hw hdown
  have hwaits : (s.acted w env (.await e latch) rest).Waits w (.loop e) := by
    refine ⟨e, latch, ⟨by simp [acted, act, hdown], hdown⟩, hserves e latch hdown ?_, rfl⟩
    apply (hinv.submitted w e latch hw (by simp [hs])).resolve_right
    simp [hdown]
  apply GetsOn.waits hwaits
  -- the loop's own chain does not meet the caller
  apply (hno (.loop e)).avoid hnot
  · intro v hv hfree e' n hblocked
    rcases blocked_of_step hsafe h hinv hblocked with hb | ⟨env', rest', hl, -⟩
    · exact hfree e' n hb
    · injection hl with hwv
      exact hv hwv.symm
  · rintro v u hv ⟨e', n, hb, hserve, rfl⟩
    refine ⟨e', n, ⟨?_, hb.2⟩, hserves e' n hb.2 hserve, rfl⟩
    show (update s.stack w _ v).head? = _
    rw [Function.update_of_ne hv]
    exact hb.1

/-- Who got on still does after a step. -/
theorem noHang_step {l : HandshakeLabel T E} (hsafe : Safe l s) (h : step l s = some t)
    (hinv : Inv s) (hno : NoHang s) : NoHang t := by
  intro v
  apply (hno v).map
  · intro u hfree
    by_cases htfree : t.Free u
    · exact .free htfree
    · simp only [Free, not_forall, not_not] at htfree
      obtain ⟨e, latch, hblocked⟩ := htfree
      rcases blocked_of_step hsafe h hinv hblocked with hb | ⟨env, rest, rfl, hs, hdown⟩
      · exact absurd hb (hfree e latch)
      · exact getsOn_await hsafe h hinv hno hs hdown
  · rintro u x ⟨e', n, hb', hserves, rfl⟩ hx
    by_cases htfree : t.Free u
    · exact .free htfree
    · simp only [Free, not_forall, not_not] at htfree
      obtain ⟨e, latch, hblocked⟩ := htfree
      rcases blocked_of_step hsafe h hinv hblocked with hb | ⟨env, rest, rfl, hs, hdown⟩
      · have heq := hb.1.symm.trans hb'.1
        obtain ⟨rfl, rfl⟩ := HandshakeAct.blocked.inj (Option.some.inj heq)
        refine .waits ⟨e, latch, hblocked, ?_, rfl⟩ hx
        apply (serves_step hsafe h hserves).resolve_right
        simp [hblocked.2]
      · exact getsOn_await hsafe h hinv hno hs hdown

omit [DecidableEq T] [DecidableEq E] in
theorem noHang_start : NoHang (start : Handshakes T E) := by
  intro w
  apply GetsOn.free
  rintro e latch ⟨h, -⟩
  cases h

/-- **The handshake does not hang**: in every run of safe steps, of whatever threads and loops, nobody
who is blocked in `latch.Await()` waits for ever. -/
theorem noHang_of_safe {ls : List (HandshakeLabel T E)}
    (hsafe : (handshakes T E).AllSteps Safe ls start) :
    (handshakes T E).AllStates NoHang ls start := by
  apply hsafe.allStates (I := fun s => Inv s ∧ NoHang s)
  · rintro l s t ⟨hinv, hno⟩ hg h
    exact ⟨inv_step hg h hinv, noHang_step hg h hinv hno⟩
  · exact fun s hs => hs.2
  · exact ⟨inv_start, noHang_start⟩

/-- The schedule of `Acceptor::Close` called by a thread of its own while the loop is asleep. -/
def closeByOther : List (HandshakeLabel Unit Unit) :=
  let next : HandshakeLabel Unit Unit := .act (.other ()) ⟨false, []⟩
  let loop : HandshakeLabel Unit Unit := .act (.loop ()) ⟨false, []⟩
  [.loop (), .loop (), .loop (), .call () (.handshake .close ()), next, next, next, next, next,
    .loop (), .loop (), loop, loop, next]

theorem noHang_closeByOther : (handshakes Unit Unit).AllStates NoHang closeByOther start := by
  apply noHang_of_safe
  apply System.AllSteps.cons rfl (by intro h; cases h)
  apply System.AllSteps.cons rfl (by intro h; cases h)
  apply System.AllSteps.cons rfl (fun _ => .inl rfl)
  apply System.AllSteps.cons rfl trivial
  apply System.AllSteps.cons rfl trivial
  apply System.AllSteps.cons rfl
  · exact Eq.refl false
  apply System.AllSteps.cons rfl trivial
  apply System.AllSteps.cons rfl trivial
  -- the loop is inside no callback when `Close` begins to wait for it
  apply System.AllSteps.cons rfl
  · rintro - - hwaits
    rcases Relation.ReflTransGen.cases_head hwaits with h | ⟨u, ⟨e, latch, ⟨h, -⟩, -⟩, -⟩
    · cases h
    · cases h
  apply System.AllSteps.cons rfl (by intro h; cases h)
  apply System.AllSteps.cons rfl (by intro h; cases h)
  apply System.AllSteps.cons rfl trivial
  apply System.AllSteps.cons rfl trivial
  apply System.AllSteps.cons rfl trivial
  trivial

/-- The schedule of `Acceptor::Close` called after `join()` of the loop has returned. -/
def closeAfterJoin : List (HandshakeLabel Unit Unit) :=
  let next : HandshakeLabel Unit Unit := .act (.other ()) ⟨false, []⟩
  [.join () (), next, next, next, .loop (), next, .call () (.handshake .close ()), next, next, next]

theorem closeAfterJoin_hangs :
    ¬ (handshakes Unit Unit).AllStates NoHang closeAfterJoin start := by
  intro h
  have hrun : ∃ t, (handshakes Unit Unit).run closeAfterJoin start = some t ∧
      t.stack (.other ()) = [.blocked () 0] ∧ t.down 0 = false ∧
      t.stack (.loop ()) = [] ∧ t.queue () = [] := ⟨_, rfl, rfl, rfl, rfl, rfl⟩
  obtain ⟨t, ht, hstack, hdown, hloop, hqueue⟩ := hrun
  cases h.last ht (.other ()) with
  | free hfree => exact hfree () 0 ⟨by rw [hstack]; rfl, hdown⟩
  | waits hwaits =>
    obtain ⟨e, latch, -, hserves, -⟩ := hwaits
    rcases hserves with ⟨a, ha, -⟩ | ⟨kind, hc⟩
    · rw [hloop] at ha
      cases ha
    · have hmem := hc.mem
      rw [hqueue] at hmem
      cases hmem

end Handshakes

end Lizlib
