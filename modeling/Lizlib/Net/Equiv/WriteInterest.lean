import Lizlib.Net.Equiv.TcpConnection

/-!
# The write interest of a connection

A task that handles `kWritable` finds the write interest it was reported for still there, as long as
the interest is not dropped while such an event is in flight (`writeAllowed`).  The registered mask
follows `events_` by one act (`Synced`), and every event in flight is covered by the registered mask
(`covered_step`).
-/

namespace Lizlib

open SocketChannel Events

/-- `epoll_wait` reports `EPOLLOUT` for a registered write interest only. -/
theorem writable_of_reportable {interest events : EventMask}
    (h : TcpConnection.reportable interest events = true)
    (he : contains events ReceiveEvents.kWritable = true) : writable interest = true := by
  have hbit : events.toBitVec.getLsbD 2 = true := (contains_kWriteEvent events).symm.trans he
  unfold TcpConnection.reportable at h
  rw [Bool.and_eq_true, decide_eq_true_iff, decide_eq_true_iff] at h
  have hzero := congrArg (fun m : UInt32 => m.toBitVec.getLsbD 2) h.2
  unfold writable
  rw [contains_kWriteEvent]
  simpa [hbit, remove, EPOLLET, EPOLLERR, EPOLLHUP] using hzero

variable {T : Type*}

/-- The task runs `handleWrite`. -/
def TcpTask.writes : TcpTask T → Bool
  | .handleEvents events => contains events ReceiveEvents.kWritable
  | _ => false

/-- The act registers a mask without write interest. -/
def TcpAct.drops : TcpAct T → Bool
  | .update events => !writable events
  | _ => false

theorem handleWrite_mem_acts {task : TcpTask T} (h : .handleWrite ∈ task.acts) :
    task.writes = true := by
  cases task with
  | handleEvents events =>
    apply (write_mem_handleEvents events).mp
    obtain ⟨handler, hmem, heq⟩ := List.mem_map.mp h
    cases handler with
    | write => exact hmem
    | _ => cases heq
  | _ => simp [TcpTask.acts] at h

namespace TcpConnection

/-- `handleWrite` is only entered with write interest, so its `LOG_FATAL` is never reached. -/
def WriteAllowed (s : TcpConnection T) : Prop :=
  s.fatal ≠ some .notWritable ∧
    (s.fatal = none → (s.stack none).head? = some .handleWrite → writable s.events_ = true)

/-- The registered mask. -/
def interest (s : TcpConnection T) : EventMask := s.registered.getD SelectEvents.kNoneEvent

/-- The mask that is registered, or about to be. -/
def nextInterest (s : TcpConnection T) : EventMask :=
  match s.stack none with
  | .update events :: _ => events
  | _ => s.interest

/-- A write event is on its way to `handleWrite`. -/
def InFlight (s : TcpConnection T) : Prop :=
  s.collected.any (contains · ReceiveEvents.kWritable) = true ∨
    (∃ task ∈ s.queue, task.writes = true) ∨ .handleWrite ∈ s.stack none

/-- Write interest is not dropped while a write event is in flight. -/
def KeepsInterest (l : TcpLabel T) (s : TcpConnection T) : Prop :=
  (current l s).any TcpAct.drops = true → ¬ InFlight s

/-- `events_` is registered, or about to be. -/
def Synced (s : TcpConnection T) : Prop := s.fatal = none → s.nextInterest = s.events_

/-- Every write event in flight is covered by the registered mask. -/
def Covered (s : TcpConnection T) : Prop := InFlight s → writable s.interest = true

theorem nextInterest_eq {s : TcpConnection T} (h : ∀ events, .update events ∉ s.stack none) :
    s.nextInterest = s.interest := by
  unfold nextInterest
  split
  · rename_i events rest heq
    exact absurd (heq ▸ List.mem_cons_self) (h events)
  · rfl

theorem update_not_mem {l : List (TcpAct T)} (h : ∀ a ∈ l, a.immediate = false)
    (events : EventMask) : .update events ∉ l :=
  fun hmem => by simpa [TcpAct.immediate] using h _ hmem

/-- Only the loop's own thread touches the masks. -/
theorem masks_of_admissible {a : TcpAct T} {w : Option T} (ha : a.Admissible w) (hw : w ≠ none)
    (events : EventMask) (registered : Option EventMask) :
    a.masks events = events ∧ a.registers registered = registered := by
  cases a with
  | setReadable | setWritable | addChannel | update => exact absurd ha hw
  | _ => exact ⟨rfl, rfl⟩

/-- Tasks for events are submitted by the scheduler thread only. -/
theorem not_writes_of_submits {a : TcpAct T} {w : Option T} (ha : a.Admissible w) :
    ∀ task ∈ a.submits, task.writes = false := by
  cases a with
  | submit task =>
    intro task' hmem
    obtain rfl := List.mem_singleton.mp hmem
    cases task' with
    | handleEvents => exact absurd ha id
    | _ => rfl
  | _ => simp [TcpAct.submits]

theorem handleWrite_not_mem_next {s : TcpConnection T} {w : Option T} {env : TcpEnv}
    {a : TcpAct T} {new : List (TcpAct T)} (h : Next s w env a new) : .handleWrite ∉ new := by
  cases h <;> simp

/-- Only the setters of the channel lead to an update. -/
theorem update_not_mem_next {s : TcpConnection T} {w : Option T} {env : TcpEnv} {a : TcpAct T}
    {new : List (TcpAct T)} (h : Next s w env a new) (hr : ∀ b, a ≠ .setReadable b)
    (hw : ∀ b, a ≠ .setWritable b) (events : EventMask) : .update events ∉ new := by
  cases h with
  | setReadable => exact absurd rfl (hr _)
  | setWritable => exact absurd rfl (hw _)
  | _ => simp

/-! ### One step -/

section Step

variable [DecidableEq T] {l : TcpLabel T} {s t : TcpConnection T}

/-- After a setter of the channel the new `events_` is about to be registered, or it was before. -/
theorem synced_setEvents {events : EventMask} {rest : List (TcpAct T)}
    (hsync : s.interest = s.events_) (hrest : ∀ b ∈ rest, b.immediate = false) :
    Synced { (s.setEvents events).1 with
      stack := Function.update s.stack none ((s.setEvents events).2 ++ rest) } := by
  intro _
  unfold setEvents
  dsimp only
  by_cases hne : s.events_ = events
  · rw [if_neg (not_not.mpr hne), nextInterest_eq]
    · exact hsync.trans hne
    · simpa using update_not_mem hrest
  · simp [nextInterest, hne]

theorem synced_act {env : TcpEnv} {a : TcpAct T} {rest : List (TcpAct T)} (hs : Shaped s)
    (hsync : s.nextInterest = s.events_) (hw : s.stack none = a :: rest) :
    Synced { (s.act none env a).1 with
      stack := Function.update s.stack none ((s.act none env a).2 ++ rest) } := by
  have heff := act_effect s none env a
  have hnext := act_next s none env a
  have hrest : ∀ b ∈ rest, b.immediate = false := by simpa [hw] using hs.immediate none
  -- where no update is at the head, none is owed
  have hhead : (∀ events, a ≠ .update events) → s.interest = s.events_ := by
    intro hne
    rw [← hsync, nextInterest_eq]
    intro events hmem
    rw [hw, List.mem_cons] at hmem
    exact hmem.elim (fun heq => hne events heq.symm) (update_not_mem hrest events)
  have hstack : (∀ b, a ≠ .setReadable b) → (∀ b, a ≠ .setWritable b) → ∀ events,
      .update events ∉ (s.act none env a).2 ++ rest := by
    intro h1 h2 events hmem
    exact (List.mem_append.mp hmem).elim (update_not_mem_next hnext h1 h2 events)
      (update_not_mem hrest events)
  cases a with
  | setReadable b => exact synced_setEvents (hhead (by simp)) hrest
  | setWritable b => exact synced_setEvents (hhead (by simp)) hrest
  | update events =>
    intro hfatal
    rw [nextInterest_eq (by simpa using hstack (by simp) (by simp))]
    -- the update registers the mask that was owed
    have hevents : events = s.events_ := by simpa [nextInterest, hw] using hsync
    simp only [act] at hfatal ⊢
    split_ifs at hfatal ⊢
    exact hevents
  | _ =>
    intro _
    rw [nextInterest_eq (by simpa using hstack (by simp) (by simp))]
    simp only [interest, heff.registered, heff.events_]
    refine Eq.trans ?_ (hhead (by simp))
    first | rfl | (cases hr : s.registered <;> simp [interest, TcpAct.registers, hr])

theorem synced_step (hs : Shaped s) (hsync : Synced s) (h : step l s = some t) : Synced t := by
  obtain ⟨hfatal, hmoves⟩ := moves_of_step h
  cases hmoves with
  | call hidle => simpa [Synced, nextInterest, interest] using hsync
  | @act w env a rest hw =>
    by_cases hloop : w = none
    · subst hloop
      exact synced_act hs (hsync hfatal) hw
    · intro _
      have heff := act_effect s w env a
      -- another thread touches neither mask
      obtain ⟨hm, hr⟩ := masks_of_admissible (hs.admissible.head hw) hloop s.events_ s.registered
      have hevents := heff.events_.trans hm
      have hreg := heff.registered.trans hr
      have := hsync hfatal
      simpa [nextInterest, interest, hevents, hreg, Function.update_of_ne (Ne.symm hloop)] using this
  | @task task queue hidle hq =>
    intro _
    have hupdate : ∀ events, .update events ∉ task.acts := by
      intro events hmem
      cases begins_of_mem_acts hmem
    rw [nextInterest_eq (by simpa using hupdate)]
    have hsame : s.nextInterest = s.interest := nextInterest_eq (by simp [hidle])
    exact hsame.symm.trans (hsync hfatal)
  | collect => exact hsync
  | dispatch => exact hsync

/-- No act puts a new write event in flight. -/
theorem inFlight_act {w : Option T} {env : TcpEnv} {a : TcpAct T} {rest : List (TcpAct T)}
    (hs : Shaped s) (hw : s.stack w = a :: rest)
    (h : InFlight { (s.act w env a).1 with
      stack := Function.update s.stack w ((s.act w env a).2 ++ rest) }) : InFlight s := by
  have heff := act_effect s w env a
  rcases h with h | ⟨task, ht, hwrites⟩ | h
  · exact .inl (by simpa only [heff.collected] using h)
  · rw [heff.queue, List.mem_append] at ht
    rcases ht with ht | ht
    · exact .inr (.inl ⟨task, ht, hwrites⟩)
    · have hnot := not_writes_of_submits (hs.admissible.head hw) task ht
      simp [hnot] at hwrites
  · refine .inr (.inr ?_)
    dsimp only at h
    by_cases hloop : w = none
    · subst hloop
      rw [Function.update_self, List.mem_append] at h
      rw [hw]
      exact h.elim (fun hnew => absurd hnew (handleWrite_not_mem_next (act_next s none env a)))
        (List.mem_cons_of_mem a)
    · rwa [Function.update_of_ne (Ne.symm hloop)] at h

omit [DecidableEq T] in
theorem writable_registers {a : TcpAct T} {registered : Option EventMask} (ha : a.drops = false)
    (hr : writable (registered.getD SelectEvents.kNoneEvent) = true) :
    writable ((a.registers registered).getD SelectEvents.kNoneEvent) = true := by
  cases a with
  | update events =>
    cases registered with
    | none => exact hr
    | some m =>
      show writable events = true
      simpa [TcpAct.drops] using ha
  | addChannel => cases registered <;> exact hr
  | _ => exact hr

theorem covered_step (hs : Shaped s) (hc : Covered s) (hg : KeepsInterest l s)
    (h : step l s = some t) : Covered t := by
  obtain ⟨-, hmoves⟩ := moves_of_step h
  intro hin
  cases hmoves with
  | call hidle =>
    refine hc (hin.imp_right (Or.imp_right fun hmem => ?_))
    simpa using hmem
  | @act w env a rest hw =>
    have hcur : current (.act w env) s = some a := current_of_stack hw
    have hin' := inFlight_act hs hw hin
    have hdrops : a.drops = false := by
      by_contra hne
      exact hg (by simpa [hcur] using hne) hin'
    unfold interest
    rw [(act_effect s w env a).registered]
    exact writable_registers hdrops (hc hin')
  | @task task queue hidle hq =>
    apply hc
    rcases hin with hin | ⟨task', ht, hwrites⟩ | hin
    · exact .inl hin
    · exact .inr (.inl ⟨task', hq ▸ List.mem_cons_of_mem _ ht, hwrites⟩)
    · have hacts : .handleWrite ∈ task.acts := by simpa using hin
      exact .inr (.inl ⟨task, hq ▸ List.mem_cons_self, handleWrite_mem_acts hacts⟩)
  | @collect m events hr hcol he =>
    rcases hin with hin | hin
    · have hinterest : s.interest = m := by simp [interest, hr]
      exact hinterest ▸ writable_of_reportable he (by simpa using hin)
    · exact hc (.inr hin)
  | @dispatch events hcol =>
    apply hc
    rcases hin with hin | ⟨task, ht, hwrites⟩ | hin
    · simp at hin
    · rcases List.mem_append.mp ht with ht | ht
      · exact .inr (.inl ⟨task, ht, hwrites⟩)
      · obtain rfl := List.mem_singleton.mp ht
        rw [InFlight, hcol]
        exact .inl hwrites
    · exact .inr (.inr hin)

omit [DecidableEq T] in
theorem writable_of_handleWrite (hsync : Synced s) (hc : Covered s) (hfatal : s.fatal = none)
    (hhead : (s.stack none).head? = some .handleWrite) : writable s.events_ = true := by
  obtain ⟨rest, hw⟩ := List.head?_eq_some_iff.mp hhead
  have hcov := hc (.inr (.inr (hw ▸ List.mem_cons_self)))
  have hnext := hsync hfatal
  rw [nextInterest, hw] at hnext
  exact hnext ▸ hcov

/-- **Write interest**: `handleWrite` is always entered with write interest if the interest is never
dropped while a write event is in flight. -/
theorem writeAllowed (addr : Nat) (cells : Nat → UInt8) (ls : List (TcpLabel T))
    (h : (tcpConnection T).AllSteps KeepsInterest ls (start addr cells)) :
    (tcpConnection T).AllStates WriteAllowed ls (start addr cells) := by
  refine h.allStates (I := fun s => Shaped s ∧ Synced s ∧ Covered s ∧
    s.fatal ≠ some .notWritable) ?_ ?_ ⟨shaped_start addr cells, fun _ => rfl, ?_, by simp [start]⟩
  · rintro l s t ⟨hs, hsync, hc, hne⟩ hg ht
    refine ⟨shaped_step hs ht, synced_step hs hsync ht, covered_step hs hc hg ht, ?_⟩
    obtain ⟨hfatal, hmoves⟩ := moves_of_step ht
    cases hmoves with
    | @act w env a rest hw =>
      intro hbad
      -- the loop's own thread enters `handleWrite`, and the interest is there
      obtain ⟨rfl, hnot⟩ := fatal_act hfatal hbad
      have hloop : w = none := hs.admissible.head hw
      subst hloop
      have hyes := writable_of_handleWrite hsync hc hfatal (by simp [hw])
      simp [hnot] at hyes
    | _ => exact hne
  · rintro s ⟨-, hsync, hc, hne⟩
    exact ⟨hne, fun hfatal hhead => writable_of_handleWrite hsync hc hfatal hhead⟩
  · rintro (hin | ⟨task, ht, hwrites⟩ | hin)
    · simp [start] at hin
    · obtain rfl : task = .start := by simpa [start] using ht
      cases hwrites
    · simp [start] at hin

end Step

section Schedules

instance [DecidableEq T] (s : TcpConnection T) : Decidable s.InFlight :=
  inferInstanceAs (Decidable (_ ∨ _ ∨ _))

instance [DecidableEq T] (l : TcpLabel T) (s : TcpConnection T) : Decidable (KeepsInterest l s) :=
  inferInstanceAs (Decidable (_ → _))

instance [DecidableEq T] : DecidablePred (WriteAllowed (T := T)) :=
  fun _ => inferInstanceAs (Decidable (_ ∧ (_ → _ → _)))

/-- A byte is sent, and written when the one event that allows it arrives. -/
def writeOnce : List (TcpLabel Unit) :=
  runTask 5 ++ runCall () (.send ⟨[1], by decide⟩) 2 ++ runTask 4 ++
    [.collect Events.EPOLLOUT, .dispatch] ++ runTask 5

theorem writeAllowed_writeOnce :
    (tcpConnection Unit).AllStates WriteAllowed writeOnce (start 0 fun _ => 0) :=
  writeAllowed 0 _ writeOnce (by decide +kernel)

/-- A second event, for a byte of the peer, arrives before the loop has handled the first. -/
def twoEvents : List (TcpLabel Unit) :=
  runTask 5 ++ runCall () (.send ⟨[1], by decide⟩) 2 ++ runTask 4 ++
    [.collect Events.EPOLLOUT, .dispatch, .collect (Events.EPOLLIN ||| Events.EPOLLOUT), .dispatch] ++
    runTask 5 ++ runTask 2

/-- `handleWrite` ends the process. -/
theorem twoEvents_notAllowed :
    ¬ (tcpConnection Unit).AllStates WriteAllowed twoEvents (start 0 fun _ => 0) := by
  decide +kernel

end Schedules

end TcpConnection

end Lizlib
