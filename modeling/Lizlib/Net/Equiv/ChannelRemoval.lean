import Lizlib.Data.Stacks
import Lizlib.Net.ChannelRemoval

/-!
# Events of a channel that has been removed

`RemoveChannel` takes the channel out of the selector and unbinds its executor, so that nothing new
is reported for it; it does not look for what has been reported before.  `quiet_iff_not_inFlight`:
once the callback has run, no `HandleEvents` of the channel begins any more exactly when no event of
it is in flight, that is, collected by the scheduler thread, about to be submitted or handled, or
queued.
-/

namespace Lizlib

/-- The channel of an event that the act passes on or handles. -/
def RemovalAct.event? {E Ch : Type*} : RemovalAct E Ch → Option Ch
  | .submit _ channel _ | .handleEvents channel _ => some channel
  | _ => none

namespace ChannelRemoval

open Function (update)

variable {T E Ch : Type*}

/-- An event of `channel` is in flight. -/
inductive InFlight (channel : Ch) (s : ChannelRemoval T E Ch) : Prop
  | collected {events : EventMask} (h : (channel, events) ∈ s.selected)
  | queued {e : E} {events : EventMask} (h : .handleEvents channel events ∈ s.queue e)
  | held (h : Stacks.Any (fun a => a.event? = some channel) s.stack)

variable [DecidableEq T] [DecidableEq E] [DecidableEq Ch]

/-- `HandleEvents` of `channel` may begin more than `n` times in all. -/
def MayHandle (channel : Ch) (n : Nat) (s : ChannelRemoval T E Ch) : Prop :=
  (channelRemoval T E Ch).Leads (fun _ => True) (fun t => n < t.handled.count channel) s

/-- No `HandleEvents` of `channel` begins any more, whatever runs. -/
def Quiet (channel : Ch) (s : ChannelRemoval T E Ch) : Prop :=
  ¬ MayHandle channel (s.handled.count channel) s

/-! ### Steps -/

/-- One step from `s`, by its label. -/
inductive Moves (s : ChannelRemoval T E Ch) : RemovalLabel T E Ch → ChannelRemoval T E Ch → Prop
  | removeChannel {t : T} {call : RemoveCall E Ch} (hw : s.stack (.other t) = []) :
      Moves s (.removeChannel t call) { s with
        stack := update s.stack (.other t) [.removeChannel call] }
  | epollWait {ready : List (Ch × EventMask)}
      (hready : ∀ entry ∈ ready, s.registered entry.1 = true) (hselected : s.selected = []) :
      Moves s (.epollWait ready) { s with selected := ready }
  | process {channel : Ch} {events : EventMask} {selected : List (Ch × EventMask)}
      (hw : s.stack .scheduler = []) (hselected : s.selected = (channel, events) :: selected) :
      Moves s .process { s with
        selected := selected
        stack := update s.stack .scheduler [dispatch channel events (s.executor channel)] }
  | task {e : E} {task : LoopTask Ch} {queue : List (LoopTask Ch)} (hw : s.stack (.loop e) = [])
      (hqueue : s.queue e = task :: queue) :
      Moves s (.task e) { s with
        queue := update s.queue e queue
        stack := update s.stack (.loop e) [task.act e] }
  | act {w : LoopThread T E} {calls : List (RemoveCall E Ch)} {a : RemovalAct E Ch}
      {rest : List (RemovalAct E Ch)} (hw : s.stack w = a :: rest) :
      Moves s (.act w calls) { (s.act w calls a).1 with
        stack := update s.stack w ((s.act w calls a).2 ++ rest) }

/-- **Inversion of a step**. -/
theorem moves_of_step {l : RemovalLabel T E Ch} {s t : ChannelRemoval T E Ch}
    (h : step l s = some t) : Moves s l t := by
  cases l with
  | removeChannel t call =>
    simp only [step] at h
    split at h
    · rename_i hw
      obtain rfl := Option.some.inj h
      exact .removeChannel hw
    · cases h
  | epollWait ready =>
    simp only [step] at h
    split at h
    · rename_i hselected
      split_ifs at h with hready
      obtain rfl := Option.some.inj h
      exact .epollWait hready hselected
    · cases h
  | process =>
    simp only [step] at h
    split at h
    · rename_i hw hselected
      obtain rfl := Option.some.inj h
      exact .process hw hselected
    · cases h
  | task e =>
    simp only [step] at h
    split at h
    · rename_i hw hqueue
      obtain rfl := Option.some.inj h
      exact .task hw hqueue
    · cases h
  | act w calls =>
    simp only [step] at h
    split at h
    · cases h
    · rename_i hw
      obtain rfl := Option.some.inj h
      exact .act hw

/-! ### Removed channels are not registered -/

/-- Along these acts, the callback of a channel comes after the channel has been removed. -/
def Removes (registered : Ch → Bool) : List (RemovalAct E Ch) → Prop
  | [] => True
  | .remove channel :: rest => Removes (update registered channel false) rest
  | .callback channel :: rest => registered channel = false ∧ Removes registered rest
  | _ :: rest => Removes registered rest

/-- A channel whose callback has run, or is about to, is not registered. -/
structure Inv (s : ChannelRemoval T E Ch) : Prop where
  removes : ∀ w, Removes s.registered (s.stack w)
  removed : ∀ channel ∈ s.removed, s.registered channel = false

section Inv

variable {s t : ChannelRemoval T E Ch} {l : RemovalLabel T E Ch} {w : LoopThread T E}
  {registered registered' : Ch → Bool} {acts : List (RemovalAct E Ch)}

omit [DecidableEq E] in
theorem Removes.mono (h : Removes registered acts)
    (hle : ∀ channel, registered channel = false → registered' channel = false) :
    Removes registered' acts := by
  induction acts generalizing registered registered' with
  | nil => trivial
  | cons a acts ih =>
    cases a with
    | remove channel =>
      apply ih h
      intro c hc
      by_cases hcc : c = channel
      · simp [hcc]
      · simp only [Function.update_of_ne hcc] at hc ⊢
        exact hle c hc
    | callback channel => exact ⟨hle channel h.1, ih h.2 hle⟩
    | removeChannel | unbind | submit | handleEvents => exact ih h hle

omit [DecidableEq E] in
theorem Removes.calls (h : Removes registered acts) (calls : List (RemoveCall E Ch)) :
    Removes registered (calls.map .removeChannel ++ acts) := by
  induction calls with
  | nil => exact h
  | cons call calls ih => exact ih

/-- What an act does to the registrations and the callbacks. -/
theorem removes_act (calls : List (RemoveCall E Ch)) {a : RemovalAct E Ch}
    {rest : List (RemovalAct E Ch)} (h : Removes s.registered (a :: rest)) :
    Removes (s.act w calls a).1.registered ((s.act w calls a).2 ++ rest) ∧
      (∀ channel, s.registered channel = false → (s.act w calls a).1.registered channel = false) ∧
      ((s.act w calls a).1.removed = s.removed ∨ ∃ channel, s.registered channel = false ∧
        (s.act w calls a).1.removed = s.removed ++ [channel]) := by
  have hupdate : ∀ channel c, s.registered c = false →
      update s.registered channel false c = false := by
    intro channel c hc
    by_cases hcc : c = channel
    · simp [hcc]
    · rwa [Function.update_of_ne hcc]
  cases a with
  | removeChannel call =>
    by_cases hw : w = .loop call.loop
    · have hrest : Removes (update s.registered call.channel false) rest :=
        Removes.mono h (hupdate call.channel)
      simp only [act, hw, ne_eq, not_true, if_false]
      refine ⟨?_, fun _ => id, .inl trivial⟩
      split_ifs
      · exact ⟨Function.update_self _ _ _, hrest⟩
      · exact ⟨Function.update_self _ _ _, hrest⟩
    · simp only [act, ne_eq, hw, not_false_eq_true, if_true]
      exact ⟨h, fun _ => id, .inl rfl⟩
  | remove channel => exact ⟨h, hupdate channel, .inl rfl⟩
  | unbind channel => exact ⟨h, fun _ => id, .inl rfl⟩
  | callback channel => exact ⟨h.2.calls calls, fun _ => id, .inr ⟨channel, h.1, rfl⟩⟩
  | submit e channel events => exact ⟨h, fun _ => id, .inl rfl⟩
  | handleEvents channel events =>
    have hrest : Removes s.registered rest := h
    exact ⟨hrest.calls calls, fun _ => id, .inl rfl⟩

omit [DecidableEq T] [DecidableEq E] in
theorem removes_singleton {a : RemovalAct E Ch} (ha : ∀ channel, a ≠ .callback channel) :
    Removes registered [a] := by
  cases a with
  | callback channel => exact absurd rfl (ha channel)
  | _ => trivial

theorem inv_step (hs : s.Inv) (h : step l s = some t) : t.Inv := by
  have hother : ∀ {w a}, (∀ channel, a ≠ .callback channel) →
      ∀ v, Removes s.registered (update s.stack w [a] v) := by
    intro w a ha v
    by_cases hv : v = w
    · subst hv
      rw [Function.update_self]
      exact removes_singleton ha
    · rw [Function.update_of_ne hv]
      exact hs.removes v
  cases moves_of_step h with
  | removeChannel => exact ⟨hother (by simp), hs.removed⟩
  | epollWait => exact ⟨hs.removes, hs.removed⟩
  | process => exact ⟨hother (by unfold dispatch; split <;> simp), hs.removed⟩
  | @task e task =>
    exact ⟨hother (by cases task <;> simp [LoopTask.act]), hs.removed⟩
  | @act w calls a rest hw =>
    obtain ⟨hnew, hle, hremoved⟩ := removes_act (w := w) calls (hw ▸ hs.removes w)
    refine ⟨fun v => ?_, fun channel hmem => ?_⟩
    · by_cases hv : v = w
      · subst hv
        show Removes _ (update s.stack v _ v)
        rw [Function.update_self]
        exact hnew
      · show Removes _ (update s.stack w _ v)
        rw [Function.update_of_ne hv]
        exact (hs.removes v).mono hle
    · apply hle channel
      rcases hremoved with heq | ⟨c, hc, heq⟩
      · exact hs.removed channel (heq ▸ hmem)
      · have hmem : channel ∈ s.removed ++ [c] := heq ▸ hmem
        rcases List.mem_append.mp hmem with hmem | hmem
        · exact hs.removed channel hmem
        · rwa [List.mem_singleton.mp hmem]

end Inv

/-! ### What one act changes -/

/-- What an act does to the events in flight, and what it leaves to be done. -/
structure ActFrame (s : ChannelRemoval T E Ch) (a : RemovalAct E Ch)
    (next : ChannelRemoval T E Ch × List (RemovalAct E Ch)) : Prop where
  selected : next.1.selected = s.selected
  queue : ∀ e, next.1.queue e = s.queue e ∨ ∃ task, next.1.queue e = s.queue e ++ [task] ∧
    ∀ channel events, task = .handleEvents channel events → a = .submit e channel events
  handled : next.1.handled = s.handled ∨
    ∃ channel events, a = .handleEvents channel events ∧ next.1.handled = s.handled ++ [channel]
  event : ∀ b ∈ next.2, b.event? = none
  removed : ∀ channel ∈ s.removed, channel ∈ next.1.removed

omit [DecidableEq T] [DecidableEq Ch] in
theorem queue_submit (s : ChannelRemoval T E Ch) (e e' : E) (task : LoopTask Ch) :
    (s.submit e task).queue e' = s.queue e' ∨
      e' = e ∧ (s.submit e task).queue e' = s.queue e' ++ [task] := by
  show update s.queue e (s.queue e ++ [task]) e' = _ ∨ _ ∧ update s.queue e _ e' = _
  by_cases he : e' = e
  · subst he
    exact .inr ⟨rfl, Function.update_self _ _ _⟩
  · exact .inl (Function.update_of_ne he _ _)

theorem act_frame (s : ChannelRemoval T E Ch) (w : LoopThread T E) (calls : List (RemoveCall E Ch))
    (a : RemovalAct E Ch) : ActFrame s a (s.act w calls a) := by
  have hcalls : ∀ b ∈ (calls.map .removeChannel : List (RemovalAct E Ch)), b.event? = none := by
    intro b hb
    obtain ⟨call, -, rfl⟩ := List.mem_map.mp hb
    rfl
  cases a with
  | removeChannel call =>
    by_cases hw : w = .loop call.loop
    · simp only [act, hw, ne_eq, not_true, if_false]
      refine ⟨rfl, fun _ => .inl rfl, .inl rfl, fun b hb => ?_, fun _ h => h⟩
      split_ifs at hb <;> simp only [List.mem_cons, List.not_mem_nil, or_false] at hb
      · rcases hb with rfl | rfl | rfl <;> rfl
      · rcases hb with rfl | rfl <;> rfl
    · simp only [act, ne_eq, hw, not_false_eq_true, if_true]
      refine ⟨rfl, fun e => ?_, .inl rfl, by simp, fun _ h => h⟩
      rcases queue_submit s call.loop e (.removeChannel call.channel) with heq | ⟨-, heq⟩
      · exact .inl heq
      · exact .inr ⟨_, heq, fun _ _ h => by cases h⟩
  | remove channel | unbind channel =>
    exact ⟨rfl, fun _ => .inl rfl, .inl rfl, by simp [act], fun _ h => h⟩
  | callback channel =>
    exact ⟨rfl, fun _ => .inl rfl, .inl rfl, hcalls, fun _ h => List.mem_append_left _ h⟩
  | submit e channel events =>
    refine ⟨rfl, fun e' => ?_, .inl rfl, by simp [act], fun _ h => h⟩
    rcases queue_submit s e e' (.handleEvents channel events) with heq | ⟨rfl, heq⟩
    · exact .inl heq
    · refine .inr ⟨_, heq, fun c m h => ?_⟩
      cases h
      rfl
  | handleEvents channel events =>
    exact ⟨rfl, fun _ => .inl rfl, .inr ⟨channel, events, rfl, rfl⟩, hcalls, fun _ h => h⟩

theorem removed_step {s t : ChannelRemoval T E Ch} {l : RemovalLabel T E Ch} {channel : Ch}
    (h : step l s = some t) (hc : channel ∈ s.removed) : channel ∈ t.removed := by
  cases moves_of_step h with
  | removeChannel | epollWait | process | task => exact hc
  | @act w calls a => exact (act_frame s w calls a).removed channel hc

/-! ### Nothing in flight -/

section InFlight

variable {s t : ChannelRemoval T E Ch} {l : RemovalLabel T E Ch} {w : LoopThread T E} {channel : Ch}
  {n : Nat}

/-- Without an event of the channel in flight, none comes up and none is handled. -/
theorem not_inFlight_step (hreg : s.registered channel = false) (hs : ¬ InFlight channel s)
    (h : step l s = some t) :
    ¬ InFlight channel t ∧ t.handled.count channel = s.handled.count channel := by
  have hbegin : ∀ {w a}, s.stack w = [] → a.event? ≠ some channel →
      ¬ Stacks.Any (fun a => a.event? = some channel) (update s.stack w [a]) := by
    intro w a hw ha hany
    rcases (Stacks.any_begin hw).mp hany with ⟨b, hb, hevent⟩ | hany
    · exact ha (List.mem_singleton.mp hb ▸ hevent)
    · exact hs (.held hany)
  cases moves_of_step h with
  | removeChannel hw =>
    refine ⟨fun hin => ?_, rfl⟩
    cases hin with
    | collected h => exact hs (.collected h)
    | queued h => exact hs (.queued h)
    | held h => exact hbegin hw (by simp [RemovalAct.event?]) h
  | epollWait hready =>
    -- only registered channels are reported
    refine ⟨fun hin => ?_, rfl⟩
    cases hin with
    | collected h => simp [hready _ h] at hreg
    | queued h => exact hs (.queued h)
    | held h => exact hs (.held h)
  | @process c events selected hw hselected =>
    have hne : c ≠ channel := by
      rintro rfl
      exact hs (.collected (hselected ▸ List.mem_cons_self))
    refine ⟨fun hin => ?_, rfl⟩
    cases hin with
    | collected h => exact hs (.collected (hselected ▸ List.mem_cons_of_mem _ h))
    | queued h => exact hs (.queued h)
    | held h => exact hbegin hw (by unfold dispatch; split <;> simpa [RemovalAct.event?] using hne) h
  | @task e task queue hw hqueue =>
    refine ⟨fun hin => ?_, rfl⟩
    cases hin with
    | collected h => exact hs (.collected h)
    | @queued e' events h =>
      have h : .handleEvents channel events ∈ update s.queue e queue e' := h
      by_cases he : e' = e
      · subst he
        rw [Function.update_self] at h
        exact hs (.queued (hqueue ▸ List.mem_cons_of_mem _ h))
      · rw [Function.update_of_ne he] at h
        exact hs (.queued h)
    | held h =>
      refine hbegin hw (fun hevent => ?_) h
      cases task with
      | removeChannel c => cases hevent
      | handleEvents c events =>
        obtain rfl : c = channel := Option.some.inj hevent
        exact hs (.queued (hqueue ▸ List.mem_cons_self))
  | @act w calls a rest hw =>
    -- the act is not about the channel, and only acts on an event pass the event on
    have ha : a.event? ≠ some channel := fun ha => hs (.held (.head hw ha))
    have hframe := act_frame s w calls a
    refine ⟨fun hin => ?_, ?_⟩
    · cases hin with
      | collected h =>
        rw [show _ = s.selected from hframe.selected] at h
        exact hs (.collected h)
      | @queued e events h =>
        rcases hframe.queue e with heq | ⟨task, heq, htask⟩
        · rw [show _ = s.queue e from heq] at h
          exact hs (.queued h)
        · rw [show _ = s.queue e ++ [task] from heq] at h
          rcases List.mem_append.mp h with h | h
          · exact hs (.queued h)
          · exact ha (htask channel events (List.mem_singleton.mp h).symm ▸ rfl)
      | held h =>
        rcases Stacks.any_advance hw h with ⟨b, hb, hevent⟩ | hany
        · rw [hframe.event b hb] at hevent
          cases hevent
        · exact hs (.held hany)
    · show (s.act w calls a).1.handled.count channel = _
      rcases hframe.handled with heq | ⟨c, events, rfl, heq⟩
      · rw [heq]
      · have hne : c ≠ channel := fun h => ha (h ▸ rfl)
        rw [heq, List.count_append, List.count_singleton]
        simp [hne]

/-- In flight is nothing: `HandleEvents` of the channel does not begin again. -/
theorem quiet_of_not_inFlight (hinv : s.Inv) (hc : channel ∈ s.removed)
    (hs : ¬ InFlight channel s) : Quiet channel s := by
  refine System.not_leads (I := fun t => t.Inv ∧ channel ∈ t.removed ∧ ¬ InFlight channel t ∧
    t.handled.count channel = s.handled.count channel) ?_
    (fun t ht hlt => absurd hlt (by rw [ht.2.2.2]; exact lt_irrefl _)) ⟨hinv, hc, hs, rfl⟩
  rintro l u v ⟨hu, huc, hin, hcount⟩ - hv
  obtain ⟨hin', hcount'⟩ := not_inFlight_step (hu.removed channel huc) hin hv
  exact ⟨inv_step hu hv, removed_step hv huc, hin', hcount'.trans hcount⟩

end InFlight

/-! ### Whatever is in flight arrives -/

/-- How many steps the act takes at most, if no handler and no callback calls anything. -/
def weight : RemovalAct E Ch → Nat
  | .removeChannel _ => 4
  | _ => 1

section Arrives

variable {s t : ChannelRemoval T E Ch} {l : RemovalLabel T E Ch} {w : LoopThread T E} {channel : Ch}
  {events : EventMask} {n : Nat}

theorem MayHandle.step (h : ChannelRemoval.step l s = some t) (ht : MayHandle channel n t) :
    MayHandle channel n s :=
  System.Leads.step h trivial ht

theorem weight_act (s : ChannelRemoval T E Ch) (w : LoopThread T E) (a : RemovalAct E Ch) :
    ((s.act w [] a).2.map weight).sum < weight a := by
  cases a with
  | removeChannel call =>
    by_cases hw : w = .loop call.loop
    · simp only [act, hw, ne_eq, not_true, if_false]
      split_ifs <;> simp [weight]
    · simp [act, hw, weight]
  | _ => simp [act, weight]

theorem count_le_act (s : ChannelRemoval T E Ch) (w : LoopThread T E) (a : RemovalAct E Ch) :
    s.handled.count channel ≤ (s.act w [] a).1.handled.count channel := by
  rcases (act_frame s w [] a).handled with heq | ⟨c, m, -, heq⟩
  · rw [heq]
  · rw [heq, List.count_append]
    omega

/-- A thread gets to the end of what it has to do; until then, queues only grow. -/
theorem mayHandle_of_drained (hn : n ≤ s.handled.count channel)
    (h : ∀ t : ChannelRemoval T E Ch, t.stack w = [] → t.selected = s.selected →
      (∀ e, ∃ more, t.queue e = s.queue e ++ more) → n ≤ t.handled.count channel →
      MayHandle channel n t) : MayHandle channel n s := by
  generalize hk : ((s.stack w).map weight).sum = k
  induction k using Nat.strong_induction_on generalizing s with
  | _ k ih =>
    cases hw : s.stack w with
    | nil => exact h s hw rfl (fun _ => ⟨[], by simp⟩) hn
    | cons a rest =>
      have hstep : step (.act w []) s = some { (s.act w [] a).1 with
          stack := update s.stack w ((s.act w [] a).2 ++ rest) } := by simp only [step, hw]
      have hframe := act_frame s w [] a
      have hweight := weight_act s w a
      refine .step hstep (ih _ ?_ (hn.trans (count_le_act s w a)) ?_ rfl)
      · rw [← hk, hw]
        simp only [Function.update_self, List.map_append, List.sum_append, List.map_cons,
          List.sum_cons]
        omega
      · intro t ht hselected hqueue hnt
        refine h t ht (hselected.trans hframe.selected) (fun e => ?_) hnt
        obtain ⟨more, hmore⟩ := hqueue e
        have hmore : t.queue e = (s.act w [] a).1.queue e ++ more := hmore
        rcases hframe.queue e with heq | ⟨task, heq, -⟩
        · exact ⟨more, by rw [hmore, heq]⟩
        · exact ⟨task :: more, by rw [hmore, heq, List.append_assoc, List.singleton_append]⟩

/-- A handler that is about to begin. -/
theorem mayHandle_of_next {rest : List (RemovalAct E Ch)}
    (hw : s.stack w = .handleEvents channel events :: rest) (hn : n ≤ s.handled.count channel) :
    MayHandle channel n s := by
  have hstep : step (.act w []) s = some { s with
      handled := s.handled ++ [channel], stack := update s.stack w rest } := by
    simp [step, hw, act]
  refine .step hstep (.here ?_)
  show n < (s.handled ++ [channel]).count channel
  rw [List.count_append, List.count_singleton_self]
  omega

/-- A loop comes to every task on its queue. -/
theorem mayHandle_of_queued {e : E} {pre post : List (LoopTask Ch)}
    (hqueue : s.queue e = pre ++ .handleEvents channel events :: post)
    (hn : n ≤ s.handled.count channel) : MayHandle channel n s := by
  induction pre generalizing s post with
  | nil =>
    apply mayHandle_of_drained (w := .loop e) hn
    intro t hw _ hmore hnt
    obtain ⟨more, hmore⟩ := hmore e
    rw [hqueue, List.nil_append, List.cons_append] at hmore
    have hstep : step (.task e) t = some { t with
        queue := update t.queue e (post ++ more)
        stack := update t.stack (.loop e) [.handleEvents channel events] } := by
      simp [step, hw, hmore, LoopTask.act]
    exact .step hstep (mayHandle_of_next (Function.update_self _ _ _) hnt)
  | cons task pre ih =>
    apply mayHandle_of_drained (w := .loop e) hn
    intro t hw _ hmore hnt
    obtain ⟨more, hmore⟩ := hmore e
    rw [hqueue, List.cons_append, List.cons_append] at hmore
    have hstep : step (.task e) t = some { t with
        queue := update t.queue e ((pre ++ .handleEvents channel events :: post) ++ more)
        stack := update t.stack (.loop e) [task.act e] } := by
      simp only [step, hw, hmore]
    have hrest : update t.queue e ((pre ++ .handleEvents channel events :: post) ++ more) e =
        pre ++ .handleEvents channel events :: (post ++ more) := by
      rw [Function.update_self, List.append_assoc, List.cons_append]
    exact .step hstep (ih hrest hnt)

/-- A thread comes to everything it has to do. -/
theorem mayHandle_of_held (hs : Stacks.Any (fun a => a.event? = some channel) s.stack)
    (hn : n ≤ s.handled.count channel) : MayHandle channel n s := by
  obtain ⟨w, b, hb, hevent⟩ := hs
  generalize hk : ((s.stack w).map weight).sum = k
  induction k using Nat.strong_induction_on generalizing s with
  | _ k ih =>
    cases hw : s.stack w with
    | nil => simp [hw] at hb
    | cons a rest =>
      have hstep : step (.act w []) s = some { (s.act w [] a).1 with
          stack := update s.stack w ((s.act w [] a).2 ++ rest) } := by simp only [step, hw]
      rw [hw, List.mem_cons] at hb
      rcases hb with rfl | hb
      · cases b with
        | handleEvents c m =>
          obtain rfl : c = channel := Option.some.inj hevent
          exact mayHandle_of_next hw hn
        | submit e c m =>
          obtain rfl : c = channel := Option.some.inj hevent
          have hqueue : update s.queue e (s.queue e ++ [.handleEvents c m]) e =
              s.queue e ++ .handleEvents c m :: [] := Function.update_self _ _ _
          exact .step hstep (mayHandle_of_queued hqueue hn)
        | removeChannel | remove | unbind | callback => cases hevent
      · have hweight := weight_act s w a
        refine .step hstep (ih _ ?_ (hn.trans (count_le_act s w a)) ?_ rfl)
        · rw [← hk, hw]
          simp only [Function.update_self, List.map_append, List.sum_append, List.map_cons,
            List.sum_cons]
          omega
        · show b ∈ update s.stack w _ w
          rw [Function.update_self]
          exact List.mem_append_right _ hb

/-- The scheduler thread comes to every entry it has collected. -/
theorem mayHandle_of_collected {pre post : List (Ch × EventMask)}
    (hselected : s.selected = pre ++ (channel, events) :: post) (hn : n ≤ s.handled.count channel) :
    MayHandle channel n s := by
  induction pre generalizing s with
  | nil =>
    apply mayHandle_of_drained (w := .scheduler) hn
    intro t hw hsel _ hnt
    rw [hselected, List.nil_append] at hsel
    have hstep : step .process t = some { t with
        selected := post
        stack := update t.stack .scheduler [dispatch channel events (t.executor channel)] } := by
      simp only [step, hw, hsel]
    refine .step hstep (mayHandle_of_held
      ⟨.scheduler, dispatch channel events (t.executor channel), ?_, ?_⟩ hnt)
    · show _ ∈ update t.stack .scheduler _ .scheduler
      rw [Function.update_self]
      exact List.mem_cons_self
    · unfold dispatch
      split <;> rfl
  | cons entry pre ih =>
    apply mayHandle_of_drained (w := .scheduler) hn
    intro t hw hsel _ hnt
    rw [hselected, List.cons_append] at hsel
    have hstep : step .process t = some { t with
        selected := pre ++ (channel, events) :: post
        stack := update t.stack .scheduler [dispatch entry.1 entry.2 (t.executor entry.1)] } := by
      simp only [step, hw, hsel]
    exact .step hstep (ih rfl hnt)

theorem not_quiet_of_inFlight (hs : InFlight channel s) : ¬ Quiet channel s := by
  apply not_not.mpr
  cases hs with
  | collected h =>
    obtain ⟨pre, post, heq⟩ := List.append_of_mem h
    exact mayHandle_of_collected heq le_rfl
  | queued h =>
    obtain ⟨pre, post, heq⟩ := List.append_of_mem h
    exact mayHandle_of_queued heq le_rfl
  | held h => exact mayHandle_of_held h le_rfl

end Arrives

/-! ### Main theorem -/

omit [DecidableEq T] [DecidableEq E] [DecidableEq Ch] in
theorem inv_start [DecidableEq Ch] (registered : Ch → Bool) (executor : Ch → Option E) :
    (start registered executor : ChannelRemoval T E Ch).Inv :=
  ⟨fun _ => trivial, fun _ h => by cases h⟩

/-- **Removal as a quiescence point**: once the callback of `RemoveChannel` has run, no
`HandleEvents` of the channel begins any more, if and only if no event of it is in flight. -/
theorem quiet_iff_not_inFlight {s : ChannelRemoval T E Ch} {channel : Ch}
    (hs : (channelRemoval T E Ch).Reachable s) (hc : channel ∈ s.removed) :
    Quiet channel s ↔ ¬ InFlight channel s := by
  have hinv : s.Inv := hs.invariant (I := Inv)
    (by rintro s ⟨registered, executor, rfl⟩; exact inv_start registered executor)
    fun l s t hI _ ht => inv_step hI ht
  constructor
  · exact fun hquiet hin => not_quiet_of_inFlight hin hquiet
  · exact quiet_of_not_inFlight hinv hc

/-- One thread has the only channel removed from the only loop; here until the callback has run. -/
def removeIdle : List (RemovalLabel Unit Unit Unit) :=
  [.removeChannel () ⟨(), (), true⟩, .act (.other ()) [], .task (), .act (.loop ()) [],
    .act (.loop ()) [], .act (.loop ()) [], .act (.loop ()) []]

/-- Nothing has been reported for the channel when it is removed. -/
theorem quiet_removeIdle : ∃ s, (channelRemoval Unit Unit Unit).run removeIdle
    (start (fun _ => true) (fun _ => some ())) = some s ∧ Quiet () s := by
  refine ⟨_, rfl, ?_⟩
  refine (quiet_iff_not_inFlight (System.reachable_of_run ⟨fun _ => true, fun _ => some (), rfl⟩
    (show System.run _ removeIdle _ = some _ from rfl)) (by decide)).mpr fun hin => ?_
  cases hin with
  | collected h => cases h
  | queued h => cases h
  | held h =>
    obtain ⟨w, a, ha, -⟩ := h
    cases w with
    | scheduler => cases ha
    | loop e => cases ha
    | other t => cases ha

/-- The channel has been collected before it is removed: the scheduler thread finds no executor any
more and handles the event itself, after the callback. -/
theorem collectedThenRemoved_not_quiet : ∃ s, (channelRemoval Unit Unit Unit).run
    (.epollWait [((), ReceiveEvents.kReadable)] :: removeIdle)
    (start (fun _ => true) (fun _ => some ())) = some s ∧ () ∈ s.removed ∧ ¬ Quiet () s := by
  refine ⟨_, rfl, by decide, not_not.mpr ?_⟩
  exact ⟨[.process, .act .scheduler []], _, fun _ _ => trivial, rfl, by decide⟩

end ChannelRemoval

end Lizlib
