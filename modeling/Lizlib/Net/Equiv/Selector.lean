import Mathlib.Data.List.Perm.Basic
import Mathlib.Data.List.Nodup
import Lizlib.Net.Selector

/-!
# What the dispatched closures handle

`Scheduler.Faithful` is what dispatching is for: every reported entry is handed over exactly once,
and every call of `HandleEvents` got the channel, the mask and the timestamp of its own entry.

The closures read `results_` through `this` when they run, so this holds of a run exactly when
every closure runs before the scheduler thread begins to refill `results_`
(`Scheduler.Prompt`, `faithful_iff_prompt`).  The invariant behind it (`Scheduler.Inv`) says what
the vectors hold at each point of the scheduler's loop (`Shape`), which entries have been passed
(`mem_processed`), and that passed entries are neither lost nor duplicated (`conserved`).
-/

namespace Lizlib.Scheduler

variable {Ch Ex : Type*}

/-! ### The specification -/

/-- What the closure of `t` should pass to `HandleEvents`: its entry in the round that submitted
it. -/
def entry (rounds : List (Round Ch)) (t : Task) : Option (Handled Ch) :=
  (rounds[t.round]?).bind fun r =>
    (r.ready[t.index]?).map fun e => ⟨e.1, e.2, r.occur_ts, t.round⟩

/-- The call handled its own entry, and read it inside both vectors. -/
def Own (rounds : List (Round Ch)) (c : TaskCall Ch) : Prop :=
  c.handled.isSome ∧ c.handled = entry rounds c.task

/-- Every closure there is or was: waiting, run, run in place, or dropped. -/
def occurrences (s : Scheduler Ch Ex) : List Task :=
  s.pending.map Prod.snd ++ s.calls.map TaskCall.task ++ s.inlined.map TaskCall.task ++ s.discarded

/-- All entries of round `r` have been passed by `Process`. -/
def Finished (s : Scheduler Ch Ex) (r : Nat) : Prop :=
  r + 1 < s.rounds.length ∨ (r + 1 = s.rounds.length ∧ (s.pc = .wait ∨ s.pc = .exit))

/-- **Faithful dispatch.** -/
structure Faithful (s : Scheduler Ch Ex) : Prop where
  /-- Every call of `HandleEvents` handled its own entry. -/
  own : ∀ c ∈ s.calls ++ s.inlined, Own s.rounds c
  /-- Every entry passed by `Process` is exactly once waiting, handled or discarded. -/
  once : ∀ t ∈ s.processed, s.occurrences.count t = 1
  /-- Nothing else is. -/
  only : ∀ t ∈ s.occurrences, t ∈ s.processed
  /-- Every entry reported in a finished round has been passed. -/
  reported : ∀ r R i, s.rounds[r]? = some R → i < R.ready.length → s.Finished r →
    ⟨r, i⟩ ∈ s.processed

/-- A closure that runs does so before `results_` is refilled after the round that submitted it. -/
def Prompt : SchedulerLabel Ch Ex → Scheduler Ch Ex → Prop
  | .exec k, s => ∀ e t, s.pending[k]? = some (e, t) → t.round = s.round
  | _, _ => True

/-! ### The invariant -/

/-- `results_` holds the entries `es` of the round `r`. -/
def Holds (s : Scheduler Ch Ex) (r : Round Ch) (es : List (Ch × EventMask)) : Prop :=
  s.results_ = ⟨r.occur_ts, es.map Prod.fst, es.map Prod.snd⟩

/-- What `results_` holds at each point of the scheduler's loop. -/
def Shape (s : Scheduler Ch Ex) : Prop :=
  match s.pc with
  | .clearEvents ready => ∃ r, s.rounds.getLast? = some r ∧ r.ready = ready ∧
      s.results_.occur_ts = r.occur_ts
  | .clearChannels ready => ∃ r, s.rounds.getLast? = some r ∧ r.ready = ready ∧
      s.results_.occur_ts = r.occur_ts ∧ s.results_.events = []
  | .fillChannel ready => ∃ r es, s.rounds.getLast? = some r ∧ r.ready = es ++ ready ∧
      s.Holds r es
  | .fillEvent m ready => ∃ r es c, s.rounds.getLast? = some r ∧ r.ready = es ++ (c, m) :: ready ∧
      s.results_ = ⟨r.occur_ts, es.map Prod.fst ++ [c], es.map Prod.snd⟩
  | .process _ => ∃ r, s.rounds.getLast? = some r ∧ s.Holds r r.ready
  | .wait | .exit => ∀ r, s.rounds.getLast? = some r → s.Holds r r.ready

/-- The indices of the current round that `Process` has passed. -/
def Passed : SchedulerPc Ch → Nat → Prop
  | .process j, i => i < j
  | .wait, _ | .exit, _ => True
  | _, _ => False

structure Inv (s : Scheduler Ch Ex) : Prop where
  shape : s.Shape
  nodup : s.processed.Nodup
  mem_processed : ∀ t, t ∈ s.processed ↔
    ∃ R, s.rounds[t.round]? = some R ∧ t.index < R.ready.length ∧
      (t.round + 1 = s.rounds.length → Passed s.pc t.index)
  conserved : s.occurrences.Perm s.processed

theorem inv_start (executor : Ch → Option Ex) (cancelled : Ex → Bool) :
    Inv (start executor cancelled) where
  shape := by simp [Shape, start]
  nodup := by simp [start]
  mem_processed t := by simp [start]
  conserved := by simp [occurrences, start]

theorem getLast?_eq_getElem? (s : Scheduler Ch Ex) : s.rounds.getLast? = s.rounds[s.round]? := by
  rw [List.getLast?_eq_getElem?, round]

/-- Once the vectors hold the whole round, index `i` finds entry `i`. -/
theorem handle_of_holds {s : Scheduler Ch Ex} {r : Round Ch}
    (hr : s.rounds.getLast? = some r) (h : s.Holds r r.ready) (i : Nat) :
    s.results_.handle s.round i = entry s.rounds (s.taskAt i) := by
  rw [getLast?_eq_getElem?] at hr
  simp only [entry, taskAt, hr, Option.bind_some]
  rw [SelectedChannels.handle, h]
  cases he : r.ready[i]? <;> simp [he]

/-- A step that leaves rounds, passed entries and closures alone keeps the invariant, if what
`Passed` says about the current round's indices is unchanged. -/
theorem Inv.congr {s s' : Scheduler Ch Ex} (h : Inv s) (hrounds : s'.rounds = s.rounds)
    (hprocessed : s'.processed = s.processed) (hocc : s'.occurrences.Perm s.occurrences)
    (hpassed : ∀ R i, s.rounds.getLast? = some R → i < R.ready.length →
      (Passed s'.pc i ↔ Passed s.pc i)) (hshape : s'.Shape) : Inv s' where
  shape := hshape
  nodup := hprocessed ▸ h.nodup
  mem_processed t := by
    rw [hprocessed, h.mem_processed, hrounds]
    refine exists_congr fun R => and_congr_right fun hR => and_congr_right fun hi => ?_
    apply imp_congr_right
    intro hlast
    have hlast' : s.rounds.getLast? = some R := by
      rw [List.getLast?_eq_getElem?, ← hR]
      congr 1
      omega
    exact (hpassed R t.index hlast' hi).symm
  conserved := hprocessed ▸ hocc.trans h.conserved

/-! ### The steps keep the invariant -/

theorem inv_epollWaitStep {s : Scheduler Ch Ex} (h : Inv s) (hpc : s.pc = .wait)
    (now : Timestamp) (result : Except Nat (List (Ch × EventMask))) :
    Inv (s.epollWaitStep now result) := by
  have hshape := h.shape
  simp only [Shape, hpc] at hshape
  cases result with
  | error code =>
    unfold epollWaitStep
    dsimp only
    split_ifs
    · exact h
    · exact h.congr rfl rfl (.refl _) (fun _ _ _ _ => by simp [hpc, Passed]) hshape
  | ok ready =>
    refine ⟨⟨⟨now, ready⟩, by simp [epollWaitStep], rfl, rfl⟩, h.nodup, fun t => ?_, h.conserved⟩
    simp only [epollWaitStep]
    rw [h.mem_processed]
    constructor
    · rintro ⟨R, hR, hi, -⟩
      have hlt : t.round < s.rounds.length := (List.getElem?_eq_some_iff.mp hR).1
      refine ⟨R, by rw [List.getElem?_append_left hlt, hR], hi, fun heq => ?_⟩
      rw [List.length_append, List.length_singleton] at heq
      omega
    · rintro ⟨R, hR, hi, hlast⟩
      -- an entry of the new round would have to be passed already
      have hlt : t.round < s.rounds.length := by
        by_contra hge
        have hlen := (List.getElem?_eq_some_iff.mp hR).1
        rw [List.length_append, List.length_singleton] at hlen
        exact hlast (by rw [List.length_append, List.length_singleton]; omega)
      rw [List.getElem?_append_left hlt] at hR
      exact ⟨R, hR, hi, fun _ => by simp [hpc, Passed]⟩

/-- The submission of a closure adds it to the closures there are. -/
theorem submit_spec (s : Scheduler Ch Ex) (e : Ex) (t : Task) :
    (s.submit e t).occurrences.Perm (t :: s.occurrences) ∧ (s.submit e t).pc = s.pc ∧
      (s.submit e t).results_ = s.results_ ∧ (s.submit e t).rounds = s.rounds ∧
      (s.submit e t).processed = s.processed := by
  unfold submit
  split_ifs
  · refine ⟨?_, rfl, rfl, rfl, rfl⟩
    simp only [occurrences, ← List.append_assoc]
    exact List.perm_append_singleton _ _
  · refine ⟨?_, rfl, rfl, rfl, rfl⟩
    simp only [occurrences, List.map_append, List.map_cons, List.map_nil, List.append_assoc]
    exact List.perm_middle

/-- What passing index `i` of the current round does: the closure is added, run in place or
dropped, and `Process` goes on to `i + 1`. -/
theorem processStep_spec {s : Scheduler Ch Ex} {i : Nat} {c : Ch}
    (hc : s.results_.channels[i]? = some c) :
    (s.processStep i).occurrences.Perm (s.taskAt i :: s.occurrences) ∧
      (s.processStep i).pc = .process (i + 1) ∧ (s.processStep i).results_ = s.results_ ∧
      (s.processStep i).rounds = s.rounds ∧
      (s.processStep i).processed = s.processed ++ [s.taskAt i] := by
  unfold processStep
  rw [hc]
  dsimp only
  cases s.executor c with
  | none =>
    refine ⟨?_, rfl, rfl, rfl, rfl⟩
    simp only [occurrences, List.map_append, List.map_cons, List.map_nil, List.append_assoc]
    refine (List.Perm.append_left _ (List.Perm.append_left _ ?_)).trans
      ((List.Perm.append_left _ List.perm_middle).trans List.perm_middle)
    exact List.perm_middle
  | some e => exact submit_spec _ e (s.taskAt i)

theorem inv_processStep {s : Scheduler Ch Ex} (h : Inv s) {i : Nat} (hpc : s.pc = .process i) :
    Inv (s.processStep i) := by
  have hshape := h.shape
  simp only [Shape, hpc] at hshape
  obtain ⟨r, hr, hholds⟩ := hshape
  have hchannels : s.results_.channels = r.ready.map Prod.fst := by rw [hholds]
  cases hc : s.results_.channels[i]? with
  | none =>
    have hlen : r.ready.length ≤ i := by
      rw [hchannels, List.getElem?_eq_none_iff, List.length_map] at hc
      exact hc
    have heq : s.processStep i = { s with pc := .wait } := by
      unfold processStep
      rw [hc]
    rw [heq]
    refine h.congr rfl rfl (.refl _) (fun R j hR hj => ?_) (fun R hR => ?_)
    · rw [hr, Option.some.injEq] at hR
      subst hR
      simp only [hpc, Passed, true_iff]
      omega
    · rw [hr, Option.some.injEq] at hR
      exact hR ▸ hholds
  | some c =>
    have hlt : i < r.ready.length := by
      have := (List.getElem?_eq_some_iff.mp hc).1
      rwa [hchannels, List.length_map] at this
    obtain ⟨hocc, hpc', hres, hrounds, hproc⟩ := processStep_spec hc
    have hpos : s.rounds ≠ [] := by
      rintro hnil
      simp [hnil] at hr
    have hround : s.round + 1 = s.rounds.length := by
      have := List.length_pos_of_ne_nil hpos
      unfold round
      omega
    have hr' : s.rounds[s.round]? = some r := by rw [← getLast?_eq_getElem?, hr]
    have hnew : s.taskAt i ∉ s.processed := by
      rw [h.mem_processed]
      rintro ⟨R, -, -, hpass⟩
      have := hpass hround
      simp only [hpc, Passed, taskAt] at this
      omega
    refine ⟨?_, ?_, fun t => ?_, ?_⟩
    · simp only [Shape, hpc', Holds, hres, hrounds]
      exact ⟨r, hr, hholds⟩
    · rw [hproc]
      exact List.Nodup.append h.nodup (List.nodup_singleton _) (by simpa using hnew)
    · rw [hproc, hrounds, hpc', List.mem_append, List.mem_singleton, h.mem_processed]
      constructor
      · rintro (⟨R, hR, hi, hpass⟩ | rfl)
        · refine ⟨R, hR, hi, fun hlast => ?_⟩
          have := hpass hlast
          simp only [hpc, Passed] at this ⊢
          omega
        · exact ⟨r, hr', hlt, fun _ => by simp [Passed, taskAt]⟩
      · rintro ⟨R, hR, hi, hpass⟩
        by_cases hlast : t.round + 1 = s.rounds.length
        · have hle := hpass hlast
          simp only [Passed] at hle
          rcases Nat.lt_succ_iff_lt_or_eq.mp hle with hlt' | heq
          · exact Or.inl ⟨R, hR, hi, fun _ => by simpa [hpc, Passed] using hlt'⟩
          · apply Or.inr
            cases t
            simp only [taskAt, Task.mk.injEq]
            exact ⟨by simp only at hlast; omega, heq⟩
        · exact Or.inl ⟨R, hR, hi, fun h => absurd h hlast⟩
    · rw [hproc]
      exact (hocc.trans (h.conserved.cons _)).trans (List.perm_append_singleton _ _).symm

theorem inv_nextStep {s s' : Scheduler Ch Ex} (h : Inv s) (hs : s.nextStep = some s') :
    Inv s' := by
  have hshape := h.shape
  unfold nextStep at hs
  cases hpc : s.pc with
  | wait => simp [hpc] at hs
  | exit => simp [hpc] at hs
  | clearEvents ready =>
    simp only [hpc, Option.some.injEq] at hs
    simp only [Shape, hpc] at hshape
    obtain ⟨r, hr, hready, hts⟩ := hshape
    subst hs
    exact h.congr rfl rfl (.refl _) (fun _ _ _ _ => by simp [hpc, Passed]) ⟨r, hr, hready, hts, rfl⟩
  | clearChannels ready =>
    simp only [hpc, Option.some.injEq] at hs
    simp only [Shape, hpc] at hshape
    obtain ⟨r, hr, hready, hts, hevents⟩ := hshape
    subst hs
    refine h.congr rfl rfl (.refl _) (fun _ _ _ _ => by simp [hpc, Passed]) ⟨r, [], hr, hready, ?_⟩
    simp [Holds, hts, hevents]
  | fillChannel ready =>
    simp only [hpc] at hs
    simp only [Shape, hpc] at hshape
    obtain ⟨r, es, hr, hready, hholds⟩ := hshape
    cases ready with
    | nil =>
      simp only [Option.some.injEq] at hs
      rw [List.append_nil] at hready
      subst hready hs
      by_cases hempty : s.results_.events.isEmpty = true
      · -- nothing was reported: back to `epoll_wait`
        have hnil : r.ready = [] := by
          rw [hholds] at hempty
          simpa using hempty
        refine h.congr rfl rfl (.refl _) (fun R i hR hi => ?_) ?_
        · rw [hr, Option.some.injEq] at hR
          rw [← hR, hnil] at hi
          simp at hi
        · simp only [Shape, hempty, if_true]
          intro R hR
          rw [hr, Option.some.injEq] at hR
          exact hR ▸ hholds
      · refine h.congr rfl rfl (.refl _) (fun _ _ _ _ => by simp [hpc, hempty, Passed]) ?_
        simp only [Shape, hempty]
        exact ⟨r, hr, hholds⟩
    | cons e ready =>
      obtain ⟨c, m⟩ := e
      simp only [Option.some.injEq] at hs
      subst hs
      refine h.congr rfl rfl (.refl _) (fun _ _ _ _ => by simp [hpc, Passed])
        ⟨r, es, c, hr, hready, ?_⟩
      rw [hholds]
  | fillEvent m ready =>
    simp only [hpc, Option.some.injEq] at hs
    simp only [Shape, hpc] at hshape
    obtain ⟨r, es, c, hr, hready, hres⟩ := hshape
    subst hs
    refine h.congr rfl rfl (.refl _) (fun _ _ _ _ => by simp [hpc, Passed])
      ⟨r, es ++ [(c, m)], hr, by simpa using hready, ?_⟩
    simp [Holds, hres]
  | process i =>
    simp only [hpc, Option.some.injEq] at hs
    subst hs
    exact inv_processStep h hpc

/-- Taking the `k`-th waiting closure out and putting it among the finished ones loses nothing. -/
theorem perm_finish {α : Type*} {l : List α} {k : Nat} {t : α} (h : l[k]? = some t) :
    l.Perm (t :: l.eraseIdx k) := by
  obtain ⟨hk, rfl⟩ := List.getElem?_eq_some_iff.mp h
  exact (List.getElem_cons_eraseIdx_perm hk).symm

theorem inv_exec {s : Scheduler Ch Ex} (h : Inv s) {k : Nat} {e : Ex} {t : Task}
    (hk : s.pending[k]? = some (e, t)) (handled : Option (Handled Ch)) :
    Inv { s with pending := s.pending.eraseIdx k, calls := s.calls ++ [⟨t, handled⟩] } := by
  refine h.congr rfl rfl ?_ (fun _ _ _ _ => Iff.rfl) h.shape
  have hperm := ((perm_finish hk).map Prod.snd).symm
  simp only [List.map_cons] at hperm
  simp only [occurrences, List.map_append, List.map_cons, List.map_nil, List.append_assoc,
    List.singleton_append]
  refine (List.Perm.append_left _ List.perm_middle).trans (List.perm_middle.trans ?_)
  exact hperm.append_right (s.calls.map TaskCall.task ++ (s.inlined.map TaskCall.task ++ s.discarded))

theorem inv_discard {s : Scheduler Ch Ex} (h : Inv s) {k : Nat} {e : Ex} {t : Task}
    (hk : s.pending[k]? = some (e, t)) :
    Inv { s with pending := s.pending.eraseIdx k, discarded := s.discarded ++ [t] } := by
  refine h.congr rfl rfl ?_ (fun _ _ _ _ => Iff.rfl) h.shape
  have hperm := ((perm_finish hk).map Prod.snd).symm
  simp only [List.map_cons] at hperm
  simp only [occurrences, ← List.append_assoc]
  apply (List.perm_append_singleton _ _).trans
  simp only [List.append_assoc]
  exact hperm.append_right (s.calls.map TaskCall.task ++ (s.inlined.map TaskCall.task ++ s.discarded))

/-! ### Exactly the prompt runs are faithful -/

/-- Under the invariant only what the calls handled is left to check. -/
theorem faithful_iff {s : Scheduler Ch Ex} (h : Inv s) :
    Faithful s ↔ ∀ c ∈ s.calls ++ s.inlined, Own s.rounds c := by
  refine ⟨Faithful.own, fun hown => ⟨hown, fun t ht => ?_, fun t ht => ?_, ?_⟩⟩
  · rw [h.conserved.count_eq]
    exact List.count_eq_one_of_mem h.nodup ht
  · exact h.conserved.subset ht
  · intro r R i hR hi hfin
    refine (h.mem_processed ⟨r, i⟩).mpr ⟨R, hR, hi, fun hlast => ?_⟩
    rcases hfin with hlt | ⟨-, hpc | hpc⟩
    · simp only at hlast
      omega
    · simp [hpc, Passed]
    · simp [hpc, Passed]

/-- A later round changes nothing about the entries of the rounds there were. -/
theorem entry_append {rounds : List (Round Ch)} {t : Task} (ht : t.round < rounds.length)
    (r : Round Ch) : entry (rounds ++ [r]) t = entry rounds t := by
  rw [entry, List.getElem?_append_left ht, entry]

theorem Inv.round_lt {s : Scheduler Ch Ex} (h : Inv s) {t : Task} (ht : t ∈ s.occurrences) :
    t.round < s.rounds.length := by
  obtain ⟨R, hR, -⟩ := (h.mem_processed t).mp (h.conserved.subset ht)
  exact (List.getElem?_eq_some_iff.mp hR).1

theorem task_mem_occurrences {s : Scheduler Ch Ex} {c : TaskCall Ch}
    (hc : c ∈ s.calls ++ s.inlined) : c.task ∈ s.occurrences := by
  simp only [occurrences, List.mem_append, List.mem_map] at hc ⊢
  rcases hc with hc | hc
  · exact Or.inl (Or.inl (Or.inr ⟨c, hc, rfl⟩))
  · exact Or.inl (Or.inr ⟨c, hc, rfl⟩)

/-- A passed entry of the current round is still in the vectors. -/
theorem own_of_current {s : Scheduler Ch Ex} (h : Inv s) {t : Task} (ht : t ∈ s.processed)
    (hround : t.round = s.round) :
    Own s.rounds ⟨t, s.results_.handle s.round t.index⟩ := by
  obtain ⟨R, hR, hi, hpass⟩ := (h.mem_processed t).mp ht
  have hlen := (List.getElem?_eq_some_iff.mp hR).1
  have hlast : s.rounds.getLast? = some R := by rw [getLast?_eq_getElem?, ← hround, hR]
  have hpassed : Passed s.pc t.index := hpass (by unfold round at hround; omega)
  have hholds : s.Holds R R.ready := by
    have hshape := h.shape
    unfold Shape at hshape
    cases hpc : s.pc with
    | process i =>
      rw [hpc] at hshape
      obtain ⟨r, hr, hholds⟩ := hshape
      rw [hlast, Option.some.injEq] at hr
      exact hr ▸ hholds
    | wait =>
      rw [hpc] at hshape
      exact hshape R hlast
    | exit =>
      rw [hpc] at hshape
      exact hshape R hlast
    | clearEvents _ => simp [hpc, Passed] at hpassed
    | clearChannels _ => simp [hpc, Passed] at hpassed
    | fillChannel _ => simp [hpc, Passed] at hpassed
    | fillEvent _ _ => simp [hpc, Passed] at hpassed
  have hentry : entry s.rounds t = some ⟨R.ready[t.index].1, R.ready[t.index].2, R.occur_ts,
      t.round⟩ := by
    simp [entry, hR, List.getElem?_eq_getElem hi]
  have hhandle : s.results_.handle s.round t.index = entry s.rounds t := by
    rw [handle_of_holds hlast hholds, taskAt, ← hround]
  exact ⟨by rw [hhandle, hentry]; rfl, hhandle⟩

/-- A closure that runs in a later round does not find its own entry. -/
theorem not_own_of_later {s : Scheduler Ch Ex} {t : Task} (hround : t.round ≠ s.round) :
    ¬ Own s.rounds ⟨t, s.results_.handle s.round t.index⟩ := by
  rintro ⟨hsome, heq⟩
  obtain ⟨x, hx⟩ := Option.isSome_iff_exists.mp hsome
  -- what was read is stamped with the current round, the entry with the closure's
  have hread : x.round = s.round := by
    simp only [SelectedChannels.handle] at hx
    split at hx
    · rw [Option.some.injEq] at hx
      rw [← hx]
    · simp at hx
  have hentry : x.round = t.round := by
    obtain ⟨R, -, hR⟩ := Option.bind_eq_some_iff.mp (heq.symm.trans hx)
    obtain ⟨e, -, rfl⟩ := Option.map_eq_some_iff.mp hR
    rfl
  exact hround (hentry.symm.trans hread)

/-- The entry handled in place by `Process` is the one it stands at. -/
theorem own_processStep {s : Scheduler Ch Ex} (h : Inv s) {i : Nat} (hpc : s.pc = .process i)
    (hown : ∀ c ∈ s.calls ++ s.inlined, Own s.rounds c) :
    ∀ c ∈ (s.processStep i).calls ++ (s.processStep i).inlined, Own s.rounds c := by
  have hinv := inv_processStep h hpc
  cases hc : s.results_.channels[i]? with
  | none =>
    intro c hmem
    apply hown c
    simpa only [processStep, hc] using hmem
  | some ch =>
    obtain ⟨-, -, hres, hrounds, hproc⟩ := processStep_spec hc
    have hcurrent : Own s.rounds ⟨s.taskAt i, s.results_.handle s.round i⟩ := by
      have hround : (s.processStep i).round = s.round := by rw [round, hrounds, round]
      have := own_of_current hinv (t := s.taskAt i) (by rw [hproc]; simp) (by rw [hround]; rfl)
      rwa [hround, hrounds, hres] at this
    intro c hmem
    unfold processStep at hmem
    simp only [hc] at hmem
    cases he : s.executor ch with
    | none =>
      simp only [he, ← List.append_assoc, List.mem_append, List.mem_singleton] at hmem
      rcases hmem with hmem | rfl
      · exact hown c (List.mem_append.mpr hmem)
      · exact hcurrent
    | some e =>
      apply hown c
      simp only [he, submit] at hmem
      split_ifs at hmem <;> exact hmem

variable [DecidableEq Ch] [DecidableEq Ex]

theorem inv_step {l : SchedulerLabel Ch Ex} {s s' : Scheduler Ch Ex} (h : Inv s)
    (hs : step l s = some s') : Inv s' := by
  cases l with
  | epollWait now result =>
    cases hpc : s.pc <;> simp only [step, hpc, Option.some.injEq, reduceCtorEq] at hs
    exact hs ▸ inv_epollWaitStep h hpc now result
  | next => exact inv_nextStep h hs
  | stop =>
    have hshape := h.shape
    cases hpc : s.pc <;> simp only [step, hpc, Option.some.injEq, reduceCtorEq] at hs
    simp only [Shape, hpc] at hshape
    subst hs
    exact h.congr rfl rfl (.refl _) (fun _ _ _ _ => by simp [hpc, Passed]) hshape
  | exec k =>
    cases hk : s.pending[k]? with
    | none => simp [step, hk] at hs
    | some et =>
      simp only [step, hk, Option.some.injEq] at hs
      exact hs ▸ inv_exec h hk _
  | discard k =>
    cases hk : s.pending[k]? with
    | none => simp [step, hk] at hs
    | some et =>
      simp only [step, hk, Option.ite_none_right_eq_some, Option.some.injEq] at hs
      exact hs.2 ▸ inv_discard h hk
  | cancel e =>
    simp only [step, Option.some.injEq] at hs
    exact hs ▸ h.congr rfl rfl (.refl _) (fun _ _ _ _ => Iff.rfl) h.shape
  | setExecutor c e =>
    simp only [step, Option.some.injEq] at hs
    exact hs ▸ h.congr rfl rfl (.refl _) (fun _ _ _ _ => Iff.rfl) h.shape

/-- **One step**: from a faithful state a step stays faithful exactly when it is prompt. -/
theorem faithful_step_iff {l : SchedulerLabel Ch Ex} {s s' : Scheduler Ch Ex} (h : Inv s)
    (hf : Faithful s) (hs : step l s = some s') : Faithful s' ↔ Prompt l s := by
  have hinv' := inv_step h hs
  rw [faithful_iff hinv']
  have hown := hf.own
  cases l with
  | epollWait now result =>
    refine ⟨fun _ => trivial, fun _ => ?_⟩
    cases hpc : s.pc <;> simp only [step, hpc, Option.some.injEq, reduceCtorEq] at hs
    cases result with
    | error code =>
      subst hs
      unfold epollWaitStep
      dsimp only
      split_ifs <;> exact hown
    | ok ready =>
      subst hs
      -- a new round adds entries and changes none
      intro c hc
      have hlt := h.round_lt (task_mem_occurrences hc)
      obtain ⟨hsome, heq⟩ := hown c hc
      exact ⟨hsome, heq.trans (entry_append hlt _).symm⟩
  | next =>
    refine ⟨fun _ => trivial, fun _ => ?_⟩
    simp only [step] at hs
    unfold nextStep at hs
    cases hpc : s.pc with
    | process i =>
      simp only [hpc, Option.some.injEq] at hs
      have hrounds : s'.rounds = s.rounds := by
        cases hc : s.results_.channels[i]? with
        | none => simp only [← hs, processStep, hc]
        | some c => rw [← hs, (processStep_spec hc).2.2.2.1]
      rw [hrounds, ← hs]
      exact own_processStep h hpc hown
    | fillChannel ready =>
      cases ready <;> (simp only [hpc, Option.some.injEq] at hs; subst hs; exact hown)
    | wait => simp [hpc] at hs
    | exit => simp [hpc] at hs
    | clearEvents _ => simp only [hpc, Option.some.injEq] at hs; subst hs; exact hown
    | clearChannels _ => simp only [hpc, Option.some.injEq] at hs; subst hs; exact hown
    | fillEvent _ _ => simp only [hpc, Option.some.injEq] at hs; subst hs; exact hown
  | stop =>
    cases hpc : s.pc <;> simp only [step, hpc, Option.some.injEq, reduceCtorEq] at hs
    subst hs
    exact ⟨fun _ => trivial, fun _ => hown⟩
  | exec k =>
    cases hk : s.pending[k]? with
    | none => simp [step, hk] at hs
    | some et =>
      obtain ⟨e, t⟩ := et
      simp only [step, hk, Option.some.injEq] at hs
      have hmem : t ∈ s.processed := by
        apply h.conserved.subset
        simp only [occurrences, List.mem_append, List.mem_map]
        exact Or.inl (Or.inl (Or.inl ⟨(e, t), List.mem_of_getElem? hk, rfl⟩))
      have hprompt : Prompt (.exec k) s ↔ t.round = s.round := by
        simp only [Prompt, hk, Option.some.injEq, Prod.mk.injEq]
        exact ⟨fun hp => hp e t ⟨rfl, rfl⟩, by rintro hr e t ⟨rfl, rfl⟩; exact hr⟩
      rw [hprompt, ← hs]
      -- the closure reads what its round has left in `results_`, or a later one
      constructor
      · intro hall
        by_contra hround
        exact not_own_of_later hround (hall ⟨t, s.results_.handle s.round t.index⟩ (by simp))
      · intro hround c hc
        simp only [List.append_assoc, List.singleton_append, List.mem_append,
          List.mem_cons] at hc
        rcases hc with hc | rfl | hc
        · exact hown c (List.mem_append_left _ hc)
        · exact own_of_current h hmem hround
        · exact hown c (List.mem_append_right _ hc)
  | discard k =>
    cases hk : s.pending[k]? with
    | none => simp [step, hk] at hs
    | some et =>
      simp only [step, hk, Option.ite_none_right_eq_some, Option.some.injEq] at hs
      exact ⟨fun _ => trivial, fun _ => hs.2 ▸ hown⟩
  | cancel e =>
    simp only [step, Option.some.injEq] at hs
    exact ⟨fun _ => trivial, fun _ => hs ▸ hown⟩
  | setExecutor c e =>
    simp only [step, Option.some.injEq] at hs
    exact ⟨fun _ => trivial, fun _ => hs ▸ hown⟩

/-- **The runs that dispatch faithfully are the prompt ones**: all along a schedule every entry is
handed over exactly once and handled with its own channel, mask and timestamp if and only if every
closure runs before the scheduler thread begins to refill `results_`. -/
theorem faithful_iff_prompt (executor : Ch → Option Ex) (cancelled : Ex → Bool)
    (ls : List (SchedulerLabel Ch Ex)) :
    (scheduler Ch Ex).AllStates Faithful ls (start executor cancelled) ↔
      (scheduler Ch Ex).AllSteps Prompt ls (start executor cancelled) := by
  have hinv := inv_start executor cancelled
  refine System.allStates_iff_allSteps (fun l s t hs _ ht _ => inv_step hs ht)
    (fun l s t hs hf ht => faithful_step_iff hs hf ht) ls hinv ?_
  exact (faithful_iff hinv).mpr (by simp [start])

/-- One event is reported, its closure is queued, and `epoll_wait` returns again (after its
timeout, with nothing ready) before the executor gets to it: the closure indexes past the end. -/
def lateSchedule : List (SchedulerLabel Unit Unit) :=
  [.epollWait 0 (.ok [((), 1)]), .next, .next, .next, .next, .next, .next, .next,
    .epollWait 5000000 (.ok []), .next, .next, .next, .exec 0]

theorem lateSchedule_not_faithful :
    ∃ s, (scheduler Unit Unit).Reachable s ∧ ¬ Faithful s := by
  have hrun : (scheduler Unit Unit).run lateSchedule (start (fun _ => some ()) fun _ => false)
      = some
        { pc := .wait
          results_ := ⟨5000000, [], []⟩
          executor := fun _ => some ()
          cancelled := fun _ => false
          pending := []
          rounds := [⟨0, [((), 1)]⟩, ⟨5000000, []⟩]
          processed := [⟨0, 0⟩]
          calls := [⟨⟨0, 0⟩, none⟩]
          inlined := []
          discarded := [] } := rfl
  refine ⟨_, System.reachable_of_run ⟨_, _, rfl⟩ hrun, fun hf => ?_⟩
  have := (hf.own ⟨⟨0, 0⟩, none⟩ (by simp)).1
  simp at this

end Lizlib.Scheduler
