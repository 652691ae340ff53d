import Mathlib.Logic.Relation
import Mathlib.Data.List.Basic

/-!
# Labelled transition systems

A `System σ ℓ` has initial states and, for every label, a partial step function on states: the
label names which thread moves and what the environment answers, so a schedule is a list of labels
and `System.run` executes it.

* `Reach S G`: the states reached by runs all of whose steps satisfy the guard `G`; `Reachable S`
  is the unguarded case.  `Reach.invariant` is the one induction over runs.
* `AllStates P`, `AllSteps G` and `SomeStep G` look along one schedule; `allStates_iff_allSteps` and
  `allSteps_iff_allSteps` turn a guard that is exact for one step into one that is exact for whole
  runs.
* `Leads A P s`: some schedule of labels in `A` leads from `s` to `P`; `not_leads` excludes it.
* `Simulation S T` relates every step of `S` to at most one step of `T`
  (`Simulation.reachable`), and so every schedule to its `trace` (`Simulation.run_trace`).
-/

universe u v w

/-- A labelled transition system with a deterministic step for each label. -/
structure System (σ : Type u) (ℓ : Type v) where
  /-- The states a run may start in. -/
  init : σ → Prop
  /-- The step a label takes, `none` where it is not enabled. -/
  step : ℓ → σ → Option σ

namespace System

variable {σ : Type u} {ℓ : Type v} (S : System σ ℓ)

/-- Executes a schedule; `none` as soon as a label is not enabled. -/
def run : List ℓ → σ → Option σ
  | [], s => some s
  | l :: ls, s => (S.step l s).bind (run ls)

@[simp] theorem run_nil (s : σ) : S.run [] s = some s := rfl

theorem run_cons (l : ℓ) (ls : List ℓ) (s : σ) :
    S.run (l :: ls) s = (S.step l s).bind (S.run ls) := rfl

theorem run_cons_of_step {l : ℓ} {ls : List ℓ} {s t : σ} (h : S.step l s = some t) :
    S.run (l :: ls) s = S.run ls t := by
  rw [run_cons, h, Option.bind_some]

theorem run_append (ls ls' : List ℓ) (s : σ) :
    S.run (ls ++ ls') s = (S.run ls s).bind (S.run ls') := by
  induction ls generalizing s with
  | nil => rfl
  | cons l ls ih =>
    rw [List.cons_append, run_cons, run_cons]
    cases S.step l s with
    | none => rfl
    | some t => exact ih t

/-! ### Reachable states -/

/-- The states reached by runs in which every step satisfies the guard `G`. -/
inductive Reach (G : ℓ → σ → Prop) : σ → Prop
  | init {s : σ} (h : S.init s) : Reach G s
  | step {s t : σ} {l : ℓ} (hs : Reach G s) (hg : G l s) (ht : S.step l s = some t) : Reach G t

/-- The states reached by arbitrary runs. -/
abbrev Reachable : σ → Prop := S.Reach fun _ _ => True

variable {S}

/-- **Invariant rule**: what holds initially and is preserved by every guarded step holds in every
state reached by guarded steps. -/
theorem Reach.invariant {G : ℓ → σ → Prop} {I : σ → Prop} (h0 : ∀ s, S.init s → I s)
    (hstep : ∀ l s t, I s → G l s → S.step l s = some t → I t) {s : σ} (h : S.Reach G s) :
    I s := by
  induction h with
  | init hi => exact h0 _ hi
  | step _ hg ht ih => exact hstep _ _ _ ih hg ht

theorem Reach.run {s t : σ} (hs : S.Reachable s) {ls : List ℓ} (h : S.run ls s = some t) :
    S.Reachable t := by
  induction ls generalizing s with
  | nil =>
    rw [run_nil, Option.some.injEq] at h
    exact h ▸ hs
  | cons l ls ih =>
    obtain ⟨u, hu, hls⟩ := Option.bind_eq_some_iff.mp h
    exact ih (.step hs trivial hu) hls

/-- The state a schedule leads to from an initial state is reachable. -/
theorem reachable_of_run {s t : σ} {ls : List ℓ} (h0 : S.init s) (h : S.run ls s = some t) :
    S.Reachable t :=
  Reach.run (.init h0) h

/-! ### Properties along one schedule -/

variable (S)

/-- `P` holds in every state the schedule passes through, the first and the last included. -/
def AllStates (P : σ → Prop) : List ℓ → σ → Prop
  | [], s => P s
  | l :: ls, s => P s ∧ ∀ t, S.step l s = some t → AllStates P ls t

/-- Every step the schedule takes satisfies the guard `G`. -/
def AllSteps (G : ℓ → σ → Prop) : List ℓ → σ → Prop
  | [], _ => True
  | l :: ls, s => ∀ t, S.step l s = some t → G l s ∧ AllSteps G ls t

/-- Some step the schedule takes satisfies `G`. -/
def SomeStep (G : ℓ → σ → Prop) : List ℓ → σ → Prop
  | [], _ => False
  | l :: ls, s => ∃ t, S.step l s = some t ∧ (G l s ∨ SomeStep G ls t)

variable {S}

theorem someStep_cons {G : ℓ → σ → Prop} {l : ℓ} {ls : List ℓ} {s t : σ} (h : S.step l s = some t) :
    S.SomeStep G (l :: ls) s ↔ G l s ∨ S.SomeStep G ls t := by
  constructor
  · rintro ⟨u, hu, hsome⟩
    obtain rfl := Option.some.inj (h.symm.trans hu)
    exact hsome
  · exact fun hsome => ⟨t, h, hsome⟩

/-- An invariant of the steps in `A` excludes `G`. -/
theorem not_someStep {A : ℓ → Prop} {I : σ → Prop} {G : ℓ → σ → Prop}
    (hI : ∀ l s t, I s → A l → S.step l s = some t → I t) (hG : ∀ l s, I s → ¬ G l s)
    {ls : List ℓ} (hls : ∀ l ∈ ls, A l) {s : σ} (hs : I s) : ¬ S.SomeStep G ls s := by
  induction ls generalizing s with
  | nil => exact id
  | cons l ls ih =>
    rintro ⟨t, ht, hsome⟩
    apply hsome.elim (hG l s hs)
    exact ih (fun m hm => hls m (List.mem_cons_of_mem l hm))
      (hI l s t hs (hls l List.mem_cons_self) ht)

theorem AllStates.head {P : σ → Prop} {ls : List ℓ} {s : σ} (h : S.AllStates P ls s) : P s := by
  cases ls with
  | nil => exact h
  | cons l ls => exact h.1

theorem AllStates.last {P : σ → Prop} {ls : List ℓ} {s t : σ} (h : S.AllStates P ls s)
    (ht : S.run ls s = some t) : P t := by
  induction ls generalizing s with
  | nil =>
    rw [run_nil, Option.some.injEq] at ht
    exact ht ▸ h
  | cons l ls ih =>
    obtain ⟨u, hu, hls⟩ := Option.bind_eq_some_iff.mp ht
    exact ih (h.2 u hu) hls

/-- What an invariant implies holds all along every schedule. -/
theorem allStates_of_invariant {I P : σ → Prop}
    (hI : ∀ l s t, I s → S.step l s = some t → I t) (hP : ∀ s, I s → P s) (ls : List ℓ) {s : σ}
    (hs : I s) : S.AllStates P ls s := by
  induction ls generalizing s with
  | nil => exact hP s hs
  | cons l ls ih => exact ⟨hP s hs, fun t ht => ih (hI l s t hs ht)⟩

/-- What an invariant implies for every step holds all along every schedule. -/
theorem allSteps_of_invariant {I : σ → Prop} {G : ℓ → σ → Prop}
    (hI : ∀ l s t, I s → S.step l s = some t → I t)
    (hG : ∀ l s t, I s → S.step l s = some t → G l s) (ls : List ℓ) {s : σ} (hs : I s) :
    S.AllSteps G ls s := by
  induction ls generalizing s with
  | nil => exact trivial
  | cons l ls ih => exact fun t ht => ⟨hG l s t hs ht, ih (hI l s t hs ht)⟩

/-- A step that satisfies the guard is put before a schedule. -/
theorem AllSteps.cons {G : ℓ → σ → Prop} {l : ℓ} {ls : List ℓ} {s t : σ} (h : S.step l s = some t)
    (hg : G l s) (ht : S.AllSteps G ls t) : S.AllSteps G (l :: ls) s := by
  intro u hu
  obtain rfl := Option.some.inj (h.symm.trans hu)
  exact ⟨hg, ht⟩

/-- Under an invariant of the steps that satisfy the guard `G`, these satisfy `H` too. -/
theorem AllSteps.imp {I : σ → Prop} {G H : ℓ → σ → Prop}
    (hI : ∀ l s t, I s → G l s → S.step l s = some t → I t)
    (hH : ∀ l s t, I s → G l s → S.step l s = some t → H l s) {ls : List ℓ} {s : σ}
    (h : S.AllSteps G ls s) (hs : I s) : S.AllSteps H ls s := by
  induction ls generalizing s with
  | nil => exact trivial
  | cons l ls ih =>
    intro t ht
    obtain ⟨hg, hrest⟩ := h t ht
    exact ⟨hH l s t hs hg ht, ih hrest (hI l s t hs hg ht)⟩

/-- A guard that looks at the label only. -/
theorem AllSteps.of_labels {G : ℓ → Prop} {ls : List ℓ} (h : ∀ l ∈ ls, G l) (s : σ) :
    S.AllSteps (fun l _ => G l) ls s := by
  induction ls generalizing s with
  | nil => exact trivial
  | cons l ls ih =>
    intro t _
    exact ⟨h l List.mem_cons_self, ih (fun m hm => h m (List.mem_cons_of_mem l hm)) t⟩

/-- What guarded steps preserve holds all along a schedule whose steps all satisfy the guard. -/
theorem AllSteps.allStates {I P : σ → Prop} {G : ℓ → σ → Prop}
    (hI : ∀ l s t, I s → G l s → S.step l s = some t → I t) (hP : ∀ s, I s → P s) {ls : List ℓ}
    {s : σ} (h : S.AllSteps G ls s) (hs : I s) : S.AllStates P ls s := by
  induction ls generalizing s with
  | nil => exact hP s hs
  | cons l ls ih =>
    refine ⟨hP s hs, fun t ht => ?_⟩
    obtain ⟨hg, hrest⟩ := h t ht
    exact ih hrest (hI l s t hs hg ht)

/-- A schedule whose steps all satisfy the guard leads from guarded states to guarded ones. -/
theorem AllSteps.reach {G : ℓ → σ → Prop} {ls : List ℓ} {s t : σ} (h : S.AllSteps G ls s)
    (hs : S.Reach G s) (ht : S.run ls s = some t) : S.Reach G t := by
  induction ls generalizing s with
  | nil =>
    rw [run_nil, Option.some.injEq] at ht
    exact ht ▸ hs
  | cons l ls ih =>
    obtain ⟨u, hu, hls⟩ := Option.bind_eq_some_iff.mp ht
    obtain ⟨hg, hrest⟩ := h u hu
    exact ih hrest (.step hs hg hu) hls

instance AllStates.instDecidable (P : σ → Prop) [DecidablePred P] :
    ∀ ls s, Decidable (S.AllStates P ls s)
  | [], s => inferInstanceAs (Decidable (P s))
  | l :: ls, s =>
    match h : S.step l s with
    | none => decidable_of_iff (P s) (by simp [AllStates, h])
    | some t =>
      have := instDecidable P ls t
      decidable_of_iff (P s ∧ S.AllStates P ls t) (by simp [AllStates, h])

instance AllSteps.instDecidable (G : ℓ → σ → Prop) [∀ l s, Decidable (G l s)] :
    ∀ ls s, Decidable (S.AllSteps G ls s)
  | [], _ => isTrue trivial
  | l :: ls, s =>
    match h : S.step l s with
    | none => isTrue fun t ht => by simp [h] at ht
    | some t =>
      have := instDecidable G ls t
      decidable_of_iff (G l s ∧ S.AllSteps G ls t) (by simp [AllSteps, h])

/-- What every step preserves, under an invariant, holds at the end of a run. -/
theorem persists {I F : σ → Prop} (hI : ∀ l s t, I s → S.step l s = some t → I t)
    (hF : ∀ l s t, I s → F s → S.step l s = some t → F t) {ls : List ℓ} {s t : σ} (hIs : I s)
    (hFs : F s) (h : S.run ls s = some t) : F t := by
  induction ls generalizing s with
  | nil =>
    obtain rfl := Option.some.inj h
    exact hFs
  | cons l ls ih =>
    obtain ⟨u, hu, hls⟩ := Option.bind_eq_some_iff.mp h
    exact ih (hI l s u hIs hu) (hF l s u hIs hFs hu) hls

/-- **Exact guards**: if, from a state satisfying `P` and the invariant `I` that `P` maintains, a step
leads to a state satisfying `P` exactly when it satisfies the guard `G`, then `P` holds all along a
schedule exactly when all its steps satisfy `G`. -/
theorem allStates_iff_allSteps {I P : σ → Prop} {G : ℓ → σ → Prop}
    (hI : ∀ l s t, I s → P s → S.step l s = some t → P t → I t)
    (hP : ∀ l s t, I s → P s → S.step l s = some t → (P t ↔ G l s))
    (ls : List ℓ) {s : σ} (hIs : I s) (hPs : P s) :
    S.AllStates P ls s ↔ S.AllSteps G ls s := by
  induction ls generalizing s with
  | nil => exact ⟨fun _ => trivial, fun _ => hPs⟩
  | cons l ls ih =>
    constructor
    · rintro ⟨-, h⟩ t ht
      have hrest := h t ht
      have hPt := hrest.head
      exact ⟨(hP l s t hIs hPs ht).mp hPt, (ih (hI l s t hIs hPs ht hPt) hPt).mp hrest⟩
    · intro h
      refine ⟨hPs, fun t ht => ?_⟩
      obtain ⟨hg, hrest⟩ := h t ht
      have hPt := (hP l s t hIs hPs ht).mpr hg
      exact (ih (hI l s t hIs hPs ht hPt) hPt).mpr hrest

/-- Two guards that agree on the steps from the states an invariant allows agree on whole
schedules, if one of them maintains the invariant. -/
theorem allSteps_iff_allSteps {I : σ → Prop} {F G : ℓ → σ → Prop}
    (hI : ∀ l s t, I s → G l s → S.step l s = some t → I t)
    (hFG : ∀ l s t, I s → S.step l s = some t → (F l s ↔ G l s)) (ls : List ℓ) {s : σ}
    (hs : I s) : S.AllSteps F ls s ↔ S.AllSteps G ls s := by
  induction ls generalizing s with
  | nil => exact Iff.rfl
  | cons l ls ih =>
    refine forall_congr' fun t => forall_congr' fun ht => ?_
    rw [hFG l s t hs ht]
    exact and_congr_right fun hg => ih (hI l s t hs hg ht)

/-- **Irreparable faults**: if a fault stays, and a step from a state without it leads to it exactly
when it violates the guard `G`, then a run ends without the fault exactly when all its steps satisfy
`G`. -/
theorem not_fault_iff_allSteps {I F : σ → Prop} {G : ℓ → σ → Prop}
    (hI : ∀ l s t, I s → S.step l s = some t → I t)
    (hF : ∀ l s t, I s → F s → S.step l s = some t → F t)
    (hG : ∀ l s t, I s → ¬ F s → S.step l s = some t → (F t ↔ ¬ G l s)) {ls : List ℓ} {s t : σ}
    (hIs : I s) (hFs : ¬ F s) (h : S.run ls s = some t) : ¬ F t ↔ S.AllSteps G ls s := by
  induction ls generalizing s with
  | nil =>
    obtain rfl := Option.some.inj h
    exact iff_of_true hFs trivial
  | cons l ls ih =>
    obtain ⟨u, hu, hls⟩ := Option.bind_eq_some_iff.mp h
    have hIu := hI l s u hIs hu
    by_cases hg : G l s
    · have hFu : ¬ F u := fun hf => (hG l s u hIs hFs hu).mp hf hg
      rw [ih hIu hFu hls]
      constructor
      · intro hall v hv
        obtain rfl := Option.some.inj (hu.symm.trans hv)
        exact ⟨hg, hall⟩
      · exact fun hall => (hall u hu).2
    · have hFu : F u := (hG l s u hIs hFs hu).mpr hg
      refine iff_of_false (fun hft => hft ?_) fun hall => hg (hall u hu).1
      exact persists hI hF hIu hFu hls

/-! ### What may still happen -/

variable (S)

/-- Some schedule of labels in `A` leads from `s` to a state satisfying `P`. -/
def Leads (A : ℓ → Prop) (P : σ → Prop) (s : σ) : Prop :=
  ∃ ls t, (∀ l ∈ ls, A l) ∧ S.run ls s = some t ∧ P t

variable {S}

theorem Leads.here {A : ℓ → Prop} {P : σ → Prop} {s : σ} (h : P s) : S.Leads A P s :=
  ⟨[], s, by simp, rfl, h⟩

theorem Leads.step {A : ℓ → Prop} {P : σ → Prop} {l : ℓ} {s t : σ} (h : S.step l s = some t)
    (hl : A l) (ht : S.Leads A P t) : S.Leads A P s := by
  obtain ⟨ls, u, hls, hu, hP⟩ := ht
  refine ⟨l :: ls, u, ?_, (S.run_cons_of_step h).trans hu, hP⟩
  simpa using ⟨hl, hls⟩

theorem Leads.mono {A : ℓ → Prop} {P Q : σ → Prop} {s : σ} (h : S.Leads A P s)
    (hPQ : ∀ t, P t → Q t) : S.Leads A Q s := by
  obtain ⟨ls, t, hls, ht, hP⟩ := h
  exact ⟨ls, t, hls, ht, hPQ t hP⟩

theorem Leads.trans {A : ℓ → Prop} {P Q : σ → Prop} {s : σ} (h : S.Leads A P s)
    (hQ : ∀ t, P t → S.Leads A Q t) : S.Leads A Q s := by
  obtain ⟨ls, t, hls, ht, hP⟩ := h
  induction ls generalizing s with
  | nil =>
    obtain rfl := Option.some.inj ht
    exact hQ s hP
  | cons l ls ih =>
    obtain ⟨u, hu, hrun⟩ := Option.bind_eq_some_iff.mp ht
    exact .step hu (hls l List.mem_cons_self)
      (ih (fun m hm => hls m (List.mem_cons_of_mem l hm)) hrun)

/-- **Progress rule**: as long as `P` does not hold, some step in `A` keeps the invariant and lowers
the rank. -/
theorem leads_of_rank {A : ℓ → Prop} {P I : σ → Prop} (rank : σ → Nat)
    (h : ∀ s, I s → P s ∨ ∃ l t, A l ∧ S.step l s = some t ∧ I t ∧ rank t < rank s) {s : σ}
    (hs : I s) : S.Leads A P s := by
  induction hn : rank s using Nat.strongRecOn generalizing s with
  | _ n ih =>
    rcases h s hs with hP | ⟨l, t, hl, ht, hI, hlt⟩
    · exact .here hP
    · exact .step ht hl (ih (rank t) (hn ▸ hlt) hI rfl)

/-- An invariant of the steps in `A` that excludes `P`. -/
theorem not_leads {A : ℓ → Prop} {P I : σ → Prop}
    (hI : ∀ l s t, I s → A l → S.step l s = some t → I t) (hP : ∀ s, I s → ¬ P s) {s : σ}
    (hs : I s) : ¬ S.Leads A P s := by
  rintro ⟨ls, t, hls, ht, hPt⟩
  induction ls generalizing s with
  | nil =>
    obtain rfl := Option.some.inj ht
    exact hP s hs hPt
  | cons l ls ih =>
    obtain ⟨u, hu, hrun⟩ := Option.bind_eq_some_iff.mp ht
    exact ih (hI l s u hs (hls l List.mem_cons_self) hu)
      (fun m hm => hls m (List.mem_cons_of_mem l hm)) hrun

end System

/-! ### Simulations -/

/-- A forward simulation of `S` by `T`: under the invariant `inv`, every step of `S` is matched by
the step `obs` of `T` on the abstracted states, or by no step at all. -/
structure Simulation {σ : Type u} {ℓ : Type v} {τ : Type w} {m : Type*} (S : System σ ℓ)
    (T : System τ m) where
  /-- The invariant of `S` under which its steps are matched. -/
  inv : σ → Prop
  /-- The abstract state a concrete one stands for. -/
  abs : σ → τ
  /-- The abstract label of a concrete step, `none` for an internal one. -/
  obs : ℓ → σ → Option m
  inv_init : ∀ s, S.init s → inv s
  inv_step : ∀ l s t, inv s → S.step l s = some t → inv t
  abs_init : ∀ s, S.init s → T.init (abs s)
  abs_step : ∀ l s t, inv s → S.step l s = some t →
    match obs l s with
    | none => abs t = abs s
    | some l' => T.step l' (abs s) = some (abs t)

namespace Simulation

variable {σ : Type u} {ℓ : Type v} {τ : Type w} {m : Type*} {S : System σ ℓ} {T : System τ m}
  (sim : Simulation S T)

theorem inv_of_reachable {s : σ} (h : S.Reachable s) : sim.inv s :=
  h.invariant sim.inv_init fun l s t hs _ ht => sim.inv_step l s t hs ht

/-- Every reachable state of `S` abstracts to a reachable state of `T`. -/
theorem reachable {s : σ} (h : S.Reachable s) : T.Reachable (sim.abs s) := by
  induction h with
  | init hi => exact .init (sim.abs_init _ hi)
  | @step s t l hs _ ht ih =>
    have hmatch := sim.abs_step l s t (sim.inv_of_reachable hs) ht
    cases hobs : sim.obs l s with
    | none =>
      rw [hobs] at hmatch
      rw [hmatch]
      exact ih
    | some l' =>
      rw [hobs] at hmatch
      exact .step ih trivial hmatch

/-- The abstract labels of a schedule. -/
def trace : List ℓ → σ → List m
  | [], _ => []
  | l :: ls, s => (sim.obs l s).toList ++ ((S.step l s).map (trace ls)).getD []

theorem trace_cons {l : ℓ} {s t : σ} (h : S.step l s = some t) (ls : List ℓ) :
    sim.trace (l :: ls) s = (sim.obs l s).toList ++ sim.trace ls t := by
  rw [trace, h, Option.map_some, Option.getD_some]

/-- **Runs are matched by runs**: the abstract labels of a schedule of `S` are a schedule of `T`. -/
theorem run_trace {ls : List ℓ} {s t : σ} (hs : sim.inv s) (h : S.run ls s = some t) :
    T.run (sim.trace ls s) (sim.abs s) = some (sim.abs t) := by
  induction ls generalizing s with
  | nil =>
    obtain rfl := Option.some.inj h
    rfl
  | cons l ls ih =>
    obtain ⟨u, hu, hls⟩ := Option.bind_eq_some_iff.mp h
    have hrest := ih (sim.inv_step l s u hs hu) hls
    have hmatch := sim.abs_step l s u hs hu
    rw [sim.trace_cons hu]
    cases hobs : sim.obs l s with
    | none =>
      rw [hobs] at hmatch
      show T.run (sim.trace ls u) (sim.abs s) = some (sim.abs t)
      rw [← hmatch]
      exact hrest
    | some l' =>
      rw [hobs] at hmatch
      show T.run (l' :: sim.trace ls u) (sim.abs s) = some (sim.abs t)
      rw [T.run_cons_of_step hmatch]
      exact hrest

end Simulation
