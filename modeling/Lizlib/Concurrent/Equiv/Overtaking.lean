import Mathlib.Data.Fintype.Card
import Lizlib.Concurrent.Equiv.ThreadPool

/-!
# The order in which jobs are started

The queue is popped from the front, but a worker may be held up between the pop and the call.  A job
is overtaken by later ones only while such a worker holds it, so at any time fewer jobs than there
are workers have been overtaken by a started one (`inTurn`).
-/

namespace Lizlib

/-- The job a worker has popped and not called yet. -/
def WorkerPc.held {E : Type*} : WorkerPc E → Option Nat
  | .call job => some job.id
  | .check | .pop | .running _ | .wait | .asleep | .exited => none

namespace ThreadPool

open Function (update)

variable {W E : Type*}

/-- The jobs enqueued before job `k` that have not been started. -/
def overtaken (s : ThreadPool W E) (k : Nat) : Finset Nat :=
  (Finset.range k).filter (· ∉ s.executed)

variable [DecidableEq W] [Fintype W]

/-- Jobs are started in their turn, up to what the workers hold. -/
structure InTurn (s : ThreadPool W E) : Prop where
  /-- No started job has overtaken one that is still queued. -/
  queued : ∀ k ∈ s.executed, ∀ job ∈ s.active_queue_, k < job.id
  /-- A started job has overtaken fewer jobs than there are workers. -/
  bounded : ∀ k ∈ s.executed, (s.overtaken k).card < Fintype.card W
  /-- A single worker starts the jobs in the order of `enqueueTask`. -/
  single : Fintype.card W = 1 → s.executed = List.range s.executed.length

section Books

variable {s : ThreadPool W E}

omit [DecidableEq W] [Fintype W] in
/-- The jobs are popped from the first on. -/
theorem Books.popped_eq (hs : Books s) : s.popped = List.range s.popped.length := by
  have hinit : s.popped <+: List.range s.enqueued := by
    rw [← hs.order, List.append_assoc]
    exact List.prefix_append _ _
  have htake := List.prefix_iff_eq_take.mp hinit
  have hle : s.popped.length ≤ s.enqueued := by simpa using hinit.length_le
  rw [List.take_range, Nat.min_eq_left hle] at htake
  exact htake

omit [DecidableEq W] [Fintype W] in
theorem Books.popped_of_lt (hs : Books s) {i k : Nat} (hk : k ∈ s.popped) (hi : i < k) :
    i ∈ s.popped := by
  rw [hs.popped_eq, List.mem_range] at hk ⊢
  omega

omit [DecidableEq W] [Fintype W] in
/-- What is queued comes after what has been popped. -/
theorem Books.lt_of_queued (hs : Books s) {k : Nat} {job : Job E} (hk : k ∈ s.popped)
    (hjob : job ∈ s.active_queue_) : k < job.id := by
  have hsorted : (s.popped ++ s.discarded ++ s.active_queue_.map Job.id).Pairwise (· < ·) :=
    hs.order ▸ List.pairwise_lt_range
  rw [List.pairwise_append] at hsorted
  exact hsorted.2.2 k (List.mem_append_left _ hk) job.id (List.mem_map_of_mem hjob)

omit [DecidableEq W] [Fintype W] in
/-- A job that has been popped and not started is in the hands of a worker. -/
theorem Books.held_of_popped (hs : Books s) {i : Nat} (hi : i ∈ s.popped) (hnot : i ∉ s.executed) :
    ∃ w, (s.worker w).held = some i := by
  obtain ⟨w, job, hw, rfl⟩ := (hs.settled i hi).resolve_left hnot
  refine ⟨w, ?_⟩
  rw [hw]
  rfl

/-- When a worker calls its job, the earlier ones not started are held by the other workers. -/
theorem Books.card_overtaken_call (hs : Books s) {w : W} {job : Job E} (hw : s.worker w = .call job) :
    (s.overtaken job.id).card < Fintype.card W := by
  have hheld : s.overtaken job.id ⊆
      (Finset.univ.erase w).image fun v => (s.worker v).held.getD 0 := by
    intro i hi
    obtain ⟨hlt, hnot⟩ := Finset.mem_filter.mp hi
    rw [Finset.mem_range] at hlt
    obtain ⟨v, hv⟩ := hs.held_of_popped (hs.popped_of_lt (hs.held w job hw).1 hlt) hnot
    have hne : v ≠ w := by
      rintro rfl
      rw [hw] at hv
      have hid : job.id = i := Option.some.inj hv
      omega
    refine Finset.mem_image.mpr ⟨v, Finset.mem_erase.mpr ⟨hne, Finset.mem_univ v⟩, ?_⟩
    rw [hv, Option.getD_some]
  calc (s.overtaken job.id).card
      ≤ ((Finset.univ.erase w).image fun v => (s.worker v).held.getD 0).card :=
        Finset.card_le_card hheld
    _ ≤ (Finset.univ.erase w).card := Finset.card_image_le
    _ < Fintype.card W := Finset.card_erase_lt_of_mem (Finset.mem_univ w)

end Books

/-! ### The invariant -/

section InTurn

variable {s t : ThreadPool W E}

omit [DecidableEq W] [Fintype W] in
/-- Starting jobs overtakes none that was started before. -/
theorem card_overtaken_mono (hexecuted : ∀ i ∈ s.executed, i ∈ t.executed) (k : Nat) :
    (t.overtaken k).card ≤ (s.overtaken k).card := by
  apply Finset.card_le_card
  intro i hi
  obtain ⟨hlt, hnot⟩ := Finset.mem_filter.mp hi
  exact Finset.mem_filter.mpr ⟨hlt, fun hmem => hnot (hexecuted i hmem)⟩

omit [DecidableEq W] in
/-- Steps that start no job. -/
theorem InTurn.of_executed (hs : InTurn s) (ht : Books t) (h : t.executed = s.executed) :
    InTurn t where
  queued k hk job hjob := ht.lt_of_queued (ht.popped k hk) hjob
  bounded k hk := by
    rw [h] at hk
    exact (card_overtaken_mono (fun i hi => h ▸ hi) k).trans_lt (hs.bounded k hk)
  single hone := by
    rw [h]
    exact hs.single hone

/-- **The call**: the job overtakes what the other workers hold; if there are none, it is the next. -/
theorem InTurn.call (hs : InTurn s) (hbooks : Books s) {w : W} {job : Job E}
    (hw : s.worker w = .call job)
    (ht : Books { s with
      worker := update s.worker w (.running job), executed := s.executed ++ [job.id] }) :
    InTurn { s with
      worker := update s.worker w (.running job), executed := s.executed ++ [job.id] } := by
  have hgrow : ∀ i ∈ s.executed, i ∈ s.executed ++ [job.id] := fun i => List.mem_append_left _
  refine ⟨fun k hk k' hk' => ht.lt_of_queued (ht.popped k hk) hk', fun k hk => ?_, fun hone => ?_⟩
  · refine (card_overtaken_mono (s := s) hgrow k).trans_lt ?_
    rcases List.mem_append.mp hk with hk | hk
    · exact hs.bounded k hk
    · rw [List.mem_singleton.mp hk]
      exact hbooks.card_overtaken_call hw
  · have hinit := hs.single hone
    have hbefore : ∀ i ∈ s.executed, i < s.executed.length := by
      intro i hi
      rw [hinit] at hi
      exact List.mem_range.mp hi
    have hnew : s.executed.length ≤ job.id := by
      have hnot := (hbooks.held w job hw).2
      rw [hinit, List.mem_range] at hnot
      omega
    have hnone := hbooks.card_overtaken_call hw
    rw [hone, Nat.lt_one_iff, Finset.card_eq_zero] at hnone
    have hnext : job.id ≤ s.executed.length := by
      by_contra hlt
      have hmem : s.executed.length ∈ s.overtaken job.id := by
        refine Finset.mem_filter.mpr ⟨Finset.mem_range.mpr (by omega), fun hmem => ?_⟩
        exact absurd (hbefore _ hmem) (Nat.lt_irrefl _)
      rw [hnone] at hmem
      exact absurd hmem (Finset.notMem_empty _)
    show s.executed ++ [job.id] = List.range (s.executed ++ [job.id]).length
    rw [List.length_append, List.length_singleton, List.range_succ, ← hinit,
      Nat.le_antisymm hnext hnew]

theorem inTurn_step {l : PoolLabel W E} (hbooks : Books s) (hs : InTurn s)
    (h : ThreadPool.step l s = some t) : InTurn t := by
  have ht := books_step hbooks h
  cases l with
  | submit runnable =>
    obtain rfl := Option.some.inj h
    exact hs.of_executed ht rfl
  | worker w =>
    cases workerMoves_of_step h with
    | call hw => exact hs.call hbooks hw ht
    | _ => exact hs.of_executed ht rfl
  | spurious w =>
    simp only [ThreadPool.step] at h
    split at h
    · obtain rfl := Option.some.inj h
      exact hs.of_executed ht rfl
    · cases h
  | callJoin =>
    simp only [ThreadPool.step] at h
    split at h
    · obtain rfl := Option.some.inj h
      exact hs.of_executed ht rfl
    · obtain rfl := Option.some.inj h
      exact hs
    · cases h
  | join => cases joinMoves_of_step h <;> exact hs.of_executed ht rfl

omit [DecidableEq W] in
theorem inTurn_start : InTurn (start : ThreadPool W E) where
  queued := by simp [start]
  bounded := by simp [start]
  single _ := rfl

end InTurn

/-- **Bounded overtaking**: whatever the workers, the submitters and `Join` do, a started job has
overtaken fewer jobs than there are workers, and none that is still queued; with one worker the jobs
start in the order of their submission. -/
theorem inTurn (ls : List (PoolLabel W E)) :
    (threadPool W E).AllStates InTurn ls start :=
  System.allStates_of_invariant (I := fun s => Books s ∧ InTurn s)
    (fun _ _ _ hs ht => ⟨books_step hs.1 ht, inTurn_step hs.1 hs.2 ht⟩)
    (fun _ hs => hs.2) ls ⟨books_start, inTurn_start⟩

end ThreadPool

end Lizlib
