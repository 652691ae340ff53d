import Lizlib.Data.Tickets
import Lizlib.Concurrent.BlockableBarrier

/-!
# When the barrier releases whole generations

`waiting_` is right in every run: it counts the arrivals modulo `total_`, and `notify_all` is only
called when a generation is complete (`Counted`).  But `await` believes every wake-up of `cv_->wait`:
`whole_iff_late`: only whole generations are released exactly as long as no call that has been woken
without a notification gets the mutex back before its generation is complete.
-/

namespace Lizlib

/-- Inside the critical section. -/
def BarrierPc.holds : BarrierPc → Bool
  | .arrive | .wait | .reset | .notify | .leave => true
  | _ => false

/-- In a call that has arrived. -/
def BarrierPc.arrived : BarrierPc → Bool
  | .idle | .lock | .arrive => false
  | _ => true

/-- In the last call of a generation, after its arrival. -/
def BarrierPc.last : BarrierPc → Bool
  | .reset | .notify | .leave => true
  | _ => false

namespace BlockableBarrier

open Function (update update_self update_of_ne forall_update_iff)

variable {T : Type*}

/-- All calls of the generation of call `k` have arrived. -/
def Complete (s : BlockableBarrier T) (k : Nat) : Prop :=
  s.total_ * (k / s.total_ + 1) ≤ s.arrivals

/-- Whole generations only have been released. -/
structure WholeGenerations (s : BlockableBarrier T) : Prop where
  count : s.returned.length ≤ s.total_ * (s.arrivals / s.total_)
  complete : ∀ k ∈ s.returned, Complete s k

/-- A call that has been woken without a notification gets the mutex back when all calls of its
generation have arrived. -/
def Late (l : BarrierLabel T) (s : BlockableBarrier T) : Prop :=
  match l with
  | .next t => s.pc t = .relock false → Complete s (s.ticket t)
  | _ => True

instance (s : BlockableBarrier T) (k : Nat) : Decidable (Complete s k) :=
  inferInstanceAs (Decidable (_ ≤ _))

instance (l : BarrierLabel T) (s : BlockableBarrier T) : Decidable (Late l s) :=
  match l with
  | .next _ => inferInstanceAs (Decidable (_ → _))
  | .await _ | .spurious _ => inferInstanceAs (Decidable True)

/-- What holds in all states: the tickets and the mutex; `waiting_` counts the arrivals since the last
generation was complete; the last call of a generation finds it complete, and so do the calls that
have been notified. -/
structure Counted (s : BlockableBarrier T) : Prop where
  pos : 0 < s.total_
  held : HeldBy (fun t => (s.pc t).holds = true) s.mu_
  tickets : Tickets (fun t => (s.pc t).arrived = true) s.ticket s.arrivals s.returned
  waiting : (∀ t, s.pc t ≠ .reset) → s.waiting_ = s.arrivals % s.total_
  last : ∀ t, (s.pc t).last = true → s.arrivals % s.total_ = 0
  notified : ∀ t, s.pc t = .relock true → Complete s (s.ticket t)

/-! ### Generations -/

variable {s u : BlockableBarrier T} {t : T} {k : Nat}

/-- After a whole number of generations every call that has arrived belongs to a complete one. -/
theorem complete_of_mod_eq_zero (hk : k < s.arrivals) (hmod : s.arrivals % s.total_ = 0) :
    Complete s k := by
  obtain ⟨g, hg⟩ := Nat.dvd_of_mod_eq_zero hmod
  have hgen : k / s.total_ < g := Nat.div_lt_of_lt_mul (hg ▸ hk)
  show s.total_ * (k / s.total_ + 1) ≤ s.arrivals
  rw [hg]
  exact Nat.mul_le_mul_left _ hgen

theorem lt_of_complete (hpos : 0 < s.total_) (h : Complete s k) :
    k < s.total_ * (s.arrivals / s.total_) := by
  have hgen : k / s.total_ + 1 ≤ s.arrivals / s.total_ :=
    (Nat.le_div_iff_mul_le hpos).mpr (by rw [Nat.mul_comm]; exact h)
  calc k < s.total_ * (k / s.total_ + 1) := Nat.lt_mul_div_succ k hpos
    _ ≤ s.total_ * (s.arrivals / s.total_) := Nat.mul_le_mul_left _ hgen

/-- If all calls that have returned belong to complete generations, there are no more of them than
those have calls. -/
theorem Counted.whole (hs : s.Counted) (h : ∀ k ∈ s.returned, Complete s k) : s.WholeGenerations :=
  ⟨hs.tickets.length_le fun k hk => lt_of_complete hs.pos (h k hk), h⟩

/-! ### One step -/

theorem wakeAll_eq (pc : T → BarrierPc) (t : T) :
    (pc t = .asleep ∧ wakeAll pc t = .relock true) ∨ (pc t ≠ .asleep ∧ wakeAll pc t = pc t) := by
  unfold wakeAll
  split <;> simp_all

variable [DecidableEq T]

/-- One step from `s`, by its label. -/
inductive Moves (s : BlockableBarrier T) : BarrierLabel T → BlockableBarrier T → Prop
  | await {t : T} (h : s.pc t = .idle) :
      Moves s (.await t) { s with pc := update s.pc t .lock }
  | lock {t : T} (h : s.pc t = .lock) (hmu : s.mu_ = none) :
      Moves s (.next t) { s with mu_ := some t, pc := update s.pc t .arrive }
  | arrive {t : T} (h : s.pc t = .arrive) : Moves s (.next t) (s.arrive t)
  | sleep {t : T} (h : s.pc t = .wait) :
      Moves s (.next t) { s with mu_ := none, pc := update s.pc t .asleep }
  | relock {t : T} {notified : Bool} (h : s.pc t = .relock notified) (hmu : s.mu_ = none) :
      Moves s (.next t) (s.return_ t)
  | reset {t : T} (h : s.pc t = .reset) :
      Moves s (.next t) { s with waiting_ := 0, pc := update s.pc t .notify }
  | notify {t : T} (h : s.pc t = .notify) :
      Moves s (.next t) { s with pc := update (wakeAll s.pc) t .leave }
  | leave {t : T} (h : s.pc t = .leave) : Moves s (.next t) (s.return_ t)
  | spurious {t : T} (h : s.pc t = .asleep) :
      Moves s (.spurious t) { s with pc := update s.pc t (.relock false) }

/-- **Inversion of a step**. -/
theorem moves_of_step {l : BarrierLabel T} (h : step l s = some u) : Moves s l u := by
  cases l with
  | await t =>
    simp only [step, Option.ite_none_right_eq_some, Option.some.injEq] at h
    obtain ⟨ht, rfl⟩ := h
    exact .await ht
  | spurious t =>
    simp only [step, Option.ite_none_right_eq_some, Option.some.injEq] at h
    obtain ⟨ht, rfl⟩ := h
    exact .spurious ht
  | next t =>
    simp only [step, nextStep] at h
    cases ht : s.pc t with
    | idle | asleep => simp [ht] at h
    | lock =>
      simp only [ht, Option.ite_none_right_eq_some, Option.some.injEq] at h
      obtain ⟨hmu, rfl⟩ := h
      exact .lock ht hmu
    | relock notified =>
      simp only [ht, Option.ite_none_right_eq_some, Option.some.injEq] at h
      obtain ⟨hmu, rfl⟩ := h
      exact .relock ht hmu
    | arrive =>
      simp only [ht, Option.some.injEq] at h
      exact h ▸ .arrive ht
    | wait =>
      simp only [ht, Option.some.injEq] at h
      exact h ▸ .sleep ht
    | reset =>
      simp only [ht, Option.some.injEq] at h
      exact h ▸ .reset ht
    | notify =>
      simp only [ht, Option.some.injEq] at h
      exact h ▸ .notify ht
    | leave =>
      simp only [ht, Option.some.injEq] at h
      exact h ▸ .leave ht

/-! ### What holds in all states -/

omit [DecidableEq T] in
theorem counted_start {waits : Nat} (hpos : 0 < waits) : Counted (start waits : BlockableBarrier T) := by
  refine ⟨hpos, ?_, ⟨?_, ?_, ?_, ?_, ?_⟩, ?_, ?_, ?_⟩ <;>
    simp [start, HeldBy, BarrierPc.holds, BarrierPc.arrived, BarrierPc.last]

/-- A thread that moves on within the critical section, or outside of it. -/
theorem heldBy_update {p : BarrierPc} (hs : HeldBy (fun u => (s.pc u).holds = true) s.mu_)
    (hp : p.holds = (s.pc t).holds) :
    HeldBy (fun u => (Function.update s.pc t p u).holds = true) s.mu_ :=
  hs.congr ((forall_update_iff s.pc fun u q => q.holds = true ↔ (s.pc u).holds = true).mpr
    ⟨by rw [hp], fun _ _ => Iff.rfl⟩)

/-- A step that moves `t` on to `p` and changes nothing but the owner of the mutex. -/
theorem Counted.move (hs : s.Counted) {p : BarrierPc} {mu : Option T}
    (hheld : HeldBy (fun u => (update s.pc t p u).holds = true) mu)
    (harrived : p.arrived = true → (s.pc t).arrived = true) (hreset : s.pc t ≠ .reset)
    (hlast : p.last = true → s.arrivals % s.total_ = 0)
    (hnotified : p = .relock true → Complete s (s.ticket t)) :
    Counted { s with mu_ := mu, pc := update s.pc t p } := by
  refine ⟨hs.pos, hheld, hs.tickets.mono ?_, fun hno => hs.waiting ?_, ?_, ?_⟩
  · exact (forall_update_iff s.pc fun v q => q.arrived = true → (s.pc v).arrived = true).mpr
      ⟨harrived, fun _ _ => id⟩
  · intro v
    by_cases hv : v = t
    · rwa [hv]
    · have hnov := hno v
      simpa [hv] using hnov
  · exact (forall_update_iff s.pc fun _ q => q.last = true → s.arrivals % s.total_ = 0).mpr
      ⟨hlast, fun v _ => hs.last v⟩
  · exact (forall_update_iff s.pc fun v q => q = .relock true → Complete s (s.ticket v)).mpr
      ⟨hnotified, fun v _ => hs.notified v⟩

omit [DecidableEq T] in
/-- No thread is at `reset` while another one is in the critical section. -/
theorem Counted.not_reset (hs : s.Counted) (ht : (s.pc t).holds = true) (hne : s.pc t ≠ .reset) :
    ∀ v, s.pc v ≠ .reset := by
  intro v hv
  have hvholds : (s.pc v).holds = true := by rw [hv]; rfl
  obtain rfl := hs.held.unique hvholds ht
  exact hne hv

/-- An arrival. -/
theorem Counted.arrive (hs : s.Counted) (ht : s.pc t = .arrive) : (s.arrive t).Counted := by
  have hholds : (s.pc t).holds = true := by rw [ht]; rfl
  have hwaiting : s.waiting_ = s.arrivals % s.total_ :=
    hs.waiting (hs.not_reset hholds (by simp [ht]))
  have hlt : s.waiting_ < s.total_ := hwaiting ▸ Nat.mod_lt _ hs.pos
  have hmod : (s.arrivals + 1) % s.total_ = (s.waiting_ + 1) % s.total_ := by
    rw [hwaiting, Nat.mod_add_mod]
  refine ⟨hs.pos, hs.held.congr fun v => ?_, hs.tickets.draw fun v hv hvt => ?_, fun hno => ?_,
    fun v hv => ?_, fun v hv => ?_⟩
  · show (update s.pc t _ v).holds = true ↔ _
    by_cases hv : v = t
    · subst hv
      rw [update_self, ht]
      split_ifs <;> simp [BarrierPc.holds]
    · rw [update_of_ne hv]
  · have hv' : (update s.pc t _ v).arrived = true := hv
    rwa [update_of_ne hvt] at hv'
  · -- somebody waits: the generation is not complete yet
    have hnot : update s.pc t _ t ≠ .reset := hno t
    rw [update_self] at hnot
    have hwait : s.waiting_ + 1 < s.total_ := by
      by_contra hfull
      exact hnot (if_neg hfull)
    exact (Nat.mod_eq_of_lt hwait).symm.trans hmod.symm
  · have hv' : (update s.pc t _ v).last = true := hv
    show (s.arrivals + 1) % s.total_ = 0
    by_cases hvt : v = t
    · subst hvt
      rw [update_self] at hv'
      have hfull : s.waiting_ + 1 = s.total_ := by
        by_contra hne
        rw [if_pos (by omega)] at hv'
        exact absurd hv' (by simp [BarrierPc.last])
      rw [hmod, hfull, Nat.mod_self]
    · rw [update_of_ne hvt] at hv'
      -- nobody else is in the critical section
      have hvholds : (s.pc v).holds = true := by
        cases hpc : s.pc v <;> simp_all [BarrierPc.last, BarrierPc.holds]
      exact absurd (hs.held.unique hvholds hholds) hvt
  · have hv' : update s.pc t _ v = .relock true := hv
    by_cases hvt : v = t
    · subst hvt
      rw [update_self] at hv'
      split_ifs at hv'
    · rw [update_of_ne hvt] at hv'
      have hcomplete : s.total_ * (s.ticket v / s.total_ + 1) ≤ s.arrivals := hs.notified v hv'
      show s.total_ * (update s.ticket t s.arrivals v / s.total_ + 1) ≤ s.arrivals + 1
      rw [update_of_ne hvt]
      omega

/-- The last call of a generation starts the next one. -/
theorem Counted.reset (hs : s.Counted) (ht : s.pc t = .reset) :
    Counted { s with waiting_ := 0, pc := update s.pc t .notify } := by
  have hmod : s.arrivals % s.total_ = 0 := hs.last t (by rw [ht]; rfl)
  refine ⟨hs.pos, heldBy_update hs.held (by rw [ht]; rfl), hs.tickets.mono ?_,
    fun _ => hmod.symm, fun _ _ => hmod, ?_⟩
  · exact (forall_update_iff s.pc fun v q => q.arrived = true → (s.pc v).arrived = true).mpr
      ⟨fun _ => by rw [ht]; rfl, fun _ _ => id⟩
  · exact (forall_update_iff s.pc fun v q => q = .relock true → Complete s (s.ticket v)).mpr
      ⟨by simp, fun v _ => hs.notified v⟩

/-- The last call of a generation wakes the others. -/
theorem Counted.notify (hs : s.Counted) (ht : s.pc t = .notify) :
    Counted { s with pc := update (wakeAll s.pc) t .leave } := by
  have hmod : s.arrivals % s.total_ = 0 := hs.last t (by rw [ht]; rfl)
  have hholds : (s.pc t).holds = true := by rw [ht]; rfl
  refine ⟨hs.pos, hs.held.congr ?_, hs.tickets.mono ?_,
    fun _ => hs.waiting (hs.not_reset hholds (by simp [ht])), fun _ _ => hmod, ?_⟩
  · refine (forall_update_iff (wakeAll s.pc) fun v q => q.holds = true ↔ (s.pc v).holds = true).mpr
      ⟨by simp [ht, BarrierPc.holds], fun v _ => ?_⟩
    obtain ⟨hasleep, hwake⟩ | ⟨-, hsame⟩ := wakeAll_eq s.pc v
    · simp [hasleep, hwake, BarrierPc.holds]
    · rw [hsame]
  · refine (forall_update_iff (wakeAll s.pc)
      fun v q => q.arrived = true → (s.pc v).arrived = true).mpr
      ⟨fun _ => by rw [ht]; rfl, fun v _ => ?_⟩
    obtain ⟨hasleep, -⟩ | ⟨-, hsame⟩ := wakeAll_eq s.pc v
    · exact fun _ => by rw [hasleep]; rfl
    · rw [hsame]
      exact id
  · -- those who sleep have arrived
    refine (forall_update_iff (wakeAll s.pc)
      fun v q => q = .relock true → Complete s (s.ticket v)).mpr ⟨by simp, fun v _ hv => ?_⟩
    obtain ⟨hasleep, -⟩ | ⟨-, hsame⟩ := wakeAll_eq s.pc v
    · exact complete_of_mod_eq_zero (hs.tickets.lt v (by rw [hasleep]; rfl)) hmod
    · exact hs.notified v (hsame ▸ hv)

/-- A call that has arrived returns. -/
theorem Counted.return_ (hs : s.Counted) (ht : (s.pc t).arrived = true) (hreset : s.pc t ≠ .reset)
    (hother : ∀ v, v ≠ t → (s.pc v).holds = false) : (s.return_ t).Counted := by
  have hheld : HeldBy (fun v => (update s.pc t .idle v).holds = true) none := by
    refine (forall_update_iff s.pc fun v q => q.holds = true ↔ none = some v).mpr
      ⟨by simp [BarrierPc.holds], fun v hv => ?_⟩
    simp [hother v hv]
  have hmoved := hs.move hheld (by simp [BarrierPc.arrived]) hreset (by simp [BarrierPc.last])
    (by simp)
  refine ⟨hs.pos, hheld, hs.tickets.giveBack ht fun v hv => ?_, hmoved.waiting, hmoved.last,
    hmoved.notified⟩
  have hv' : (update s.pc t .idle v).arrived = true := hv
  by_cases hvt : v = t
  · subst hvt
    rw [update_self] at hv'
    exact absurd hv' (by simp [BarrierPc.arrived])
  · rw [update_of_ne hvt] at hv'
    exact ⟨hvt, hv'⟩

theorem Counted.step {l : BarrierLabel T} (hs : s.Counted) (h : step l s = some u) : u.Counted := by
  cases moves_of_step h with
  | @await t ht =>
    exact hs.move (heldBy_update hs.held (by rw [ht]; rfl)) (by simp [BarrierPc.arrived])
      (by simp [ht]) (by simp [BarrierPc.last]) (by simp)
  | @lock t ht hmu =>
    refine hs.move ((hmu ▸ hs.held).acquire ?_ fun v hv => ?_) (by simp [BarrierPc.arrived])
      (by simp [ht]) (by simp [BarrierPc.last]) (by simp)
    · simp [BarrierPc.holds]
    · rw [update_of_ne hv]
  | arrive ht => exact hs.arrive ht
  | @sleep t ht =>
    refine hs.move (hs.held.release (t := t) ?_ ?_ fun v hv => ?_) (fun _ => by rw [ht]; rfl)
      (by simp [ht]) (by simp [BarrierPc.last]) (by simp)
    · rw [ht]
      rfl
    · simp [BarrierPc.holds]
    · rw [update_of_ne hv]
  | @relock t _ ht hmu =>
    refine hs.return_ (by rw [ht]; rfl) (by simp [ht]) fun v _ => ?_
    exact Bool.eq_false_iff.mpr ((hmu ▸ hs.held).not_of_none v)
  | reset ht => exact hs.reset ht
  | notify ht => exact hs.notify ht
  | @leave t ht =>
    have hholds : (s.pc t).holds = true := by rw [ht]; rfl
    refine hs.return_ (by rw [ht]; rfl) (by simp [ht]) fun v hv => ?_
    exact Bool.eq_false_iff.mpr fun hvholds => hv (hs.held.unique hvholds hholds)
  | @spurious t ht =>
    exact hs.move (heldBy_update hs.held (by rw [ht]; rfl)) (fun _ => by rw [ht]; rfl)
      (by simp [ht]) (by simp [BarrierPc.last]) (by simp)

/-! ### Returns -/

/-- A return keeps the property exactly when the generation of the call is complete. -/
theorem whole_return_iff (hw : s.WholeGenerations) (hreturn : (s.return_ t).Counted) :
    (s.return_ t).WholeGenerations ↔ Complete s (s.ticket t) := by
  constructor
  · exact fun h => h.complete _ List.mem_cons_self
  · intro hcomplete
    refine hreturn.whole fun k hk => ?_
    rcases List.mem_cons.mp hk with rfl | hk
    · exact hcomplete
    · exact hw.complete k hk

omit [DecidableEq T] in
/-- A step that returns from no call keeps the property. -/
theorem WholeGenerations.mono (hw : s.WholeGenerations) (hu : u.Counted)
    (htotal : u.total_ = s.total_) (hreturned : u.returned = s.returned)
    (harrivals : s.arrivals ≤ u.arrivals) : u.WholeGenerations := by
  refine hu.whole fun k hk => ?_
  have hcomplete : s.total_ * (k / s.total_ + 1) ≤ s.arrivals := hw.complete k (hreturned ▸ hk)
  show u.total_ * (k / u.total_ + 1) ≤ u.arrivals
  rw [htotal]
  exact hcomplete.trans harrivals

/-- The property is lost exactly where a call returns that has been woken without a notification and
whose generation is not complete. -/
theorem whole_step_iff {l : BarrierLabel T} (hs : s.Counted) (hw : s.WholeGenerations)
    (h : step l s = some u) : u.WholeGenerations ↔ Late l s := by
  have hu : u.Counted := hs.step h
  cases moves_of_step h with
  | await | spurious => exact iff_of_true (hw.mono hu rfl rfl le_rfl) trivial
  | @lock t ht | @sleep t ht | @reset t ht | @notify t ht =>
    exact iff_of_true (hw.mono hu rfl rfl le_rfl) fun hpc => by simp [ht] at hpc
  | @arrive t ht =>
    exact iff_of_true (hw.mono hu rfl rfl (Nat.le_succ _)) fun hpc => by simp [ht] at hpc
  | @relock t notified ht hmu =>
    rw [whole_return_iff hw hu]
    refine ⟨fun hcomplete _ => hcomplete, fun hlate => ?_⟩
    cases notified with
    | true => exact hs.notified t ht
    | false => exact hlate ht
  | @leave t ht =>
    rw [whole_return_iff hw hu]
    -- the last call of its generation
    have hcomplete : Complete s (s.ticket t) :=
      complete_of_mod_eq_zero (hs.tickets.lt t (by rw [ht]; rfl)) (hs.last t (by rw [ht]; rfl))
    exact iff_of_true hcomplete fun _ => hcomplete

/-! ### All runs -/

/-- **The exact condition**: only whole generations are released in all states of a run if and only if
no call that has been woken without a notification gets the mutex back in it before its generation is
complete. -/
theorem whole_iff_late {waits : Nat} (hpos : 0 < waits) (ls : List (BarrierLabel T)) :
    (blockableBarrier T waits).AllStates WholeGenerations ls (start waits) ↔
      (blockableBarrier T waits).AllSteps Late ls (start waits) := by
  have hwhole : WholeGenerations (start waits : BlockableBarrier T) := by
    constructor <;> simp [start]
  exact System.allStates_iff_allSteps (I := Counted) (fun _ _ _ hs _ h _ => hs.step h)
    (fun _ _ _ hs hw h => whole_step_iff hs hw h) ls (counted_start hpos) hwhole

/-- Two calls meet; the one that sleeps is woken by the other. -/
theorem whole_of_late_two :
    (blockableBarrier Bool 2).AllStates WholeGenerations
      [.await true, .next true, .next true, .next true, .await false, .next false, .next false,
        .next false, .next false, .next false, .next true] (start 2) := by
  exact (whole_iff_late (by decide) _).mpr (by decide)

/-- The first of two calls is woken without a notification, and returns. -/
theorem not_whole_spurious :
    ¬ (blockableBarrier Bool 2).AllStates WholeGenerations
      [.await true, .next true, .next true, .next true, .spurious true, .next true] (start 2) := by
  intro h
  have hcomplete := (h.last rfl).complete 0 List.mem_cons_self
  exact absurd hcomplete (by decide)

end BlockableBarrier

end Lizlib
