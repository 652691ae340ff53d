import Mathlib.Algebra.Ring.Int.Defs
import Lizlib.Net.TimerChannel

/-!
# The timers that are set

* `nanos_toTimespec`, `tv_nsec_toTimespec`: the split of a valid duration is exact, and its
  nanoseconds are below one second.
* `programs_iff_valid`: a timer with a valid delay or a valid interval is the one asked for if and only
  if the delay is valid; without one `it_value` stays zero, which disarms the timer.
-/

namespace Lizlib

/-- The nanoseconds of a `timespec`. -/
def Timespec.nanos (t : Timespec) : Int := t.tv_sec.toInt * 10 ^ 9 + t.tv_nsec.toInt

/-- The nanoseconds below a second are. -/
def Timespec.InRange (t : Timespec) : Prop := 0 ≤ t.tv_nsec.toInt ∧ t.tv_nsec.toInt < 10 ^ 9

namespace Duration

theorem valid_iff (d : Duration) : d.valid = true ↔ 0 ≤ d.usec_.toInt := by
  unfold valid
  rw [decide_eq_true_iff, Int64.le_iff_toInt_le]
  rfl

variable {d : Duration} (h : d.valid = true)

include h

theorem toInt_sec : d.sec.toInt = d.usec_.toInt / 1000000 := by
  have hne : (1000000 : Int64) ≠ -1 := by decide
  have hmillion : (1000000 : Int64).toInt = 1000000 := by decide
  unfold sec
  rw [if_pos h, Int64.toInt_div_of_ne_right _ _ hne, hmillion]
  exact Int.tdiv_eq_ediv_of_nonneg (d.valid_iff.mp h)

theorem toInt_microsBelowSec : d.microsBelowSec.toInt = d.usec_.toInt % 1000000 := by
  have hmillion : (1000000 : Int64).toInt = 1000000 := by decide
  unfold microsBelowSec
  rw [if_pos h, Int64.toInt_mod, hmillion]
  exact Int.tmod_eq_emod_of_nonneg (d.valid_iff.mp h)

omit h in
theorem toInt_max (p q : Duration) : (p.max q).usec_.toInt = Max.max p.usec_.toInt q.usec_.toInt := by
  unfold max
  by_cases hlt : p.usec_ < q.usec_
  · rw [if_pos hlt]
    rw [Int64.lt_iff_toInt_lt] at hlt
    omega
  · rw [if_neg hlt]
    rw [Int64.lt_iff_toInt_lt] at hlt
    omega

end Duration

namespace TimerChannel

/-! ### One timespec -/

theorem toInt_atLeast (d : Duration) :
    (d.max kMinWakeUpDuration).usec_.toInt = max d.usec_.toInt 100 := d.toInt_max kMinWakeUpDuration

theorem valid_atLeast (d : Duration) : (d.max kMinWakeUpDuration).valid = true := by
  rw [Duration.valid_iff, toInt_atLeast]
  omega

theorem toInt_tv_nsec (d : Duration) :
    (toTimespec d).tv_nsec.toInt = max d.usec_.toInt 100 % 1000000 * 1000 := by
  have hmicros := Duration.toInt_microsBelowSec (valid_atLeast d)
  rw [toInt_atLeast] at hmicros
  have hthousand : (1000 : Int64).toInt = 1000 := by decide
  show ((d.max kMinWakeUpDuration).microsBelowSec * 1000).toInt = _
  -- the product is far below `2 ^ 63`
  rw [Int64.toInt_mul, hthousand, hmicros]
  apply Int.bmod_eq_of_le <;> omega

/-- **The split is exact**, after the clamp. -/
theorem nanos_toTimespec (d : Duration) :
    (toTimespec d).nanos = max d.usec_.toInt 100 * 1000 := by
  have hsec := Duration.toInt_sec (valid_atLeast d)
  rw [toInt_atLeast] at hsec
  have hnsec := toInt_tv_nsec d
  unfold Timespec.nanos
  rw [hnsec]
  show (d.max kMinWakeUpDuration).sec.toInt * 10 ^ 9 + _ = _
  rw [hsec]
  omega

theorem tv_nsec_toTimespec (d : Duration) : (toTimespec d).InRange := by
  unfold Timespec.InRange
  rw [toInt_tv_nsec]
  omega

theorem toTimespec_ne_zero (d : Duration) : toTimespec d ≠ .zero := by
  intro hzero
  have hnanos := nanos_toTimespec d
  rw [hzero] at hnanos
  have hnone : Timespec.zero.nanos = 0 := by decide
  omega

/-! ### The timer -/

/-- The timer is armed. -/
def Armed (spec : Option ITimerSpec) : Prop := ∃ s, spec = some s ∧ s.it_value ≠ .zero

/-- The task will run. -/
def Enqueued.Scheduled : Enqueued → Prop
  | timer spec => Armed spec
  | active => True

/-- The timer is the one asked for. -/
structure AsAsked (delay interval : Duration) (spec : ITimerSpec) : Prop where
  armed : spec.it_value ≠ .zero
  value_range : spec.it_value.InRange
  interval_range : spec.it_interval.InRange
  value_eq : delay.valid = true → spec.it_value.nanos = max delay.usec_.toInt 100 * 1000
  interval_eq : interval.valid = true → spec.it_interval.nanos = max interval.usec_.toInt 100 * 1000
  once : interval.valid = false → spec.it_interval = .zero

/-- `SetTimer` programs the timer it was asked for, and the callers schedule their tasks. -/
structure Programs (delay interval : Duration) : Prop where
  asAsked : ∃ spec, setTimer delay interval = some spec ∧ AsAsked delay interval spec
  loopEvery : Armed (loopSubmitEvery delay interval)
  poolEvery : (poolSubmitEvery delay interval).Scheduled
  loopAfter : delay.valid = true → Armed (loopSubmitAfter delay)
  poolAfter : delay.valid = true → (poolSubmitAfter delay).Scheduled

theorem setTimer_eq {delay interval : Duration} (h : delay.valid = true ∨ interval.valid = true) :
    setTimer delay interval = some
      { it_value := if delay.valid then toTimespec delay else .zero
        it_interval := if interval.valid then toTimespec interval else .zero } := by
  unfold setTimer
  rw [if_neg]
  rcases h with h | h <;> simp [h]

/-- With a valid delay the timer is the one asked for. -/
theorem asAsked_of_valid {delay : Duration} (h : delay.valid = true) (interval : Duration) :
    ∃ spec, setTimer delay interval = some spec ∧ AsAsked delay interval spec := by
  refine ⟨_, setTimer_eq (Or.inl h), ?_⟩
  rw [if_pos h]
  have hzero : Timespec.zero.InRange := ⟨by decide, by decide⟩
  refine ⟨toTimespec_ne_zero delay, tv_nsec_toTimespec delay, ?_, fun _ => nanos_toTimespec delay,
    fun hi => ?_, fun hi => ?_⟩
  · dsimp only
    split_ifs
    · exact tv_nsec_toTimespec interval
    · exact hzero
  · rw [if_pos hi]
    exact nanos_toTimespec interval
  · rw [if_neg (by rw [hi]; decide)]

theorem armed_of_valid {delay : Duration} (h : delay.valid = true) (interval : Duration) :
    Armed (setTimer delay interval) := by
  obtain ⟨spec, hspec, hasked⟩ := asAsked_of_valid h interval
  exact ⟨spec, hspec, hasked.armed⟩

/-- **The timers that are set** are those asked for if and only if there is a delay. -/
theorem programs_iff_valid (delay interval : Duration)
    (h : delay.valid = true ∨ interval.valid = true) :
    Programs delay interval ↔ delay.valid = true := by
  constructor
  · intro hprograms
    by_contra hdelay
    obtain ⟨spec, hspec, hasked⟩ := hprograms.asAsked
    rw [setTimer_eq h, if_neg hdelay] at hspec
    obtain rfl := Option.some.inj hspec
    exact hasked.armed rfl
  · intro hdelay
    have hpool : ∀ interval, (enqueueTask delay interval).Scheduled := by
      intro interval
      unfold enqueueTask
      rw [if_pos (by rw [hdelay, Bool.or_true])]
      exact armed_of_valid hdelay interval
    exact ⟨asAsked_of_valid hdelay interval, armed_of_valid hdelay interval, hpool interval,
      fun _ => armed_of_valid hdelay .invalid, fun _ => hpool .invalid⟩

theorem programs_iff_valid_second :
    (Duration.valid ⟨1000000⟩ = true ∨ Duration.valid .invalid = true) ∧
      (Programs ⟨1000000⟩ .invalid ↔ Duration.valid ⟨1000000⟩ = true) :=
  have h : Duration.valid ⟨1000000⟩ = true ∨ Duration.valid .invalid = true := Or.inl (by decide)
  ⟨h, programs_iff_valid ⟨1000000⟩ .invalid h⟩

/-- `SubmitEvery` without a delay, every second: the timer is never armed. -/
theorem not_programs_interval :
    Duration.valid ⟨1000000⟩ = true ∧ ¬ Programs .invalid ⟨1000000⟩ := by
  refine ⟨by decide, fun hprograms => ?_⟩
  obtain ⟨spec, hspec, hzero⟩ := hprograms.loopEvery
  have hvalue : (loopSubmitEvery .invalid ⟨1000000⟩).map ITimerSpec.it_value = some .zero := by decide
  rw [hspec] at hvalue
  exact hzero (Option.some.inj hvalue)

end TimerChannel

end Lizlib
