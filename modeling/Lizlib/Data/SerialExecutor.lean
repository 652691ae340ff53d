import Lizlib.Transition

/-!
# Serial executors

A serial executor keeps the tasks that its submitters `P` hand it in one queue and executes them one
at a time, oldest first.  Submitting is one atomic step, and so is the begin of a task.

`run_started` says that whatever has been executed or is being executed are the oldest submissions,
in the order of the submissions.
-/

/-- The tasks that wait and those that have been begun, each with its submitter. -/
@[ext] structure SerialExecutor (P E : Type*) where
  /-- The tasks not yet begun, oldest first. -/
  queue : List (P × E)
  /-- The tasks begun, oldest first; the last one is being executed while `busy`. -/
  started : List (P × E)
  busy : Bool

/-- Who moves. -/
inductive SerialLabel (P E : Type*) where
  | submit (p : P) (task : E)
  /-- The oldest task is begun. -/
  | start
  /-- The task that is being executed ends. -/
  | finish

/-- The submission a label makes, if it is one. -/
def SerialLabel.submission {P E : Type*} : SerialLabel P E → Option (P × E)
  | submit p task => some (p, task)
  | start | finish => none

namespace SerialExecutor

variable {P E : Type*}

/-- Nothing has been submitted. -/
def empty : SerialExecutor P E := ⟨[], [], false⟩

/-- One step. -/
def step : SerialLabel P E → SerialExecutor P E → Option (SerialExecutor P E)
  | .submit p task, s => some { s with queue := s.queue ++ [(p, task)] }
  | .start, s =>
    match s.busy, s.queue with
    | false, x :: rest => some { queue := rest, started := s.started ++ [x], busy := true }
    | _, _ => none
  | .finish, s => if s.busy then some { s with busy := false } else none

end SerialExecutor

/-- A serial executor and its submitters. -/
def serialExecutor (P E : Type*) : System (SerialExecutor P E) (SerialLabel P E) where
  init s := s = SerialExecutor.empty
  step := SerialExecutor.step

namespace SerialExecutor

variable {P E : Type*}

/-- The submissions of a schedule, in order. -/
def submissions (ls : List (SerialLabel P E)) : List (P × E) := ls.filterMap SerialLabel.submission

theorem started_step {l : SerialLabel P E} {s t : SerialExecutor P E}
    (h : SerialExecutor.step l s = some t) :
    t.started ++ t.queue = s.started ++ s.queue ++ l.submission.toList := by
  cases l with
  | submit p task =>
    obtain rfl := Option.some.inj h
    simp [SerialLabel.submission]
  | start =>
    simp only [SerialExecutor.step] at h
    split at h
    · rename_i x rest _ hqueue
      obtain rfl := Option.some.inj h
      simp [hqueue, SerialLabel.submission]
    · cases h
  | finish =>
    simp only [SerialExecutor.step, Option.ite_none_right_eq_some, Option.some.injEq] at h
    obtain ⟨-, rfl⟩ := h
    simp [SerialLabel.submission]

/-- **First in, first out**: the tasks begun are the oldest submissions, in order, and those that
follow are the queue. -/
theorem run_started {ls : List (SerialLabel P E)} {s t : SerialExecutor P E}
    (h : (serialExecutor P E).run ls s = some t) :
    t.started ++ t.queue = s.started ++ s.queue ++ submissions ls := by
  induction ls generalizing s with
  | nil =>
    obtain rfl := Option.some.inj h
    simp [submissions]
  | cons l ls ih =>
    obtain ⟨u, hu, hls⟩ := Option.bind_eq_some_iff.mp h
    have hsub : submissions (l :: ls) = l.submission.toList ++ submissions ls := by
      unfold submissions
      rw [List.filterMap_cons]
      cases l.submission <;> rfl
    rw [ih hls, started_step hu, hsub, List.append_assoc]

end SerialExecutor
