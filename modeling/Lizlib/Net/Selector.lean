import Mathlib.Logic.Function.Basic
import Lizlib.Net.Event
import Lizlib.Transition

/-!
# The scheduler thread and its selected channels

`SelectedChannels` is the block of vectors that `EpollSelector::Wait` refills and
`SelectedChannels::Process` walks over, submitting one closure `[this, i]` per entry.  The closure
holds the index only: `SelectedChannels.handle` is what it finds in the vectors when it finally
runs.

`scheduler` is the system in which `EventScheduler::schedulerWorkerRoutine` (one thread, one atomic
step for each vector it touches), the executors' threads and `SetExecutor`/`Join` calls interleave.
The records `rounds`, `processed`, `calls`, `inlined` and `discarded` are observations: no step of
the code reads them.
-/

namespace Lizlib

/-- A timestamp in microseconds. -/
abbrev Timestamp := Int

/-- `SelectedChannels`: the results of one `epoll_wait`, shared by every closure submitted. -/
structure SelectedChannels (Ch : Type*) where
  occur_ts : Timestamp
  channels : List Ch
  events : List EventMask

/-- The arguments of one `HandleEvents` call, with the round whose results they were read from. -/
structure Handled (Ch : Type*) where
  channel : Ch
  events : EventMask
  now : Timestamp
  round : Nat

namespace SelectedChannels

variable {Ch : Type*}

/-- The body of the closure `[this, i]`: `channels[i]->HandleEvents(events[i], occur_ts)`.  `none`
where an index is past the end of its vector. -/
def handle (r : SelectedChannels Ch) (round i : Nat) : Option (Handled Ch) :=
  match r.channels[i]?, r.events[i]? with
  | some c, some m => some ⟨c, m, r.occur_ts, round⟩
  | _, _ => none

end SelectedChannels

/-! ### The system -/

/-- What one successful `epoll_wait` reported, and when. -/
structure Round (Ch : Type*) where
  occur_ts : Timestamp
  ready : List (Ch × EventMask)

/-- The closure submitted for entry `index` of round `round`.  The code's closure captures `this`
and the index; the round is remembered for the specification only. -/
structure Task where
  round : Nat
  index : Nat
  deriving DecidableEq

/-- A finished run of a closure and what it passed to `HandleEvents`. -/
structure TaskCall (Ch : Type*) where
  task : Task
  handled : Option (Handled Ch)

/-- Where the scheduler thread stands. -/
inductive SchedulerPc (Ch : Type*) where
  /-- In `epoll_wait`. -/
  | wait
  /-- `occur_ts` is written, `events.clear()` comes next. -/
  | clearEvents (ready : List (Ch × EventMask))
  /-- `channels.clear()` comes next. -/
  | clearChannels (ready : List (Ch × EventMask))
  /-- In the fill loop, `channels.emplace_back` comes next. -/
  | fillChannel (ready : List (Ch × EventMask))
  /-- In the fill loop, `events.emplace_back` comes next. -/
  | fillEvent (mask : EventMask) (ready : List (Ch × EventMask))
  /-- In `Process`, at index `i`. -/
  | process (i : Nat)
  /-- The routine returned or the process exited. -/
  | exit

/-- The scheduler, the executors and the observations made of them. -/
structure Scheduler (Ch Ex : Type*) where
  pc : SchedulerPc Ch
  results_ : SelectedChannels Ch
  /-- `Channel::GetExecutor()` of every channel. -/
  executor : Ch → Option Ex
  /-- The executors whose `cancel_signal_` is set. -/
  cancelled : Ex → Bool
  /-- The closures accepted by an executor and not yet run, oldest first. -/
  pending : List (Ex × Task)
  rounds : List (Round Ch)
  /-- The entries `Process` has passed, in order. -/
  processed : List Task
  calls : List (TaskCall Ch)
  /-- The entries handled by the scheduler thread itself (no executor). -/
  inlined : List (TaskCall Ch)
  discarded : List Task

/-- Who moves. -/
inductive SchedulerLabel (Ch Ex : Type*) where
  /-- `epoll_wait` returns: an error number, or the ready list. -/
  | epollWait (now : Timestamp) (result : Except Nat (List (Ch × EventMask)))
  /-- The next step of the scheduler thread inside `Wait` or `Process`. -/
  | next
  /-- The scheduler's own `cancel_signal_` is seen. -/
  | stop
  /-- An executor thread runs the `k`-th accepted closure. -/
  | exec (k : Nat)
  /-- A cancelled executor drops the `k`-th accepted closure. -/
  | discard (k : Nat)
  /-- `Executor::Join` sets the executor's `cancel_signal_`. -/
  | cancel (e : Ex)
  /-- `Channel::SetExecutor`. -/
  | setExecutor (c : Ch) (e : Option Ex)

namespace Scheduler

variable {Ch Ex : Type*}

/-- `EINTR`. -/
def eintr : Nat := 4

/-- The index in `rounds` of the round whose results are in `results_`. -/
def round (s : Scheduler Ch Ex) : Nat := s.rounds.length - 1

/-- The closure for index `i` of the current round. -/
def taskAt (s : Scheduler Ch Ex) (i : Nat) : Task := ⟨s.round, i⟩

/-- `Executor::Submit` as `EventLoop` implements it: the task is dropped once the executor is
cancelled, and queued otherwise. -/
def submit (s : Scheduler Ch Ex) (e : Ex) (t : Task) : Scheduler Ch Ex :=
  if s.cancelled e then { s with discarded := s.discarded ++ [t] }
  else { s with pending := s.pending ++ [(e, t)] }

/-- One iteration of the loop in `SelectedChannels::Process`, at index `i`. -/
def processStep (s : Scheduler Ch Ex) (i : Nat) : Scheduler Ch Ex :=
  match s.results_.channels[i]? with
  -- `i < Size()` fails
  | none => { s with pc := .wait }
  | some c =>
    let s' := { s with pc := .process (i + 1), processed := s.processed ++ [s.taskAt i] }
    match s.executor c with
    | none =>
      { s' with inlined := s.inlined ++ [⟨s.taskAt i, s.results_.handle s.round i⟩] }
    | some e => s'.submit e (s.taskAt i)

/-- The next step of the scheduler thread between two calls of `epoll_wait`. -/
def nextStep (s : Scheduler Ch Ex) : Option (Scheduler Ch Ex) :=
  match s.pc with
  | .wait => none
  | .clearEvents ready =>
    some { s with pc := .clearChannels ready, results_ := { s.results_ with events := [] } }
  | .clearChannels ready =>
    some { s with pc := .fillChannel ready, results_ := { s.results_ with channels := [] } }
  | .fillChannel [] =>
    -- `if (results_.events.empty()) continue;`
    some { s with pc := if s.results_.events.isEmpty then .wait else .process 0 }
  | .fillChannel ((c, m) :: ready) =>
    some { s with
      pc := .fillEvent m ready
      results_ := { s.results_ with channels := s.results_.channels ++ [c] } }
  | .fillEvent m ready =>
    some { s with
      pc := .fillChannel ready
      results_ := { s.results_ with events := s.results_.events ++ [m] } }
  | .process i => some (s.processStep i)
  | .exit => none

/-- The return of `epoll_wait`: a failed call leaves `results_` alone, a successful one begins the
refill with `occur_ts`. -/
def epollWaitStep (s : Scheduler Ch Ex) (now : Timestamp) :
    Except Nat (List (Ch × EventMask)) → Scheduler Ch Ex
  | .error code => if code = eintr then s else { s with pc := .exit }
  | .ok ready =>
    { s with
      pc := .clearEvents ready
      results_ := { s.results_ with occur_ts := now }
      rounds := s.rounds ++ [⟨now, ready⟩] }

/-- One step of the system. -/
def step [DecidableEq Ch] [DecidableEq Ex] :
    SchedulerLabel Ch Ex → Scheduler Ch Ex → Option (Scheduler Ch Ex)
  | .epollWait now result, s =>
    match s.pc with
    | .wait => some (s.epollWaitStep now result)
    | _ => none
  | .next, s => s.nextStep
  | .stop, s =>
    match s.pc with
    | .wait => some { s with pc := .exit }
    | _ => none
  | .exec k, s =>
    match s.pending[k]? with
    | none => none
    | some (_, t) =>
      some { s with
        pending := s.pending.eraseIdx k
        calls := s.calls ++ [⟨t, s.results_.handle s.round t.index⟩] }
  | .discard k, s =>
    match s.pending[k]? with
    | none => none
    | some (e, t) =>
      if s.cancelled e then
        some { s with pending := s.pending.eraseIdx k, discarded := s.discarded ++ [t] }
      else none
  | .cancel e, s => some { s with cancelled := Function.update s.cancelled e true }
  | .setExecutor c e, s => some { s with executor := Function.update s.executor c e }

/-- The scheduler before its first `epoll_wait`. -/
def start (executor : Ch → Option Ex) (cancelled : Ex → Bool) : Scheduler Ch Ex where
  pc := .wait
  results_ := ⟨0, [], []⟩
  executor := executor
  cancelled := cancelled
  pending := []
  rounds := []
  processed := []
  calls := []
  inlined := []
  discarded := []

end Scheduler

/-- The scheduler thread, the executor threads and their environment, interleaved. -/
def scheduler (Ch Ex : Type*) [DecidableEq Ch] [DecidableEq Ex] :
    System (Scheduler Ch Ex) (SchedulerLabel Ch Ex) where
  init s := ∃ executor cancelled, s = Scheduler.start executor cancelled
  step := Scheduler.step

end Lizlib
