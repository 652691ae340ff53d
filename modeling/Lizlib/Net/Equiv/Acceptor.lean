import Lizlib.Net.Acceptor

/-!
# When the accept loop ends

* `returns_of_granted`: where no resource error comes up while there is something to accept, each round
  takes one entry off the backlog, and the loop ends behind the last one.
* `acceptsAll_iff`: a resource error that lasts keeps the loop going for ever.
-/

namespace Lizlib

namespace Acceptor

/-- The sockets the backlog has to offer. -/
def sockets (backlog : List Pending) : List Nat :=
  backlog.filterMap fun
    | .connection fd => some fd
    | .failed _ => none

/-- The callback returns with the backlog used up, and has handed on each accepted socket once. -/
def AcceptsAll (acceptor_callback_ : Bool) (denied : Nat → Option AcceptError)
    (backlog : List Pending) : Prop :=
  ∃ s, Returns (body acceptor_callback_ denied) (start backlog) s ∧ s.backlog = [] ∧
    s.passed = if acceptor_callback_ then sockets backlog else []

variable {acceptor_callback_ : Bool} {denied : Nat → Option AcceptError}

/-! ### One round -/

theorem body_nil {s : State} (h : s.backlog = []) :
    body acceptor_callback_ denied s = .inr { s with calls := s.calls + 1 } := by
  unfold body accept
  rw [h]
  dsimp only
  rw [if_pos (Or.inl rfl)]

/-- A resource error leaves the backlog as it is. -/
theorem body_denied {s : State} (h : s.backlog ≠ []) {e : AcceptError}
    (he : denied s.calls = some e) :
    body acceptor_callback_ denied s = .inl { s with calls := s.calls + 1 } := by
  obtain ⟨p, backlog, hcons⟩ := List.exists_cons_of_ne_nil h
  unfold body accept
  rw [hcons, he]
  dsimp only
  rw [if_neg (by rw [not_or]; exact e.2)]

/-- The sockets handed on after one more entry. -/
def handOn (acceptor_callback_ : Bool) (passed : List Nat) (p : Pending) : List Nat :=
  if acceptor_callback_ then passed ++ sockets [p] else passed

/-- Otherwise one entry leaves the backlog. -/
theorem body_granted {s : State} {p : Pending} {backlog : List Pending}
    (h : s.backlog = p :: backlog) (hnone : denied s.calls = none) :
    body acceptor_callback_ denied s =
      .inl ⟨backlog, s.calls + 1, handOn acceptor_callback_ s.passed p⟩ := by
  unfold body accept handOn
  rw [h, hnone]
  cases p with
  | connection fd => rfl
  | failed e =>
    dsimp only
    rw [if_neg (by rw [not_or]; exact e.2)]
    have hpassed : s.passed ++ sockets [.failed e] = s.passed := List.append_nil s.passed
    rw [hpassed, ite_self]

theorem handOn_sockets (passed : List Nat) (p : Pending) (backlog : List Pending) :
    (if acceptor_callback_ then handOn acceptor_callback_ passed p ++ sockets backlog
      else handOn acceptor_callback_ passed p) =
      if acceptor_callback_ then passed ++ sockets (p :: backlog) else passed := by
  have hcons : sockets (p :: backlog) = sockets [p] ++ sockets backlog :=
    List.filterMap_append (l := [p])
  unfold handOn
  cases acceptor_callback_ with
  | true => simp [hcons]
  | false => rfl

/-! ### The whole loop -/

/-- **Without resource errors** the loop ends behind the last entry. -/
theorem returns_of_granted {s : State}
    (h : ∀ n < s.backlog.length, denied (s.calls + n) = none) :
    ∃ t, Returns (body acceptor_callback_ denied) s t ∧ t.backlog = [] ∧
      t.passed = if acceptor_callback_ then s.passed ++ sockets s.backlog else s.passed := by
  obtain ⟨backlog, calls, passed⟩ := s
  induction backlog generalizing calls passed with
  | nil =>
    refine ⟨_, returns_of_leave (body_nil rfl), rfl, ?_⟩
    show passed = if acceptor_callback_ then passed ++ [] else passed
    rw [List.append_nil, ite_self]
  | cons p backlog ih =>
    have hnow : denied calls = none := h 0 (Nat.succ_pos _)
    have hrest : ∀ n < backlog.length, denied (calls + 1 + n) = none := by
      intro n hn
      rw [Nat.add_assoc, Nat.add_comm 1]
      exact h (n + 1) (Nat.succ_lt_succ hn)
    obtain ⟨t, ht, hempty, hpassed⟩ := ih (calls + 1) (handOn acceptor_callback_ passed p) hrest
    refine ⟨t, returns_of_next (body_granted rfl hnow) ht, hempty, ?_⟩
    rw [hpassed]
    exact handOn_sockets passed p backlog

/-- A resource error is in the way: it comes up before the backlog is used up. -/
def InTheWay (denied : Nat → Option AcceptError) (s : State) : Prop :=
  ∃ n < s.backlog.length, denied (s.calls + n) ≠ none

/-- The loop goes on towards a lasting resource error, and at it. -/
theorem inTheWay_next (hlasts : ∀ n, denied n ≠ none → denied (n + 1) ≠ none) {s : State}
    (h : InTheWay denied s) :
    ∃ t, body acceptor_callback_ denied s = .inl t ∧ InTheWay denied t := by
  obtain ⟨n, hn, hdenied⟩ := h
  have hne : s.backlog ≠ [] := by
    intro hnil
    rw [hnil] at hn
    exact Nat.not_lt_zero n hn
  cases hnow : denied s.calls with
  | some e =>
    -- at the error: nothing has changed, and it lasts
    have hnext := hlasts s.calls (by rw [hnow]; exact Option.some_ne_none e)
    exact ⟨_, body_denied hne hnow, 0, List.length_pos_iff.mpr hne, hnext⟩
  | none =>
    obtain ⟨p, backlog, hcons⟩ := List.exists_cons_of_ne_nil hne
    rw [hcons, List.length_cons] at hn
    refine ⟨_, body_granted hcons hnow, ?_⟩
    cases n with
    | zero => exact absurd hnow hdenied
    | succ n =>
      refine ⟨n, Nat.lt_of_succ_lt_succ hn, ?_⟩
      show denied (s.calls + 1 + n) ≠ none
      rwa [Nat.add_assoc, Nat.add_comm 1]

/-- **The accept loop** ends, having handed on each accepted socket once, if and only if no resource
error comes up before the backlog is used up. -/
theorem acceptsAll_iff (acceptor_callback_ : Bool) (denied : Nat → Option AcceptError)
    (hlasts : ∀ n, denied n ≠ none → denied (n + 1) ≠ none) (backlog : List Pending) :
    AcceptsAll acceptor_callback_ denied backlog ↔ ∀ n < backlog.length, denied n = none := by
  constructor
  · rintro ⟨t, ht, -⟩ n hn
    by_contra hdenied
    have hway : InTheWay denied (start backlog) := ⟨n, hn, by rwa [start, Nat.zero_add]⟩
    exact not_returns (fun s hs => inTheWay_next hlasts hs) hway t ht
  · intro h
    apply returns_of_granted (s := start backlog)
    intro n hn
    rw [start, Nat.zero_add]
    exact h n hn

/-- No resource error, and one of three connections has failed. -/
theorem acceptsAll_iff_three :
    let denied : Nat → Option AcceptError := fun _ => none
    let backlog : List Pending := [.connection 5, .failed ⟨103, by decide⟩, .connection 6]
    (∀ n, denied n ≠ none → denied (n + 1) ≠ none) ∧
      (AcceptsAll true denied backlog ↔ ∀ n < backlog.length, denied n = none) :=
  have hlasts : ∀ n, (fun _ => none : Nat → Option AcceptError) n ≠ none →
      (fun _ => none : Nat → Option AcceptError) (n + 1) ≠ none := fun _ h => h
  ⟨hlasts, acceptsAll_iff true _ hlasts _⟩

/-- One connection is waiting, and the process has no descriptor left. -/
theorem emfile_not_acceptsAll :
    ¬ AcceptsAll true (fun _ => some ⟨EMFILE, by decide⟩) [.connection 5] := by
  rintro ⟨t, ht, -⟩
  refine not_returns (I := fun s => s.backlog ≠ []) (fun s hs => ?_) (List.cons_ne_nil _ _) t ht
  exact ⟨_, body_denied hs rfl, hs⟩

end Acceptor

end Lizlib
