import Lizlib.Net.Equiv.OutputStream
import Lizlib.Net.Equiv.TcpInput
import Lizlib.Net.TcpPipe

/-!
# From `Send` to `OnRead`

Whatever has been accepted by the `handleSend` of one end is in `output_`, in the network, or has been
given to the `OnRead` of the other end, in order and once (`endToEnd`).  The sender's half is
`Streamed`, the receiver's `TcpInput.Inv`; `Piped` is the seam between them.
-/

namespace Lizlib

namespace TcpInput

/-- **What one event takes** from the socket is what `read` has returned, and it ends the stream
only if that is the end of the stream. -/
theorem received_handleRead {s : TcpInput} (h : Inv s) (hnone : s.fault = none) (page : Nat)
    (l : InputLabel) :
    (s.handleRead page l).received = s.received ++ s.bytesRead l ∧
      (s.bytesRead l ≠ [] → l.result = some (s.bytesRead l)) ∧
      ((s.handleRead page l).closed = s.closed ∨ l.result = some []) := by
  obtain ⟨c, n, heq, hwf, -, hread, hn⟩ := (h.ready hnone).appendFile page l
  rw [heq]
  rcases hn with ⟨rfl, hnil⟩ | ⟨rfl, hresult⟩
  · refine ⟨?_, fun hne => absurd hnil hne, .inl ?_⟩ <;>
      · unfold readDone
        rw [if_pos (by decide)]
  by_cases hend : s.bytesRead l = []
  · have hlen : ((s.bytesRead l).length : Int) = 0 := by simp [hend]
    refine ⟨?_, fun _ => hresult, .inr (hend ▸ hresult)⟩
    unfold readDone
    rw [if_neg (by omega), if_pos hlen]
  · have hpos : 0 < (s.bytesRead l).length := List.length_pos_iff.mpr hend
    have hload : c.load c.r_idx_ c.readableBytes = .ok (s.bytesRead l) := by
      rw [hwf.readableBytes_eq, hwf.load_readable, hread]
    rw [readDone_of_pos _ (by omega) hload]
    unfold TcpInput.onRead
    split <;> exact ⟨rfl, fun _ => hresult, .inl rfl⟩

end TcpInput

namespace TcpPipe

variable {T : Type*} [DecidableEq T]

/-- What the network holds is what lies between the two ends, and nothing is left when the receiver
has seen the end of the stream. -/
structure Piped (s : TcpPipe T) : Prop where
  shaped : s.sender.Shaped
  streamed : s.sender.Streamed
  ordered : s.sender.Ordered
  input : s.receiver.Inv
  wire : s.receiver.received ++ s.wire = s.sender.written
  closed : s.receiver.closed = true → s.wire = [] ∧ s.ended

/-- A step of the sender: what its socket accepts goes to the end of what is under way. -/
theorem Piped.send {s : TcpPipe T} (h : Piped s) {l : TcpLabel T} {c : TcpConnection T}
    (hc : TcpConnection.step l s.sender = some c)
    (hlive : s.destroyed = false)
    (hopen : ¬ (s.sender.shutdowns ≠ [] ∧ c.written ≠ s.sender.written)) :
    Piped { s with
      sender := c
      wire := s.wire ++ c.written.drop s.sender.written.length } := by
  obtain ⟨l, hwritten, hshut⟩ : ∃ l, c.written = s.sender.written ++ l ∧
      (s.sender.shutdowns ≠ [] → c.shutdowns ≠ []) := by
    obtain ⟨-, hmoves⟩ := TcpConnection.moves_of_step hc
    cases hmoves with
    | @act w env a rest hw =>
      have heff := TcpConnection.act_effect s.sender w env a
      obtain ⟨l, hl⟩ := heff.written
      refine ⟨l, hl, fun hne hnil => ?_⟩
      replace hnil : (s.sender.act w env a).1.shutdowns = [] := hnil
      rw [heff.shutdowns] at hnil
      exact hne (List.append_eq_nil_iff.mp hnil).1
    | _ => exact ⟨[], by simp, id⟩
  have hdrop : c.written.drop s.sender.written.length = l := by
    rw [hwritten, List.drop_left]
  refine ⟨TcpConnection.shaped_step h.shaped hc, TcpConnection.streamed_step h.streamed hc,
    TcpConnection.ordered_step h.shaped h.ordered hc, h.input, ?_, fun hclosed => ?_⟩
  · show s.receiver.received ++ (s.wire ++ _) = c.written
    rw [hdrop, ← List.append_assoc, h.wire, hwritten]
  · obtain ⟨hwire, hended⟩ := h.closed hclosed
    have hshutdowns : s.sender.shutdowns ≠ [] :=
      hended.resolve_left (by rw [hlive]; exact Bool.false_ne_true)
    refine ⟨?_, .inr (hshut hshutdowns)⟩
    have hsame : c.written = s.sender.written := by
      by_contra hne
      exact hopen ⟨hshutdowns, hne⟩
    show s.wire ++ _ = []
    rw [hwire, hsame, List.drop_length]
    rfl

/-- A readable event of the receiver: what `read` returns is the front of what is under way. -/
theorem Piped.receive {s : TcpPipe T} (h : Piped s) {page : Nat} {l : InputLabel} {r : TcpInput}
    (hr : TcpInput.step page l s.receiver = some r) (hread : s.readable l.result = true) :
    Piped { s with
      receiver := r
      wire := s.wire.drop (s.receiver.bytesRead l).length } := by
  have hinput := h.input.step hr
  have hnone : s.receiver.fault = none := by
    cases hf : s.receiver.fault with
    | none => rfl
    | some f => simp [TcpInput.step, hf] at hr
  have hstep : r = s.receiver.handleRead page l := by
    simpa [TcpInput.step, hnone] using hr.symm
  subst hstep
  obtain ⟨hreceived, hresult, hclosed⟩ := TcpInput.received_handleRead h.input hnone page l
  have hprefix : s.receiver.bytesRead l <+: s.wire := by
    generalize s.receiver.bytesRead l = bytes at hresult
    cases bytes with
    | nil => exact List.nil_prefix
    | cons b bytes =>
      rw [hresult (List.cons_ne_nil _ _)] at hread
      simpa [readable] using hread
  refine ⟨h.shaped, h.streamed, h.ordered, hinput, ?_, fun hc => ?_⟩
  · obtain ⟨rest, hrest⟩ := hprefix
    show (s.receiver.handleRead page l).received ++ s.wire.drop _ = _
    rw [hreceived, ← h.wire, ← hrest, List.drop_left, List.append_assoc]
  · have hend : s.wire = [] ∧ s.ended := by
      rcases hclosed with hsame | hzero
      · exact h.closed (hsame ▸ hc)
      · rw [hzero] at hread
        simpa [readable] using hread
    refine ⟨?_, hend.2⟩
    show s.wire.drop _ = []
    rw [hend.1, List.drop_nil]

theorem Piped.step {page : Nat} {l : PipeLabel T} {s t : TcpPipe T} (h : Piped s)
    (ht : TcpPipe.step page l s = some t) : Piped t := by
  cases l with
  | send l =>
    simp only [TcpPipe.step, Option.ite_none_left_eq_some] at ht
    obtain ⟨hlive, ht⟩ := ht
    obtain ⟨c, hc, hopen⟩ := Option.bind_eq_some_iff.mp ht
    simp only [Option.ite_none_left_eq_some, Option.some.injEq] at hopen
    obtain ⟨hopen, rfl⟩ := hopen
    exact h.send hc (Bool.eq_false_of_not_eq_true hlive) hopen
  | destroy =>
    simp only [TcpPipe.step, Option.ite_none_left_eq_some, Option.some.injEq] at ht
    obtain ⟨-, rfl⟩ := ht
    exact ⟨h.shaped, h.streamed, h.ordered, h.input, h.wire,
      fun hclosed => ⟨(h.closed hclosed).1, .inl rfl⟩⟩
  | receive l =>
    simp only [TcpPipe.step, Option.ite_none_right_eq_some] at ht
    obtain ⟨hread, ht⟩ := ht
    obtain ⟨r, hr, rfl⟩ := Option.map_eq_some_iff.mp ht
    exact h.receive hr hread

end TcpPipe

end Lizlib
