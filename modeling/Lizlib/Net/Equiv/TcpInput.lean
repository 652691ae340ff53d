import Lizlib.Common.Equiv.BufferFile
import Lizlib.Net.TcpInput

/-!
# The input stream of a connection

Whatever the handler does to the indices of the buffer it is given, the block stays as long as the
buffer says (`Buffer.Backed.runAll`), and the `Reset` after `OnRead` puts both indices back to zero.
So every `handleRead` reads into the front of a well-formed buffer, and hands over what the socket
has returned and nothing else (`inputStream`).
-/

namespace Lizlib

/-! ### What a handler leaves of the buffer -/

namespace Buffer

open BufferOp

/-- An operation, up to what it returns besides the buffer. -/
theorem ok_of_map {α β : Type*} {f : α → β} {r : Except Fault α} {c : β} (h : r.map f = .ok c) :
    ∃ a, r = .ok a ∧ f a = c := by
  cases r with
  | error e => cases h
  | ok a => exact ⟨a, rfl, Except.ok.inj h⟩

theorem Backed.run {b c : Buffer} (h : b.Backed) {page : Nat} {op : BufferOp}
    (hc : op.run page b = .ok c) : c.Backed := by
  cases op with
  | append data size capped drop alloc =>
    obtain ⟨a, ha, rfl⟩ := ok_of_map hc
    exact h.append ha
  | appendBasic v capped drop alloc =>
    obtain ⟨a, ha, rfl⟩ := ok_of_map hc
    exact h.appendBasic ha
  | appendSlice slice capped drop alloc alloc' =>
    obtain ⟨a, ha, rfl⟩ := ok_of_map hc
    exact h.appendSlice ha
  | appendBuffer buffer capped drop alloc alloc' =>
    obtain ⟨a, ha, rfl⟩ := ok_of_map hc
    exact h.appendBuffer ha
  | appendFile file read_bytes capped drop alloc =>
    obtain ⟨a, ha, rfl⟩ := ok_of_map hc
    exact h.appendFile ha
  | transfer source capped drop alloc alloc' =>
    obtain ⟨a, ha, rfl⟩ := ok_of_map hc
    exact h.transfer ha
  | transferTo dest capped drop alloc alloc' =>
    obtain ⟨a, ha, rfl⟩ := ok_of_map hc
    exact h.transfer_from ha
  | transferSelf capped drop alloc alloc' =>
    obtain ⟨a, ha, rfl⟩ := ok_of_map hc
    exact h.transferSelf ha
  | read size always =>
    obtain ⟨a, ha, rfl⟩ := ok_of_map hc
    exact h.read ha
  | readFile size written =>
    obtain ⟨a, ha, rfl⟩ := ok_of_map hc
    exact h.readFile ha
  | readBasic size =>
    obtain ⟨a, ha, rfl⟩ := ok_of_map hc
    exact h.readBasic ha
  | retrieve n always => exact h.retrieve hc
  | rearrange => exact h.rearrange hc
  | reset => exact Except.ok.inj hc ▸ h.reset.backed
  | clear => exact Except.ok.inj hc ▸ h.clear

/-- **Any handler** leaves a block of `length_` bytes. -/
theorem Backed.runAll {b c : Buffer} (h : b.Backed) {page : Nat} {ops : List BufferOp}
    (hc : BufferOp.runAll page ops b = .ok c) : c.Backed := by
  induction ops generalizing b with
  | nil => exact Except.ok.inj hc ▸ h
  | cons op ops ih =>
    obtain ⟨d, hd, hc⟩ := bind_eq_ok.mp hc
    exact ih (h.run hd) hc

end Buffer

namespace TcpInput

open Buffer

/-- **The input stream**: `OnRead` has been given what the socket has returned, `handleRead` itself
has not failed, and `input_` is empty between two calls. -/
def InputStream (s : TcpInput) : Prop :=
  s.handed = s.received ∧ (∀ f, s.fault ≠ some (.handleRead f)) ∧
    (s.fault = none → s.input_.r_idx_ = 0 ∧ s.input_.w_idx_ = 0 ∧ s.input_.readable = [])

/-- Between two calls `input_` is as after `Reset`. -/
structure Ready (b : Buffer) : Prop where
  wellFormed : b.WellFormed
  r_idx_ : b.r_idx_ = 0
  w_idx_ : b.w_idx_ = 0

theorem Ready.readable {b : Buffer} (h : Ready b) : b.readable = [] := by
  have hlen := h.wellFormed.length_readable
  rw [h.r_idx_, h.w_idx_] at hlen
  exact List.length_eq_zero_iff.mp hlen

theorem ready_reset {b : Buffer} (h : b.Backed) : Ready b.reset := ⟨h.reset, rfl, rfl⟩

/-- What stays true from one event to the next. -/
structure Inv (s : TcpInput) : Prop where
  handed : s.handed = s.received
  own : ∀ f, s.fault ≠ some (.handleRead f)
  ready : s.fault = none → Ready s.input_

theorem Inv.stream {s : TcpInput} (h : Inv s) : InputStream s := by
  refine ⟨h.handed, h.own, fun hnone => ?_⟩
  have hready := h.ready hnone
  exact ⟨hready.r_idx_, hready.w_idx_, hready.readable⟩

theorem Inv.start (addr : Nat) (cells : Nat → UInt8) : Inv (TcpInput.start addr cells) := by
  refine ⟨rfl, ?_, fun _ => ⟨?_, rfl, rfl⟩⟩
  · intro f hf
    cases hf
  have hlength : 1 <<< 14 < 2 ^ 64 := by decide
  exact wellFormed_sized hlength true cells

/-- **The handler** is given the bytes, and the buffer is reset after it. -/
theorem Inv.onRead (s : TcpInput) {bytes : List UInt8} (hown : ∀ f, s.fault ≠ some (.handleRead f))
    (hbytes : s.handed ++ bytes = s.received) (hback : s.input_.Backed) (page : Nat)
    (handler : List BufferOp) : Inv (s.onRead page handler bytes) := by
  have hhanded : (s.delivered ++ [Callback.onRead bytes]).flatMap Callback.handed = s.received := by
    rw [List.flatMap_append, ← hbytes]
    exact congrArg (s.handed ++ ·) (List.append_nil bytes)
  unfold TcpInput.onRead
  cases hops : BufferOp.runAll page handler s.input_ with
  | error f =>
    refine ⟨hhanded, ?_, ?_⟩
    · intro f' hf
      cases hf
    · intro hf
      cases hf
  | ok b => exact ⟨hhanded, hown, fun _ => ready_reset (hback.runAll hops)⟩

/-- Bytes have been read, and the handler finds them in the buffer. -/
theorem readDone_of_pos (s : TcpInput) {page : Nat} {l : InputLabel} {n : Int} {bytes : List UInt8}
    (hn : 0 < n) (hload : s.input_.load s.input_.r_idx_ s.input_.readableBytes = .ok bytes) :
    s.readDone page l n = onRead page l.handler bytes s := by
  unfold readDone
  rw [if_neg (by omega), if_neg (by omega), hload]

/-- **The read** goes to the front of an empty buffer: afterwards the buffer holds what the socket
has returned, `handleRead` knows how much that is, and zero bytes are the end of the stream. -/
theorem Ready.appendFile {s : TcpInput} (h : Ready s.input_) (page : Nat) (l : InputLabel) :
    ∃ c n, s.handleRead page l =
        readDone page l n { s with received := s.received ++ s.bytesRead l, input_ := c } ∧
      c.WellFormed ∧ c.r_idx_ = 0 ∧ c.readable = s.bytesRead l ∧
      (n = -1 ∧ s.bytesRead l = [] ∨
        n = (s.bytesRead l).length ∧ l.result = some (s.bytesRead l)) := by
  have hroom : s.input_.w_idx_ + kTcpRwUnit ≤ 2 ^ 63 := by
    rw [h.w_idx_]
    unfold kTcpRwUnit
    omega
  have hsize : (⟨l.size, l.result⟩ : FileRead).size ≤ 0 := Int.le_of_lt l.size_neg
  obtain ⟨c, n, hc, hwf, hzero, hread, hn⟩ := h.wellFormed.appendFile_front h.r_idx_ hroom
    hsize l.length_le page l.alloc
  rw [h.readable, List.nil_append] at hread
  refine ⟨c, n, ?_, hwf, hzero, hread, hn⟩
  unfold TcpInput.handleRead
  dsimp only
  rw [hc]

/-- **One event**: what the socket has returned is handed over, whatever the handler does with
it. -/
theorem Inv.handleRead {s : TcpInput} (h : Inv s) (hnone : s.fault = none) (page : Nat)
    (l : InputLabel) : Inv (s.handleRead page l) := by
  obtain ⟨c, n, heq, hwf, hzero, hread, hn⟩ := (h.ready hnone).appendFile page l
  have hindex := hwf.length_readable
  rw [heq]
  by_cases hend : s.bytesRead l = []
  · -- nothing has been read
    have hsame : s.received ++ s.bytesRead l = s.received := by rw [hend, List.append_nil]
    have hready : Ready c := by
      rw [hread, hend, List.length_nil] at hindex
      exact ⟨hwf, hzero, by omega⟩
    rcases hn with ⟨rfl, -⟩ | ⟨rfl, -⟩
    · have hnothing : (if l.again then [] else [Callback.onError]).flatMap Callback.handed = [] := by
        cases l.again <;> rfl
      unfold readDone
      rw [if_pos (by decide)]
      refine ⟨?_, h.own, fun _ => hready⟩
      show (s.delivered ++ if l.again then [] else [Callback.onError]).flatMap Callback.handed = _
      rw [List.flatMap_append, hnothing, List.append_nil, hsame]
      exact h.handed
    · have hlen : ((s.bytesRead l).length : Int) = 0 := by simp [hend]
      unfold readDone
      rw [if_neg (by omega), if_pos hlen]
      refine ⟨?_, h.own, fun _ => hready⟩
      show s.handed = s.received ++ s.bytesRead l
      rw [hsame]
      exact h.handed
  · have hpos : 0 < (s.bytesRead l).length := List.length_pos_iff.mpr hend
    obtain ⟨rfl, -⟩ := hn.resolve_left fun hnil => hend hnil.2
    have hload : c.load c.r_idx_ c.readableBytes = .ok (s.bytesRead l) := by
      rw [hwf.readableBytes_eq, hwf.load_readable, hread]
    rw [readDone_of_pos _ (by omega) hload]
    refine Inv.onRead { s with received := s.received ++ s.bytesRead l, input_ := c } h.own ?_
      hwf.backed page l.handler
    show s.handed ++ s.bytesRead l = s.received ++ s.bytesRead l
    rw [h.handed]

theorem Inv.step {page : Nat} {l : InputLabel} {s t : TcpInput} (h : Inv s)
    (ht : (tcpInput page).step l s = some t) : Inv t := by
  change TcpInput.step page l s = some t at ht
  unfold TcpInput.step at ht
  cases hf : s.fault with
  | some f =>
    rw [hf] at ht
    cases ht
  | none =>
    rw [hf] at ht
    obtain rfl := Option.some.inj ht
    exact h.handleRead hf page l

/-- **Integrity of the input stream**: for every sequence of readable events and read results and
every handler, `OnRead` is given the bytes the socket has returned, in order, and after every call
of `handleRead` the buffer is empty. -/
theorem inputStream (page addr : Nat) (cells : Nat → UInt8) (ls : List InputLabel) :
    (tcpInput page).AllStates InputStream ls (start addr cells) :=
  System.allStates_of_invariant (fun _ _ _ h ht => h.step ht) (fun _ h => h.stream) ls
    (Inv.start addr cells)

end TcpInput

end Lizlib
