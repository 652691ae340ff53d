import Lizlib.Common.Equiv.BufferGrowth
import Lizlib.Net.BufferSend
import Lizlib.Net.Equiv.OutputStream

/-!
# What `Send(Buffer*)` means on either thread

On the loop's thread the readable bytes are copied and the buffer is reset.  From another thread
the buffer stays as it is, and what the task copies is what the memory holds when it runs: the
caller can have overwritten it (`overwrite`), and if the buffer is `output_`, its bytes are added a
second time.  So the two agree exactly where there is nothing to send and nothing to reset
(`sameMeaning_iff`).
-/

namespace Lizlib

/-! ### Appending without memory -/

namespace Buffer

/-- No block is too large if there is none. -/
theorem none_of_large (n : Nat) (_ : 2 ^ 63 ≤ n) : (fun _ => none : Alloc) n = none := rfl

/-- An allocator that always fails. -/
def noMemory : Memory := ⟨fun _ => none, none_of_large⟩

/-- Without memory `Append` copies the bytes into the block it has, or fails. -/
theorem WellFormed.append_noMemory {b : Buffer} (h : b.WellFormed) {data : Source} {l : List UInt8}
    (hfetch : b.fetch data l.length = .ok l) {c : Buffer}
    (hc : b.append data l.length false false noMemory.1 = .ok (c, l.length)) :
    c.readable = b.readable ++ l := by
  by_cases hroom : b.w_idx_ + l.length ≤ b.length_
  · rw [h.append_room hroom (Or.inr hfetch)] at hc
    obtain ⟨rfl, -⟩ := Prod.mk.inj (Except.ok.inj hc)
    exact h.readable_written hroom
  · unfold Buffer.append at hc
    rw [h.ensureWritable_eq, if_neg hroom, if_neg (by simp)] at hc
    cases hn : b.newLength l.length false with
    | none =>
      rw [hn] at hc
      cases hc
    | some n =>
      rw [hn] at hc
      obtain ⟨-, hret⟩ := Prod.mk.inj (Except.ok.inj hc)
      have hneg : (-1 : Int) = l.length := hret
      omega

theorem WellFormed.readableBytes_eq_zero {b : Buffer} (h : b.WellFormed) (hnil : b.readable = []) :
    b.readableBytes = 0 := by
  rw [h.readableBytes_eq, ← h.length_readable, hnil, List.length_nil]

/-- Bytes up to `WIndex()`, other ones than the readable. -/
def otherBytes (b : Buffer) : List UInt8 :=
  List.replicate b.r_idx_ 0 ++ b.readable.map (· + 1)

/-- `Reset`, and other bytes over the readable ones. -/
def overwrite (b : Buffer) : List BufferOp :=
  [.reset, .append (.bytes b.otherBytes) (Fin.ofNat (2 ^ 64) b.w_idx_) false false noMemory.1]

section Overwrite

variable {b : Buffer} (h : b.WellFormed)

include h

theorem WellFormed.length_otherBytes : b.otherBytes.length = b.w_idx_ := by
  have hrw := h.r_le_w
  unfold otherBytes
  rw [List.length_append, List.length_replicate, List.length_map, h.length_readable]
  omega

theorem WellFormed.runAll_overwrite (page : Nat) :
    BufferOp.runAll page b.overwrite b = .ok (b.reset.written b.otherBytes) := by
  have hlen := h.length_otherBytes
  have hsize : (Fin.ofNat (2 ^ 64) b.w_idx_).1 = b.w_idx_ := Nat.mod_eq_of_lt h.w_lt
  have hroom : b.reset.w_idx_ + b.otherBytes.length ≤ b.reset.length_ := by
    have hw := h.w_le_length
    show 0 + b.otherBytes.length ≤ b.length_
    omega
  have hfetch : b.reset.fetch (.bytes b.otherBytes) b.otherBytes.length = .ok b.otherBytes := by
    unfold fetch
    simp
  have happend := h.reset.append_room hroom (Or.inr hfetch) false false noMemory.1
  rw [hlen] at happend
  have hrun : BufferOp.run page b.reset (.append (.bytes b.otherBytes)
      (Fin.ofNat (2 ^ 64) b.w_idx_) false false noMemory.1) = .ok (b.reset.written b.otherBytes) := by
    show (b.reset.append (.bytes b.otherBytes) (Fin.ofNat (2 ^ 64) b.w_idx_).1 false false
      noMemory.1).map Prod.fst = _
    rw [hsize, happend]
    rfl
  unfold overwrite BufferOp.runAll
  rw [show BufferOp.run page b .reset = .ok b.reset from rfl, ok_bind]
  unfold BufferOp.runAll
  rw [hrun]
  rfl

/-- The view is not dangling, and there are other bytes behind it. -/
theorem WellFormed.fetch_overwrite (hne : b.readable ≠ []) (c : Buffer) :
    (b.reset.written b.otherBytes).data_.map Block.addr = b.data_.map Block.addr ∧
      c.fetch (.other (b.reset.written b.otherBytes).data_ b.r_idx_) b.readable.length =
        .ok (b.readable.map (· + 1)) := by
  have hlen := h.length_readable
  have hpos : 0 < b.readable.length := List.length_pos_iff.mpr hne
  have hw := h.w_le_length
  obtain ⟨m, hm, hsize⟩ := h.exists_data (by omega)
  have hdata : (b.reset.written b.otherBytes).data_ = some (m.write 0 b.otherBytes) := by
    show b.data_.map _ = _
    rw [hm]
    rfl
  have hslice : (m.write 0 b.otherBytes).slice b.r_idx_ b.readable.length =
      b.readable.map (· + 1) := by
    have hself := (m.write 0 (List.replicate b.r_idx_ 0)).slice_write_self b.r_idx_
      (b.readable.map (· + 1))
    have hwrite := m.write_append 0 (List.replicate b.r_idx_ 0) (b.readable.map (· + 1))
    rw [List.length_replicate, Nat.zero_add] at hwrite
    rw [hwrite, List.length_map] at hself
    exact hself
  rw [hdata]
  constructor
  · rw [hm]
    rfl
  · unfold fetch
    dsimp only
    have hle : b.r_idx_ + b.readable.length ≤ (m.write 0 b.otherBytes).size := by
      rw [Block.size_write]
      omega
    rw [Option.bind_some, Block.load_eq_some _ hle, hslice]

end Overwrite

end Buffer

namespace BufferSender

variable {T : Type*}

/-- The buffer that is handed to `Send`. -/
def given (s : BufferSender T) : Buffer := s.buf.getD s.conn.output_

/-- The bytes `Send` has to add to the output stream: those readable in the buffer, but the bytes of
`output_` are there already. -/
def payload (s : BufferSender T) : List UInt8 := (s.buf.map Buffer.readable).getD []

/-- `Send` has added the payload to `output_`, as the caller's own operations leave it. -/
def Added (page : Nat) (ops : List BufferOp) (s : BufferSender T) :
    Except SendStop (BufferSender T) → Prop
  | .ok t => ∀ s', s.use page ops = .ok s' →
      t.conn.output_.readable = s'.conn.output_.readable ++ s.payload
  | .error (.caller _) => True
  | .error (.send _) => False

/-- **`Send(Buffer*)` means the same from every thread**: it adds the payload, and the caller finds
the buffer in the same state, whatever the caller does with the buffer after the call. -/
structure SameMeaning (page : Nat) (s : BufferSender T) : Prop where
  bytes : ∀ under ops memory, (∀ op ∈ ops, op ≠ .clear) →
    Added page ops s (s.sendThen page under ops memory)
  effect : ∀ ops memory t t', (∀ op ∈ ops, op ≠ .clear) →
    s.sendThen page true ops memory = .ok t → s.sendThen page false ops memory = .ok t' →
      t.given = t'.given

/-- There is nothing to send, and nothing to reset. -/
def Nothing (s : BufferSender T) : Prop :=
  match s.buf with
  | none => s.conn.output_.readable = []
  | some b => b.r_idx_ = 0 ∧ b.w_idx_ = 0

/-! ### Where there is nothing to send -/

theorem handleSend_empty (s : BufferSender T) {v : View} (hv : v.size = 0) (memory : Memory) :
    s.handleSend v memory = .ok s := by
  unfold handleSend
  rw [if_pos hv, ite_self]

theorem use_queued (page : Nat) (ops : List BufferOp) (s : BufferSender T) (q : Option View) :
    use page ops { s with queued := q } =
      (s.use page ops).map fun t => { t with queued := q } := by
  obtain ⟨conn, buf, queued⟩ := s
  cases buf with
  | none =>
    show (BufferOp.runAll page ops conn.output_).map _ =
      ((BufferOp.runAll page ops conn.output_).map _).map _
    cases BufferOp.runAll page ops conn.output_ <;> rfl
  | some b =>
    show (BufferOp.runAll page ops b).map _ = ((BufferOp.runAll page ops b).map _).map _
    cases BufferOp.runAll page ops b <;> rfl

/-- A call that has done nothing, or has queued an empty view. -/
theorem sendThen_of_send {s : BufferSender T} {under : Bool} {memory : Memory} {q : Option View}
    (hq : ∀ v ∈ q, v.size = 0) (hs : s.queued = none)
    (hsend : s.send under memory = .ok { s with queued := q }) (page : Nat) (ops : List BufferOp) :
    s.sendThen page under ops memory = (s.use page ops).mapError .caller := by
  unfold sendThen
  rw [hsend]
  show ((use page ops { s with queued := q }).mapError SendStop.caller >>= _) = _
  have huse := use_queued page ops s none
  rw [show ({ s with queued := none } : BufferSender T) = s by rw [← hs]] at huse
  rw [use_queued]
  cases hrun : s.use page ops with
  | error f => rfl
  | ok t =>
    rw [hrun] at huse
    have ht : { t with queued := none } = t := (Except.ok.inj huse).symm
    show (task memory { t with queued := q }).mapError SendStop.send = .ok t
    cases q with
    | none => exact congrArg Except.ok ht
    | some v =>
      show (handleSend v memory { t with queued := none }).mapError SendStop.send = .ok t
      rw [ht, handleSend_empty t (hq v rfl)]
      rfl

/-- With nothing to send, the call does nothing on the loop's thread. -/
theorem send_of_nothing {s : BufferSender T} (h : s.Nothing) (hwf : s.given.WellFormed)
    (memory : Memory) : s.send true memory = .ok s := by
  unfold Nothing at h
  unfold given at hwf
  unfold send
  rw [if_pos rfl]
  cases hb : s.buf with
  | none =>
    rw [hb] at h hwf
    have hsize : s.conn.output_.readableBytes = 0 := hwf.readableBytes_eq_zero h
    dsimp only
    rw [if_neg (not_not.mpr hsize)]
  | some b =>
    rw [hb] at h hwf
    obtain ⟨hr, hw⟩ := h
    have hsize : b.readableBytes = 0 := by
      have heq : b.readableBytes = b.w_idx_ - b.r_idx_ := hwf.readableBytes_eq
      omega
    have hreset : b.reset = b := by
      cases b
      cases hr
      cases hw
      rfl
    dsimp only
    rw [handleSend_empty s hsize, hreset, ← hb]
    rfl

theorem Nothing.readable {s : BufferSender T} (h : s.Nothing) (hwf : s.given.WellFormed) :
    s.given.readable = [] := by
  unfold Nothing at h
  unfold given at hwf ⊢
  cases hb : s.buf with
  | none =>
    rw [hb] at h
    exact h
  | some b =>
    rw [hb] at h hwf
    have hlen : b.readable.length = b.w_idx_ - b.r_idx_ := hwf.length_readable
    rw [h.1, h.2] at hlen
    exact List.length_eq_zero_iff.mp hlen

theorem payload_eq_nil {s : BufferSender T} (h : s.given.readable = []) : s.payload = [] := by
  unfold given at h
  unfold payload
  cases hb : s.buf with
  | none => rfl
  | some b =>
    rw [hb] at h
    exact h

theorem sameMeaning_of_nothing {s : BufferSender T} (h : s.Nothing) (hwf : s.given.WellFormed)
    (hs : s.queued = none) (page : Nat) : SameMeaning page s := by
  have hread := h.readable hwf
  have hboth : ∀ under ops memory,
      s.sendThen page under ops memory = (s.use page ops).mapError .caller := by
    intro under ops memory
    cases under with
    | true =>
      refine sendThen_of_send (q := none) (fun v hv => by cases hv) hs ?_ page ops
      rw [send_of_nothing h hwf, ← hs]
    | false =>
      refine sendThen_of_send (q := some s.given.view) ?_ hs rfl page ops
      intro v hv
      cases hv
      exact hwf.readableBytes_eq_zero hread
  constructor
  · intro under ops memory _
    rw [hboth]
    cases hrun : s.use page ops with
    | error f => exact trivial
    | ok t =>
      intro t' ht'
      obtain rfl := Except.ok.inj (hrun.symm.trans ht')
      rw [payload_eq_nil hread, List.append_nil]
  · intro ops memory t t' _ ht ht'
    rw [hboth] at ht ht'
    rw [Except.ok.inj (ht.symm.trans ht')]

/-! ### Where there is something -/

/-- What the task appends, without memory: the bytes that are in the block by then. -/
theorem not_added_of_fetch {s t : BufferSender T} {v : View} {data : Source} {l : List UInt8}
    {page : Nat} {ops : List BufferOp} (hconn : t.conn.state_ = .kConnected)
    (hwf : t.conn.output_.WellFormed) (hdata : t.source v = .ok data) (hsize : v.size = l.length)
    (hpos : l ≠ []) (hfetch : t.conn.output_.fetch data l.length = .ok l)
    {s' : BufferSender T} (hs' : s.use page ops = .ok s')
    (hout : s'.conn.output_ = t.conn.output_) (hl : l ≠ s.payload) :
    ¬ Added page ops s ((t.handleSend v Buffer.noMemory).mapError .send) := by
  have hlen : 0 < l.length := List.length_pos_iff.mpr hpos
  unfold handleSend
  rw [if_neg (not_not.mpr hconn), if_neg (by omega), hdata, hsize]
  dsimp only
  cases happend : t.conn.output_.append data l.length false false Buffer.noMemory.1 with
  | error f => exact id
  | ok r =>
    obtain ⟨b, left_bytes⟩ := r
    dsimp only
    by_cases hleft : left_bytes = l.length
    · rw [if_pos hleft]
      intro hadded
      rw [hleft] at happend
      have hread : b.readable = s'.conn.output_.readable ++ s.payload := hadded s' hs'
      rw [hwf.append_noMemory hfetch happend, hout] at hread
      exact hl (List.append_cancel_left hread)
    · rw [if_neg hleft]
      exact id

/-- Off the loop's thread the view is taken first and followed last. -/
theorem sendThen_false {s t : BufferSender T} {page : Nat} {ops : List BufferOp}
    (ht : s.use page ops = .ok t) (memory : Memory) :
    s.sendThen page false ops memory =
      (handleSend s.given.view memory { t with queued := none }).mapError .send := by
  unfold sendThen
  rw [show s.send false memory = .ok { s with queued := some s.given.view } from rfl]
  show ((use page ops { s with queued := some s.given.view }).mapError SendStop.caller >>= _) = _
  rw [use_queued, ht]
  rfl

/-- The bytes of `output_` are added a second time. -/
theorem not_sameMeaning_output {conn : TcpConnection T} (hconn : conn.state_ = .kConnected)
    (hwf : conn.output_.WellFormed) (hne : conn.output_.readable ≠ []) (page : Nat) :
    ¬ SameMeaning page ⟨conn, none, none⟩ := by
  intro h
  have huse : use page [] (⟨conn, none, none⟩ : BufferSender T) = .ok ⟨conn, none, none⟩ := rfl
  have hadded := h.bytes false [] Buffer.noMemory (by simp)
  have hsize : conn.output_.readableBytes = conn.output_.readable.length := by
    rw [hwf.readableBytes_eq, hwf.length_readable]
  have hfetch := hwf.fetch_ownRPtr
  rw [hsize] at hfetch
  rw [sendThen_false huse] at hadded
  exact not_added_of_fetch hconn hwf rfl hsize hne hfetch huse rfl hne hadded

/-- The caller overwrites the bytes before the task copies them. -/
theorem not_sameMeaning_overwrite {conn : TcpConnection T} {b : Buffer}
    (hconn : conn.state_ = .kConnected) (hout : conn.output_.WellFormed) (hwf : b.WellFormed)
    (hne : b.readable ≠ []) (page : Nat) : ¬ SameMeaning page ⟨conn, some b, none⟩ := by
  intro h
  have huse : use page b.overwrite (⟨conn, some b, none⟩ : BufferSender T) =
      .ok ⟨conn, some (b.reset.written b.otherBytes), none⟩ := by
    show (BufferOp.runAll page b.overwrite b).map _ = _
    rw [hwf.runAll_overwrite]
    rfl
  have hadded := h.bytes false b.overwrite Buffer.noMemory (by simp [Buffer.overwrite])
  have hsize : b.readableBytes = (b.readable.map (· + 1)).length := by
    rw [hwf.readableBytes_eq, List.length_map, hwf.length_readable]
  obtain ⟨haddr, hfetch⟩ := hwf.fetch_overwrite hne conn.output_
  rw [← List.length_map (· + 1)] at hfetch
  have hother : b.readable.map (· + 1) ≠ b.readable := by
    intro heq
    obtain ⟨x, l, hx⟩ := List.exists_cons_of_ne_nil hne
    rw [hx, List.map_cons] at heq
    have hhead : x + 1 = x := (List.cons.inj heq).1
    simp at hhead
  have hsource : source b.view
      (⟨conn, some (b.reset.written b.otherBytes), none⟩ : BufferSender T) =
      .ok (.other (b.reset.written b.otherBytes).data_ b.r_idx_) := if_pos haddr
  rw [sendThen_false huse] at hadded
  exact not_added_of_fetch hconn hout hsource hsize (by simpa using hne) hfetch huse rfl hother
    hadded

/-- On the loop's thread the buffer is reset, and off it is not. -/
theorem reset_of_effect {conn : TcpConnection T} {b : Buffer} (hwf : b.WellFormed)
    (hread : b.readable = []) {page : Nat} (h : SameMeaning page ⟨conn, some b, none⟩) :
    b.r_idx_ = 0 ∧ b.w_idx_ = 0 := by
  have hsize : b.view.size = 0 := hwf.readableBytes_eq_zero hread
  have huse : ∀ c, use page [] (⟨conn, some c, none⟩ : BufferSender T) = .ok ⟨conn, some c, none⟩ :=
    fun _ => rfl
  have hunder : sendThen page true [] Buffer.noMemory ⟨conn, some b, none⟩ =
      .ok ⟨conn, some b.reset, none⟩ := by
    unfold sendThen send
    rw [if_pos rfl]
    dsimp only
    rw [handleSend_empty _ hsize]
    rfl
  have hoff : sendThen page false [] Buffer.noMemory ⟨conn, some b, none⟩ =
      .ok ⟨conn, some b, none⟩ := by
    rw [sendThen_false (huse b)]
    show (handleSend b.view Buffer.noMemory _).mapError SendStop.send = _
    rw [handleSend_empty _ hsize]
    rfl
  have heq : b.reset = b := h.effect [] Buffer.noMemory _ _ (by simp) hunder hoff
  exact ⟨congrArg Buffer.r_idx_ heq.symm, congrArg Buffer.w_idx_ heq.symm⟩

/-- **The exact condition**: `Send(Buffer*)` means the same from every thread if and only if there
is nothing to send and nothing to reset. -/
theorem sameMeaning_iff [DecidableEq T] {conn : TcpConnection T}
    (h : (tcpConnection T).Reachable conn) (hconn : conn.state_ = .kConnected)
    (buf : Option { b : Buffer // b.WellFormed }) (page : Nat) :
    SameMeaning page ⟨conn, buf.map Subtype.val, none⟩ ↔
      Nothing (⟨conn, buf.map Subtype.val, none⟩ : BufferSender T) := by
  have hout : conn.output_.WellFormed := (TcpConnection.streamed_of_reachable h).wellFormed
  cases buf with
  | none =>
    constructor
    · intro hsame
      by_contra hne
      exact not_sameMeaning_output hconn hout hne page hsame
    · intro hnothing
      exact sameMeaning_of_nothing hnothing hout rfl page
  | some b =>
    obtain ⟨b, hb⟩ := b
    constructor
    · intro hsame
      have hread : b.readable = [] := by
        by_contra hne
        exact not_sameMeaning_overwrite hconn hout hb hne page hsame
      exact reset_of_effect hb hread hsame
    · intro hnothing
      exact sameMeaning_of_nothing hnothing hb rfl page

/-- A started connection with nothing to write. -/
theorem exists_connected : ∃ conn : TcpConnection Unit,
    (tcpConnection Unit).Reachable conn ∧ conn.state_ = .kConnected ∧
      conn.output_.readable = [] := by
  have hrun : ∃ conn, (tcpConnection Unit).run (TcpConnection.runTask 2)
      (.start 0 fun _ => 0) = some conn ∧ conn.state_ = .kConnected ∧
        conn.output_.readable = [] := ⟨_, rfl, rfl, rfl⟩
  obtain ⟨conn, hconn, hstate, hempty⟩ := hrun
  exact ⟨conn, System.reachable_of_run ⟨0, fun _ => 0, rfl⟩ hconn, hstate, hempty⟩

/-- A buffer with one byte to send. -/
def oneByte : Buffer := { Buffer.sized 4 false 0 fun _ => 97 with w_idx_ := 1 }

theorem wellFormed_oneByte : oneByte.WellFormed := by
  constructor <;> simp [oneByte, Buffer.sized]

/-- `Send` means the same for an empty buffer and for `&output_` with nothing pending, and does not
for a buffer of one byte. -/
theorem sameMeaning_iff_oneByte : ∃ conn : TcpConnection Unit,
    (tcpConnection Unit).Reachable conn ∧ conn.state_ = .kConnected ∧
      SameMeaning 12 ⟨conn, some .default, none⟩ ∧ SameMeaning 12 ⟨conn, none, none⟩ ∧
      ¬ SameMeaning 12 ⟨conn, some oneByte, none⟩ := by
  obtain ⟨conn, hconn, hstate, hempty⟩ := exists_connected
  refine ⟨conn, hconn, hstate, ?_, ?_, ?_⟩
  · exact (sameMeaning_iff hconn hstate (some ⟨.default, Buffer.wellFormed_default⟩) 12).mpr
      ⟨rfl, rfl⟩
  · exact (sameMeaning_iff hconn hstate none 12).mpr hempty
  · refine (sameMeaning_iff hconn hstate (some ⟨oneByte, wellFormed_oneByte⟩) 12).not.mpr ?_
    rintro ⟨-, hw⟩
    exact absurd hw (by decide)

/-- The byte is another one when the task runs. -/
theorem oneByte_not_sameMeaning : ∃ conn : TcpConnection Unit,
    (tcpConnection Unit).Reachable conn ∧ conn.state_ = .kConnected ∧
      ¬ SameMeaning 12 ⟨conn, some oneByte, none⟩ := by
  obtain ⟨conn, hconn, hstate, -⟩ := exists_connected
  have hout := (TcpConnection.streamed_of_reachable hconn).wellFormed
  have hne : oneByte.readable ≠ [] := by decide
  exact ⟨conn, hconn, hstate, not_sameMeaning_overwrite hstate hout wellFormed_oneByte hne 12⟩

end BufferSender

end Lizlib
