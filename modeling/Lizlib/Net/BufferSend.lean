import Lizlib.Net.TcpConnection
import Lizlib.Net.TcpInput

/-!
# Sending a buffer

`Send(Buffer*)` copies the readable bytes at once and resets the buffer when it is called from the
loop's thread; from another thread it queues a `std::string_view` of them.  `sendThen` is a call, what
the caller does to the buffer after it, and the queued task.
-/

namespace Lizlib

/-- A `std::string_view` into the block of a buffer, which had the address `base` then. -/
structure View where
  base : Option Nat
  offset : Nat
  size : Nat

/-- `{buf->RPtr(), static_cast<size_t>(buf->ReadableBytes())}` -/
def Buffer.view (b : Buffer) : View := ⟨b.data_.map Block.addr, b.r_idx_, b.readableBytes⟩

/-- A connection and the buffer that is handed to `Send`. -/
structure BufferSender (T : Type*) where
  conn : TcpConnection T
  /-- The buffer, `none` if it is `output_`. -/
  buf : Option Buffer
  /-- The view in a `handleSend` task on the loop's queue. -/
  queued : Option View

/-- Why the run of a call of `Send` ends early. -/
inductive SendStop where
  /-- In what the caller does with the buffer. -/
  | caller (fault : Fault)
  /-- In `handleSend`. -/
  | send (fatal : TcpFatal)

namespace BufferSender

variable {T : Type*}

/-- `SetWritable(true)`, up to the call of `Selector::Update`. -/
def setWritable (s : BufferSender T) : BufferSender T :=
  { s with conn := (s.conn.setEvents (SocketChannel.setWritable s.conn.events_ true)).1 }

/-- Where the bytes of a view are. -/
def source (v : View) (s : BufferSender T) : Except Fault Source :=
  match s.buf with
  | none => .ok (.own v.base v.offset)
  | some b =>
    if b.data_.map Block.addr = v.base then .ok (.other b.data_ v.offset) else .error .dangling

/-- `handleSend(buffer, flush)` -/
def handleSend (v : View) (memory : Memory) (s : BufferSender T) :
    Except TcpFatal (BufferSender T) :=
  if s.conn.state_ ≠ .kConnected then .ok s
  else if v.size = 0 then .ok s
  else
    match s.source v with
    | .error f => .error (.output f)
    | .ok data =>
      match s.conn.output_.append data v.size false false memory.1 with
      | .error f => .error (.output f)
      | .ok (b, left_bytes) =>
        if left_bytes = v.size then .ok (setWritable { s with conn := { s.conn with output_ := b } })
        else .error .outputFull

/-- `Send(buf, flush)`; `under` is what `EventLoop::CheckUnderLoop(loop_)` returns. -/
def send (under : Bool) (memory : Memory) (s : BufferSender T) : Except TcpFatal (BufferSender T) :=
  if under then
    match s.buf with
    | none => .ok (if s.conn.output_.readableBytes ≠ 0 then s.setWritable else s)
    | some b => (s.handleSend b.view memory).map fun t => { t with buf := some b.reset }
  else .ok { s with queued := some (s.buf.getD s.conn.output_).view }

/-- What the caller does with the buffer. -/
def use (page : Nat) (ops : List BufferOp) (s : BufferSender T) : Except Fault (BufferSender T) :=
  match s.buf with
  | none => (BufferOp.runAll page ops s.conn.output_).map fun b =>
      { s with conn := { s.conn with output_ := b } }
  | some b => (BufferOp.runAll page ops b).map fun b => { s with buf := some b }

/-- The queued task. -/
def task (memory : Memory) (s : BufferSender T) : Except TcpFatal (BufferSender T) :=
  match s.queued with
  | none => .ok s
  | some v => handleSend v memory { s with queued := none }

/-- A call of `Send`, what the caller does with the buffer after it, and the task it has queued. -/
def sendThen (page : Nat) (under : Bool) (ops : List BufferOp) (memory : Memory)
    (s : BufferSender T) : Except SendStop (BufferSender T) := do
  let s ← (s.send under memory).mapError .send
  let s ← (s.use page ops).mapError .caller
  (s.task memory).mapError .send

end BufferSender

end Lizlib
