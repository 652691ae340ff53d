import Lizlib.Common.Buffer
import Lizlib.Net.TcpReceive

/-!
# The input buffer of a connection

`handleRead` reads into `input_`, hands the buffer to `OnRead` and resets it.  What the handler does
to the buffer is any sequence of `Buffer` operations (`BufferOp`), with any arguments and any answers
of the allocator.
-/

namespace Lizlib

/-- An operation of `Buffer`, with its flags and what the allocator answers. -/
inductive BufferOp where
  | append (data : Source) (size : Fin (2 ^ 64)) (capped drop_read_bytes : Bool) (alloc : Alloc)
  /-- `AppendBasic(v)`; `v` is the object representation. -/
  | appendBasic (v : List UInt8) (capped drop_read_bytes : Bool) (alloc : Alloc)
  | appendSlice (slice : Slice) (capped drop_read_bytes : Bool) (alloc alloc' : Alloc)
  /-- `Append(buffer)`, where `none` stands for `*this`. -/
  | appendBuffer (buffer : Option Buffer) (capped drop_read_bytes : Bool) (alloc alloc' : Alloc)
  | appendFile (file : FileRead) (read_bytes : Fin (2 ^ 63)) (capped drop_read_bytes : Bool)
    (alloc : Alloc)
  /-- `Transfer(source)` into this buffer. -/
  | transfer (source : Buffer) (capped drop_read_bytes : Bool) (alloc alloc' : Alloc)
  /-- `dest.Transfer(*this)` -/
  | transferTo (dest : Buffer) (capped drop_read_bytes : Bool) (alloc alloc' : Alloc)
  /-- `Transfer(*this)` -/
  | transferSelf (capped drop_read_bytes : Bool) (alloc alloc' : Alloc)
  | read (size : Int) (rearrange : Bool)
  | readFile (size : Int) (written : Option Nat)
  /-- `ReadBasic` of a type of `size` bytes -/
  | readBasic (size : Fin (2 ^ 63))
  | retrieve (n : Fin (2 ^ 64)) (rearrange : Bool)
  | rearrange
  | reset
  | clear

/-- What an operation does to the buffer. -/
def BufferOp.run (page : Nat) (b : Buffer) : BufferOp → Except Fault Buffer
  | append data size capped drop alloc => (b.append data size capped drop alloc).map Prod.fst
  | appendBasic v capped drop alloc => (b.appendBasic v capped drop alloc).map Prod.fst
  | appendSlice slice capped drop alloc alloc' =>
    (b.appendSlice slice capped drop alloc alloc').map Prod.fst
  | appendBuffer buffer capped drop alloc alloc' =>
    (b.appendBuffer buffer capped drop alloc alloc').map Prod.fst
  | appendFile file read_bytes capped drop alloc =>
    (b.appendFile page file read_bytes capped drop alloc).map Prod.fst
  | transfer source capped drop alloc alloc' =>
    (b.transfer source capped drop alloc alloc').map Prod.fst
  | transferTo dest capped drop alloc alloc' =>
    (dest.transfer b capped drop alloc alloc').map fun r => r.2.1
  | transferSelf capped drop alloc alloc' =>
    (b.transferSelf capped drop alloc alloc').map Prod.fst
  | read size always => (b.read size always).map Prod.fst
  | readFile size written => (b.readFile page size written).map Prod.fst
  | readBasic size => (b.readBasic size).map Prod.fst
  | retrieve n always => b.retrieve n always
  | rearrange => b.rearrange
  | reset => .ok b.reset
  | clear => .ok b.clear

/-- A handler's operations, one after the other. -/
def BufferOp.runAll (page : Nat) : List BufferOp → Buffer → Except Fault Buffer
  | [], b => .ok b
  | op :: ops, b => do runAll page ops (← op.run page b)

/-- Where an operation on `input_` has failed. -/
inductive InputFault where
  /-- In `handleRead` itself. -/
  | handleRead (fault : Fault)
  /-- In the handler. -/
  | handler (fault : Fault)

/-- A readable event, and what the environment answers. -/
structure InputLabel where
  /-- What `lseek` returns on a socket. -/
  size : Int
  size_neg : size < 0
  /-- What `read` or `readv` returns: `none` for `-1`, and otherwise the bytes it has copied. -/
  result : Option (List UInt8)
  length_le : ∀ l, result = some l → l.length ≤ kTcpRwUnit
  /-- `errno` is `EWOULDBLOCK` or `EAGAIN`. -/
  again : Bool
  alloc : Alloc
  /-- What the handler does to the buffer, if it is called. -/
  handler : List BufferOp

/-- A connection's `input_`. -/
structure TcpInput where
  input_ : Buffer
  /-- The bytes the socket has returned, in order. -/
  received : List UInt8
  /-- The calls of the handler. -/
  delivered : List Callback
  /-- `handleClose` has been called. -/
  closed : Bool
  fault : Option InputFault

/-- The readable bytes of one call of `OnRead`. -/
def Callback.handed : Callback → List UInt8
  | onRead buffer => buffer
  | onConnect | onWriteComplete | onError | onClose => []

namespace TcpInput

/-- The bytes handed to `OnRead`, over all calls. -/
def handed (s : TcpInput) : List UInt8 := s.delivered.flatMap Callback.handed

/-- `handler_->OnRead(…, input_)`, which finds `bytes` in the buffer, and `input_.Reset()`. -/
def onRead (page : Nat) (handler : List BufferOp) (bytes : List UInt8) (s : TcpInput) : TcpInput :=
  match BufferOp.runAll page handler s.input_ with
  | .error f =>
    { s with delivered := s.delivered ++ [.onRead bytes], fault := some (.handler f) }
  | .ok b => { s with delivered := s.delivered ++ [.onRead bytes], input_ := b.reset }

/-- `handleRead`, after `Append` has returned `n`. -/
def readDone (page : Nat) (l : InputLabel) (n : Int) (s : TcpInput) : TcpInput :=
  if n < 0 then { s with delivered := s.delivered ++ if l.again then [] else [.onError] }
  else if n = 0 then { s with closed := true }
  else
    match s.input_.load s.input_.r_idx_ s.input_.readableBytes with
    | .error f => { s with fault := some (.handleRead f) }
    | .ok bytes => onRead page l.handler bytes s

/-- What `read` or `readv` returns inside `input_.Append(channel_->GetFile(), kTcpRwUnit)`. -/
def bytesRead (l : InputLabel) (s : TcpInput) : List UInt8 :=
  s.input_.bytesRead ⟨l.size, l.result⟩ kTcpRwUnit false false l.alloc

/-- `handleRead` -/
def handleRead (page : Nat) (l : InputLabel) (s : TcpInput) : TcpInput :=
  -- whatever becomes of them, the socket has returned these bytes
  let s := { s with received := s.received ++ s.bytesRead l }
  match s.input_.appendFile page ⟨l.size, l.result⟩ kTcpRwUnit false false l.alloc with
  | .error f => { s with fault := some (.handleRead f) }
  | .ok (b, n) => readDone page l n { s with input_ := b }

/-- The connection as constructed. -/
def start (addr : Nat) (cells : Nat → UInt8) : TcpInput where
  input_ := Buffer.sized (1 <<< 14) true addr cells
  received := []
  delivered := []
  closed := false
  fault := none

/-- One readable event; none once an operation has failed. -/
def step (page : Nat) (l : InputLabel) (s : TcpInput) : Option TcpInput :=
  match s.fault with
  | some _ => none
  | none => some (s.handleRead page l)

end TcpInput

/-- A connection's readable events, with pages of `2 ^ page` bytes. -/
def tcpInput (page : Nat) : System TcpInput InputLabel where
  init s := ∃ addr cells, s = TcpInput.start addr cells
  step := TcpInput.step page

end Lizlib
