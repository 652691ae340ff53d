import Lizlib.Data.Owners
import Lizlib.Transition

/-!
# The TCP client

A `TcpClient` and every thread that runs a part of it: callers of `Start`, `Close` and `Shutdown`,
and the loops on which retries and `OnClose` run.  A thread is a stack of `TcpClientAct`s, each of
which touches shared state once.  A `Socket` is an object with a scope: `destroy` stands where its
scope ends, and a retry holds a reference to the parameter of the `tryConnect` that has scheduled it.

Of the connection, the model keeps whether `conn_` is null and which operations are called on it.
The environment answers what `::connect` returns and what the handler calls from inside `OnClose`.

The fields after `started` are observations; no step of the code reads them.
-/

namespace Lizlib

inductive TcpClientState where
  | kOffline
  | kConnecting
  | kConnected
  | kDisconnecting
  | kDisconnected
  deriving DecidableEq

/-- The code of the `Status` of `::connect`. -/
inductive ConnectStatus where
  | ok
  | EINPROGRESS
  | EINTR
  | EISCONN
  | EAGAIN
  | EADDRNOTAVAIL
  | ECONNREFUSED
  | ENETUNREACH
  | EACCES
  | EADDRINUSE
  | EPERM
  | EAFNOSUPPORT
  | EALREADY
  | EBADF
  | EFAULT
  | ENOTSOCK
  /-- An unexpected error. -/
  | other (code : Nat)
  deriving DecidableEq

/-- Where `tryConnect` goes with it. -/
inductive ConnectCase where
  | success
  | retry
  | failure
  deriving DecidableEq

/-- The `switch` of `tryConnect`. -/
def ConnectStatus.switch : ConnectStatus → ConnectCase
  | ok | EINPROGRESS | EINTR | EISCONN => .success
  | EAGAIN | EADDRNOTAVAIL | ECONNREFUSED | ENETUNREACH => .retry
  | EACCES | EADDRINUSE | EPERM | EAFNOSUPPORT | EALREADY | EBADF | EFAULT | ENOTSOCK => .failure
  | other _ => .failure

/-- The operations that the client passes on to its connection. -/
inductive ClosingOp where
  | close
  | shutdown (close_read : Bool)
  deriving DecidableEq

/-- The public operations of a client that change its state. -/
inductive TcpClientApi where
  | start
  | closing (op : ClosingOp)
  deriving DecidableEq

/-- What a thread does in one step. -/
inductive TcpClientAct where
  | call (api : TcpClientApi)
  /-- The compare-exchange of `Start`. -/
  | start
  /-- `Socket client_socket = Socket::Create(…)` -/
  | create
  /-- `tryConnect(std::move(sock))` constructs its parameter. -/
  | tryConnect (sock : Nat)
  /-- `client_socket.Connect(dest_address_)` and the `switch`. -/
  | connect (client_socket : Nat)
  /-- The compare-exchange of `tryConnect`. -/
  | connected (client_socket : Nat)
  /-- `conn_ = std::make_shared<TcpConnection>(…, std::move(client_socket))` -/
  | makeConn (client_socket : Nat)
  /-- `conn_->SetHandler(internal_handler_)` and `conn_->Start()` -/
  | startConn
  /-- `worker_group_->SubmitAfter(…)` -/
  | submitAfter (client_socket : Nat)
  /-- `Socket own_sock = std::move(client_socket)` of a retry. -/
  | retry (client_socket : Nat)
  /-- The scope of a `Socket` ends. -/
  | destroy (sock : Nat)
  /-- The compare-exchange of `Close` and `Shutdown`. -/
  | disconnecting (op : ClosingOp)
  /-- `if (conn_)` -/
  | ifConn (op : ClosingOp)
  /-- `conn_->Close()` or `conn_->Shutdown(close_read)` -/
  | onConn (op : ClosingOp)
  /-- `custom_handler_->OnClose(ctx, now)` -/
  | customOnClose
  /-- `client_->state_ = TcpClientState::kDisconnected` -/
  | disconnected
  /-- `client_->conn_.reset()` -/
  | resetConn
  deriving DecidableEq

/-- Why the behaviour is undefined. -/
inductive TcpClientFatal where
  /-- A `Socket` is moved from after its scope has ended. -/
  | danglingSocket
  /-- An operation is called on `conn_ == nullptr`. -/
  | nullConn
  deriving DecidableEq

/-- What the environment answers during one act. -/
structure TcpClientEnv where
  connect : ConnectStatus
  /-- What the handler calls from inside `OnClose`. -/
  calls : List TcpClientApi

/-- A call of `::connect`. -/
structure ConnectAttempt where
  /-- The descriptor of the socket is open. -/
  isOpen : Bool
  status : ConnectStatus
  deriving DecidableEq

/-- A call of `Close` or `Shutdown` that has returned. -/
structure ClosingCall where
  op : ClosingOp
  /-- It has made the transition from `kConnected`. -/
  won : Bool
  /-- What it has called on the connection. -/
  issued : List ClosingOp
  deriving DecidableEq

/-- A client with the threads `W`. -/
structure TcpClient (W : Type*) where
  state_ : TcpClientState
  /-- `conn_ != nullptr` -/
  conn_ : Bool
  /-- The `Socket` objects and the descriptors. -/
  sockets : Owners Nat
  /-- The retries on a timer, each with the `Socket` it refers to. -/
  retries : List Nat
  stack : W → List TcpClientAct
  /-- `conn_->Start()` has been called. -/
  started : Bool
  attempts : List ConnectAttempt
  /-- The number of connections that have been made. -/
  connections : Nat
  returned : List ClosingCall
  fatal : Option TcpClientFatal

/-- Who moves. -/
inductive TcpClientLabel (W : Type*) where
  /-- A thread calls a public operation. -/
  | call (w : W) (api : TcpClientApi)
  /-- The next act of a thread. -/
  | act (w : W) (env : TcpClientEnv)
  /-- The timer of one of the retries goes off. -/
  | timer (w : W) (i : Nat)
  /-- The connection calls `OnClose` of its handler. -/
  | onClose (w : W)

namespace TcpClient

variable {W : Type*}

/-- `Socket own_sock = std::move(sock)` or the parameter of `tryConnect`: the next acts are those of
`use` on the new object, up to the end of its scope. -/
def moveSocket (s : TcpClient W) (sock : Nat) (use : Nat → List TcpClientAct) :
    TcpClient W × List TcpClientAct :=
  match s.sockets.move sock with
  | none => ({ s with fatal := some .danglingSocket }, [])
  | some sockets => ({ s with sockets := sockets }, use s.sockets.constructed)

/-- One act: what it changes, and what the thread does next. -/
def act (env : TcpClientEnv) (s : TcpClient W) : TcpClientAct → TcpClient W × List TcpClientAct
  | .call .start => (s, [.start])
  | .call (.closing op) => (s, [.disconnecting op])
  | .start =>
    if s.state_ = .kOffline then ({ s with state_ := .kConnecting }, [.create]) else (s, [])
  | .create =>
    -- a descriptor goes by the number of the object it is created for
    ({ s with sockets := s.sockets.construct s.sockets.constructed },
      [.tryConnect s.sockets.constructed, .destroy s.sockets.constructed])
  | .tryConnect sock => s.moveSocket sock fun client_socket =>
      [.connect client_socket, .destroy client_socket]
  | .connect client_socket =>
    ({ s with attempts := s.attempts ++ [⟨s.sockets.holdsOpen client_socket, env.connect⟩] },
      match env.connect.switch with
      | .success => [.connected client_socket]
      | .retry => [.submitAfter client_socket]
      | .failure => [])
  | .connected client_socket =>
    if s.state_ = .kConnecting then
      ({ s with state_ := .kConnected }, [.makeConn client_socket])
    else (s, [])
  | .makeConn client_socket =>
    match s.sockets.move client_socket with
    | none => ({ s with fatal := some .danglingSocket }, [])
    | some sockets =>
      ({ s with sockets := sockets, conn_ := true, connections := s.connections + 1 }, [.startConn])
  | .startConn => ({ s with started := true }, [])
  | .submitAfter client_socket => ({ s with retries := s.retries ++ [client_socket] }, [])
  | .retry client_socket => s.moveSocket client_socket fun own_sock =>
      [.tryConnect own_sock, .destroy own_sock]
  | .destroy sock => ({ s with sockets := s.sockets.destroy sock }, [])
  | .disconnecting op =>
    if s.state_ = .kConnected then
      ({ s with state_ := .kDisconnecting, returned := s.returned ++ [⟨op, true, []⟩] }, [])
    else (s, [.ifConn op])
  | .ifConn op =>
    if s.conn_ then (s, [.onConn op])
    else ({ s with returned := s.returned ++ [⟨op, false, []⟩] }, [])
  | .onConn op =>
    ({ s with
        returned := s.returned ++ [⟨op, false, [op]⟩]
        fatal := if s.conn_ then s.fatal else some .nullConn }, [])
  | .customOnClose => (s, env.calls.map .call)
  | .disconnected => ({ s with state_ := .kDisconnected }, [])
  | .resetConn => ({ s with conn_ := false }, [])

/-- A client that has been constructed. -/
def new : TcpClient W where
  state_ := .kOffline
  conn_ := false
  sockets := .empty
  retries := []
  stack _ := []
  started := false
  attempts := []
  connections := 0
  returned := []
  fatal := none

variable [DecidableEq W]

/-- The idle thread `w` begins with `acts`. -/
def begin (s : TcpClient W) (w : W) (acts : List TcpClientAct) : Option (TcpClient W) :=
  if s.stack w = [] then some { s with stack := Function.update s.stack w acts } else none

/-- One step of the system; none once the behaviour is undefined. -/
def step (l : TcpClientLabel W) (s : TcpClient W) : Option (TcpClient W) :=
  if s.fatal ≠ none then none
  else match l with
    | .call w api => s.begin w [.call api]
    | .act w env =>
      match s.stack w with
      | [] => none
      | a :: rest =>
        some { (s.act env a).1 with
          stack := Function.update s.stack w ((s.act env a).2 ++ rest) }
    | .timer w i =>
      match s.retries[i]? with
      | none => none
      | some sock => { s with retries := s.retries.eraseIdx i }.begin w [.retry sock]
    | .onClose w =>
      if s.started then s.begin w [.customOnClose, .disconnected, .resetConn] else none

end TcpClient

/-- A client with any number of threads, interleaved act by act. -/
def tcpClient (W : Type*) [DecidableEq W] : System (TcpClient W) (TcpClientLabel W) where
  init s := s = TcpClient.new
  step := TcpClient.step

end Lizlib
