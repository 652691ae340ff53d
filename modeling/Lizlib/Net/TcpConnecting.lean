import Lizlib.Net.TcpClient

/-!
# A client and the kernel's connection

`connect` on a non-blocking socket succeeds or fails at once, or goes on in the background and
succeeds or fails later.  `TcpConnecting` is a `TcpClient` with the connection as the kernel has it.
`conn_->Start()` waits until the loop has run the callback that calls `OnConnect`.  The log call
before it formats the connection, which ends the process unless the connection is established.

The fields after `ended` are observations; no step of the code reads them, but `Start` waits for
`onConnect`.
-/

namespace Lizlib

/-- The connection of a socket, as the kernel has it. -/
inductive Link where
  | idle
  /-- `connect` has returned and goes on in the background. -/
  | connecting
  | established
  | failed (error : ConnectStatus)
  deriving DecidableEq

/-- The connection after `::connect` has returned. -/
def ConnectStatus.link : ConnectStatus → Link
  | ok | EISCONN => .established
  | EINPROGRESS | EINTR => .connecting
  | error => .failed error

/-- A client, and the connection of its socket. -/
structure TcpConnecting (W : Type*) where
  client : TcpClient W
  link : Link
  /-- `LOG_FATAL` in `Socket::GetPeerAddress` has ended the process. -/
  ended : Bool
  /-- The connection at each transition of the client to `kConnected`. -/
  connected : List Link
  /-- The connection at each call of `OnConnect`. -/
  onConnect : List Link
  /-- `connect` has failed with an error that is to be retried, at once or later, and no retry has
  been submitted since. -/
  owed : Bool

/-- Who moves. -/
inductive ConnectingLabel (W : Type*) where
  | client (l : TcpClientLabel W)
  /-- The kernel establishes the connection. -/
  | establish
  /-- The kernel gives the connection up. -/
  | fail (error : ConnectStatus)
  /-- The loop runs the callback of the `Start` that thread `w` waits in; `info` is whether
  `log_level` lets a `LOG_INFO` evaluate its arguments. -/
  | onConnect (w : W) (info : Bool)

namespace TcpConnecting

variable {W : Type*}

/-- The act a step of the client executes, with the environment's answers. -/
def current (s : TcpConnecting W) : TcpClientLabel W → Option (TcpClientAct × TcpClientEnv)
  | .act w env => (s.client.stack w).head?.map fun a => (a, env)
  | _ => none

/-- What a step of the client does to the rest. -/
def observe (s : TcpConnecting W) (c : TcpClient W) :
    Option (TcpClientAct × TcpClientEnv) → TcpConnecting W
  | some (.connect _, env) => { s with
      client := c
      link := env.connect.link
      owed := s.owed || env.connect.switch = .retry }
  | some (.connected _, _) => { s with
      client := c
      connected := if s.client.state_ = .kConnecting then s.connected ++ [s.link] else s.connected }
  | some (.submitAfter _, _) => { s with client := c, owed := false }
  | _ => { s with client := c }

/-- `latch.Await()` in `Start` has not returned. -/
def awaits (s : TcpConnecting W) (l : TcpClientLabel W) : Bool :=
  match s.current l with
  | some (.startConn, _) => s.onConnect.isEmpty
  | _ => false

/-- A client that has been constructed. -/
def new : TcpConnecting W := ⟨.new, .idle, false, [], [], false⟩

variable [DecidableEq W]

/-- One step of the system; none once the behaviour of the client is undefined or the process has
ended. -/
def step (l : ConnectingLabel W) (s : TcpConnecting W) : Option (TcpConnecting W) :=
  if s.client.fatal ≠ none ∨ s.ended = true then none
  else match l with
    | .client l =>
      if s.awaits l then none
      else (s.client.step l).map fun c => s.observe c (s.current l)
    | .establish => if s.link = .connecting then some { s with link := .established } else none
    | .fail error =>
      if s.link = .connecting ∧ error.switch ≠ .success then
        some { s with link := .failed error, owed := s.owed || error.switch = .retry }
      else none
    | .onConnect w info =>
      match s.client.stack w with
      | .startConn :: _ =>
        if s.onConnect ≠ [] then none
        -- `getpeername` in `LOG_INFO("handleConnection {}", *self)`
        else if info = true ∧ s.link ≠ .established then some { s with ended := true }
        else some { s with onConnect := [s.link] }
      | _ => none

end TcpConnecting

/-- A client with any number of threads, and the kernel. -/
def tcpConnecting (W : Type*) [DecidableEq W] : System (TcpConnecting W) (ConnectingLabel W) where
  init s := s = TcpConnecting.new
  step := TcpConnecting.step

end Lizlib
