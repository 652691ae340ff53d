import Lizlib.Net.BufferSend
import Lizlib.Net.Equiv.TcpConnection

/-!
# What the callers of a connection share with its loop

The members of a connection are plain fields without a lock.  `confined`: a thread that is not the
loop's own never writes any of them but `state_`, and what it does depends on `state_` alone, so that
everything it wants done reaches the loop by way of the queue.  `Send(Buffer*)`, which is not among
the calls of a run, looks at the buffer it is given as well, and that may be `output_`.
-/

namespace Lizlib

variable {T : Type*}

namespace TcpConnection

open Function (update)

variable [DecidableEq T]

section

variable {s s' : TcpConnection T} {w : Option T} {a : TcpAct T}

end

/-! ### Sending a buffer -/

end TcpConnection

end Lizlib
