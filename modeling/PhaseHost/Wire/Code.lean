/-! # Codes of failed replies

    A failed reply says what kind of failure it reports, so that a client can
    tell "not yet" from "never". -/

namespace PhaseHost

/-- The kinds of failure. -/
inductive FailureCode where
  /-- Fetching, compiling or instantiating the module failed. -/
  | loadFailed
  /-- The action needs more of the module than is in place. -/
  | notReady
  /-- The module itself reported an error. -/
  | engineError
  /-- The frame is malformed or names no action. -/
  | protocolInvalid
  /-- A handler broke down. -/
  | runtimeFault
  deriving DecidableEq, Repr

/-- The code on the wire. -/
def FailureCode.text : FailureCode → String
  | .loadFailed => "Load.Failed"
  | .notReady => "Capability.NotReady"
  | .engineError => "Engine.Error"
  | .protocolInvalid => "Protocol.Invalid"
  | .runtimeFault => "Runtime.Fault"

end PhaseHost
