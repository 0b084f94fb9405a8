import PhaseHost.Loader.Fault
import PhaseHost.Wire.Code

/-! # Failures of an action

    Everything that can keep an action from its result, short of a breakdown. -/

namespace PhaseHost

/-- Why an action has no result. -/
inductive Failure where
  | load (error : LoadError)
  | notReady (text : String)
  | engine (text : String)
  | invalid (text : String)
  deriving DecidableEq, Repr

namespace Failure

/-- The code that tells the cause. -/
def code : Failure → FailureCode
  | .load _ => .loadFailed
  | .notReady _ => .notReady
  | .engine _ => .engineError
  | .invalid _ => .protocolInvalid

/-- The text that goes into the reply. -/
def message : Failure → String
  | .load error => error.message
  | .notReady text => text
  | .engine text => text
  | .invalid text => text

end Failure
end PhaseHost
