import PhaseHost.Loader.Fault
import PhaseHost.Store.Basic
import PhaseHost.Wire.Payload

/-! # Capabilities

    A capability is what a loaded module can do.  Its calls may change it, they
    may fail with a text, and they may break down. -/

namespace PhaseHost

/-- How a call of a capability ends. -/
inductive CallOutcome (α : Type) where
  | answered (value : α)
  /-- The module reports an error. -/
  | failed (text : String)
  /-- The call broke down, possibly with a message. -/
  | brokeDown (message : Option String)
  deriving DecidableEq, Repr

/-- A call that takes and leaves a capability with states in `κ`. -/
abbrev Calling (κ α : Type) := κ → CallOutcome α × κ

/-- A way of making capabilities from modules, and of calling them. -/
structure Runtime (κ : Type) where
  /-- Bring a module to life. -/
  instantiate : Variant → Bytes → Except LoadError κ
  unify : UnifyPayload → Calling κ String
  validate : ValidatePayload → Calling κ Bool
  format : CodePayload → Calling κ String
  parse : CodePayload → Calling κ String
  /-- The list of symbols, as a text. -/
  getSymbols : CodePayload → Calling κ String
  exportAs : ExportPayload → Calling κ String

/-- What a loader works with: a store of module bytes and a runtime. -/
structure Backend (σ κ : Type) where
  store : Store σ
  runtime : Runtime κ

end PhaseHost
