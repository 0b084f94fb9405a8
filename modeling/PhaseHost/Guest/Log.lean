import PhaseHost.Guest.Memory
import PhaseHost.Variant.Basic

/-! # Lines a guest logs

    A guest names a range of its memory and a level.  Long lines are cut, and a
    range that leaves the memory after the cut is passed over in silence. -/

namespace PhaseHost

/-- How serious a line is. -/
inductive LogLevel where
  | trace
  | debug
  | info
  | warn
  | error
  deriving DecidableEq, Repr

namespace LogLevel

/-- The level of a number; a number without a meaning is a plain message. -/
def ofNumber (n : UInt32) : LogLevel :=
  if n = 0 then .trace
  else if n = 1 then .debug
  else if n = 3 then .warn
  else if n = 4 then .error
  else .info

/-- The name of a level. -/
def name : LogLevel → String
  | .trace => "trace"
  | .debug => "debug"
  | .info => "info"
  | .warn => "warn"
  | .error => "error"

end LogLevel

/-- A logged line, with the key of the guest it comes from. -/
structure LogLine where
  level : LogLevel
  key : CacheKey
  text : String
  deriving DecidableEq, Repr

/-- The number of bytes after which a line is cut. -/
def logMax : Nat := 10240

/-- The text of a range that a guest logs. -/
def Memory.logText? (m : Memory) (address length : UInt32) : Option String :=
  (m.read address.toNat (min length.toNat logMax)).map Utf8.lossy

end PhaseHost
