import PhaseHost.Variant.Basic

/-! # Why a load fails

    A module is fetched, compiled and instantiated; the error says which of
    these failed and for what. -/

namespace PhaseHost

/-- Why a variant could not be loaded. -/
inductive LoadError where
  /-- The bytes could not be had from a location. -/
  | fetch (location message : String)
  /-- The bytes are no module. -/
  | compile (key : CacheKey) (message : String)
  /-- The module could not be brought to life. -/
  | instantiate (key : CacheKey) (message : String)
  deriving DecidableEq, Repr

namespace LoadError

/-- The name of the stage that failed. -/
def stage : LoadError → String
  | .fetch _ _ => "fetch"
  | .compile _ _ => "compile"
  | .instantiate _ _ => "instantiate"

/-- What the stage was about. -/
def subject : LoadError → String
  | .fetch location _ => location
  | .compile key _ => key.text
  | .instantiate key _ => key.text

/-- The reason alone. -/
def reason : LoadError → String
  | .fetch _ message => message
  | .compile _ message => message
  | .instantiate _ message => message

/-- The wording of the error. -/
def message (e : LoadError) : String :=
  e.stage ++ " " ++ e.subject ++ " failed: " ++ e.reason

end LoadError
end PhaseHost
