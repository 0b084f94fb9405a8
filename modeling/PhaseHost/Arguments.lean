import PhaseHost.Settings

/-! # Command-line arguments

    Arguments are taken in order and override the environment.  The argument
    behind `--data-dir` is its value, whatever it looks like. -/

namespace PhaseHost

/-- Why arguments are refused. -/
inductive ArgumentError where
  /-- A flag stands last that needs a value. -/
  | missingValue (flag : String)
  | unknownFlag (flag : String)
  deriving DecidableEq, Repr

/-- The wording of an error. -/
def ArgumentError.message : ArgumentError → String
  | .missingValue flag => flag ++ " requires a value"
  | .unknownFlag flag => "unknown flag: " ++ flag

/-- What is said about refused arguments. -/
def ArgumentError.complaint (e : ArgumentError) : String :=
  "Error: " ++ e.message ++ "\n"

namespace Settings

/-- The flag that names the data directory. -/
def dataDirFlag : String := "--data-dir"

/-- The flag that keeps modules in memory only. -/
def noCacheFlag : String := "--no-cache"

/-- Settings overridden by arguments. -/
def withArguments (s : Settings) : List String → Except ArgumentError Settings
  | [] => .ok s
  | [flag] =>
    if flag = dataDirFlag then .error (.missingValue flag)
    else if flag = noCacheFlag then .ok { s with cacheDisabled := true }
    else .error (.unknownFlag flag)
  | flag :: value :: rest =>
    if flag = dataDirFlag then withArguments { s with dataDir := Path.ofText value } rest
    else if flag = noCacheFlag then withArguments { s with cacheDisabled := true } (value :: rest)
    else .error (.unknownFlag flag)

end Settings
end PhaseHost
