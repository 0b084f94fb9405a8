import PhaseHost.Disk.Path
import PhaseHost.Json.Basic
import PhaseHost.Text.Blank

/-! # Settings

    The tunables of a host, read once from the environment.  A variable that is
    absent or cannot be read leaves its setting at the default; limits given in
    mebibytes stop at the largest sixty-four bit number. -/

namespace PhaseHost

/-- The variables of a process with their bytes. -/
abbrev Environment := Fields Bytes

namespace Environment

/-- The text of a variable; one that is not UTF-8 counts as absent. -/
def text? (env : Environment) (name : String) : Option String :=
  (Fields.find? name env).bind Utf8.decode?

/-- An environment of texts. -/
def ofTexts (pairs : List (String × String)) : Environment :=
  Fields.ofList (pairs.map (fun (name, value) => (name, Utf8.encode value)))

end Environment

/-- The largest number of sixty-four bits. -/
def wordMax : Nat := 0xFFFFFFFFFFFFFFFF

/-- The value of a decimal digit. -/
def decimalDigit? (c : Char) : Option Nat :=
  if c.isDigit then some (c.toNat - 48) else none

/-- The number that digits denote after those already taken. -/
def numberFrom? (value : Nat) : List Char → Option Nat
  | [] => some value
  | c :: rest =>
    match decimalDigit? c with
    | some d => numberFrom? (value * 10 + d) rest
    | none => none

/-- The number of one or more digits, possibly after a plus sign, below `2^64`. -/
def wordOfChars? (chars : List Char) : Option Nat :=
  let digits := match chars with
    | '+' :: rest => rest
    | rest => rest
  if digits.isEmpty then none
  else match numberFrom? 0 digits with
    | some n => if n ≤ wordMax then some n else none
    | none => none

/-- The number a text denotes, blanks at its ends aside. -/
def wordOfText? (s : String) : Option Nat :=
  wordOfChars? (Text.trim s).toList

/-- Whether a text means yes. -/
def isYes (s : String) : Bool :=
  (Text.trim s).map Char.toLower ∈ ["1", "true", "yes", "on"]

/-- Mebibytes as bytes, up to the largest word. -/
def mebibytes (n : Nat) : Nat :=
  min (n * 0x100000) wordMax

/-- The tunables of a host. -/
structure Settings where
  /-- The directory of the persistent store. -/
  dataDir : Path
  /-- Keep modules in memory only. -/
  cacheDisabled : Bool
  /-- The largest module that is accepted. -/
  maxModuleBytes : Nat
  /-- The fuel of one call. -/
  callFuel : Nat
  /-- The largest memory of a guest. -/
  memoryLimitBytes : Nat
  deriving DecidableEq, Repr

namespace Settings

/-- The default of the largest module, in mebibytes. -/
def defaultModuleMebibytes : Nat := 128

/-- The default of the largest memory, in mebibytes. -/
def defaultMemoryMebibytes : Nat := 1024

/-- The default fuel. -/
def defaultFuel : Nat := 10000000000

/-- The name of the directory below the platform's data directory. -/
def directoryName : String := "cue-worker"

/-- The name of the file that holds the persistent store. -/
def tableName : String := "modules.db"

/-- Default tunables over a directory. -/
def defaults (dataDir : Path) : Settings where
  dataDir := dataDir
  cacheDisabled := false
  maxModuleBytes := mebibytes defaultModuleMebibytes
  callFuel := defaultFuel
  memoryLimitBytes := mebibytes defaultMemoryMebibytes

/-- The number of a variable, or a default. -/
def word (env : Environment) (name : String) (default : Nat) : Nat :=
  ((env.text? name).bind wordOfText?).getD default

/-- Tunables from the environment, over a directory. -/
def ofEnvironment (dataDir : Path) (env : Environment) : Settings where
  dataDir := dataDir
  cacheDisabled := ((env.text? "CUE_WORKER_CACHE_DISABLED").map isYes).getD false
  maxModuleBytes := mebibytes (word env "CUE_WORKER_MAX_MODULE_MB" defaultModuleMebibytes)
  callFuel := word env "CUE_WORKER_FUEL" defaultFuel
  memoryLimitBytes := mebibytes (word env "CUE_WORKER_MEMORY_MB" defaultMemoryMebibytes)

/-- The home directory of a process: the one its environment names, else the one that the
    system has on `record` for its user, if any. -/
def homeOf? (record : Option Path) (env : Environment) : Option Path :=
  match Fields.find? "HOME" env with
  | some (b :: rest) => some (b :: rest)
  | _ => record

/-- The platform's data directory: a variable of its own if it is absolute, else below the
    home. -/
def platformDataDir? (record : Option Path) (env : Environment) : Option Path :=
  let below := (homeOf? record env).map (fun home => Path.join home (Path.ofText ".local/share"))
  match Fields.find? "XDG_DATA_HOME" env with
  | some dir => if Path.isAbsolute dir then some dir else below
  | none => below

/-- The data directory of a process: named outright, or below the platform's, or, where there
    is none, below the directory that the process runs in. -/
def dataDirOf (record : Option Path) (env : Environment) : Path :=
  match env.text? "CUE_WORKER_DATA_DIR" with
  | some dir => Path.ofText dir
  | none =>
    Path.join ((platformDataDir? record env).getD (Path.ofText ".")) (Path.ofText directoryName)

/-- The file that holds the persistent store. -/
def tablePath (s : Settings) : Path :=
  Path.join s.dataDir (Path.ofText tableName)

/-- A line that states all tunables. -/
def summary (s : Settings) : String :=
  "data_dir=" ++ Path.shown s.dataDir
    ++ ", cache_disabled=" ++ (if s.cacheDisabled then "true" else "false")
    ++ ", max_module_bytes=" ++ toString s.maxModuleBytes
    ++ ", call_fuel=" ++ toString s.callFuel
    ++ ", memory_limit_bytes=" ++ toString s.memoryLimitBytes

end Settings
end PhaseHost
