import PhaseHost.Arguments
import PhaseHost.Bridge
import PhaseHost.Premises
import PhaseHost.Store.Document

/-! # The program

    The bridge over standard input and output.  All decisions are the
    library's; here lines are read and written, files are read for fetches, and
    the table of stored modules is read at the start and written when it has
    changed.  The program reaches no server. -/

namespace PhaseHost

/-- The bridge of the program. -/
abbrev Station := Bridge Premises (Instance ImageState)

namespace Station

/-- The reason behind an error of the system. -/
def reasonOf : IO.Error → DiskError
  | .inappropriateType _ 20 _ => .notDirectory
  | .inappropriateType _ _ _ => .isDirectory
  | .invalidArgument _ 36 _ => .nameTooLong
  | _ => .noEntry

/-- What the system has at a path. -/
def nodeAt (path : Path) : IO (Except DiskError Node) := do
  if (0 : UInt8) ∈ path then return .error .nulByte
  match Utf8.decode? path with
  | none => return .error .noEntry
  | some name =>
    try
      let bytes ← IO.FS.readBinFile name
      return .ok (.file bytes.toList)
    catch e =>
      match reasonOf e with
      | .isDirectory => return .ok .directory
      | reason => return .error reason

/-- Make a fetch. -/
def fetchNow (limit : Nat) (location : String) : IO (Except String Bytes) := do
  match ModuleSource.ofLocation location with
  | .error reason => return .error reason
  | .ok (.web address) => return fetchWeb Web.unreachable limit address
  | .ok (.file path) => return bytesWithin limit path (← nodeAt path)

/-- A disk with the stored table, if there is one. -/
def importTable (t : Table) : IO Disk := do
  match ← nodeAt t.path with
  | .error _ => return Disk.empty
  | .ok node =>
    let stored := match node.content?.bind Row.ofDocument? with
      | some rows => .database (some rows)
      | none => node
    return Disk.empty.put t.current t.path stored

/-- Store the table; one that cannot be stored is forgotten. -/
def exportTable (t : Table) (s : Settings) (d : Disk) : IO Unit := do
  match t.view d with
  | .rows rows =>
    try
      IO.FS.createDirAll s.dataDir.shown
      IO.FS.writeBinFile t.path.shown ⟨(Row.document rows).toArray⟩
    catch _ => return
  | _ => return

/-- Let the host come to rest, making the fetches that it waits for. -/
partial def advance (T : Stage Premises (Instance ImageState)) (limit : Nat) (b : Station) :
    IO Station := do
  let b := b.settle T
  match b.play.loader.awaited with
  | [] => return b
  | waiting =>
    let b ← waiting.foldlM (fun (b : Station) (n, location) => do
      let result ← fetchNow limit location
      return b.step T (.host (.background (.load (.fetched n result))))) b
    advance T limit b

/-- The bytes up to and with the next line feed; none at the end of the input. -/
partial def readLine (input : IO.FS.Stream) (line : Bytes) : IO Bytes := do
  match (← input.read 1).toList with
  | b :: _ => if b = 0x0A then return (b :: line).reverse else readLine input (b :: line)
  | [] => return line.reverse

/-- Write the replies that were not written. -/
def write (T : Stage Premises (Instance ImageState)) (output : IO.FS.Stream) (b : Station) :
    IO Station := do
  let written := b.flush T
  output.putStr (String.join (written.output.drop b.output.length))
  output.flush
  return written

/-- Read and answer lines until the input ends or cannot be read. -/
partial def serve (T : Stage Premises (Instance ImageState)) (s : Settings) (b : Station) :
    IO Station := do
  let line ← readLine (← IO.getStdin) []
  let event := if line.isEmpty then .endOfInput else .line line
  let before := b.play.loader.store.disk
  let b ← advance T s.maxModuleBytes (b.step T event)
  let b ← write T (← IO.getStdout) b
  if b.play.loader.store.disk ≠ before then
    exportTable (Premises.table s []) s b.play.loader.store.disk
  let b := b.step T .finish
  if b.ended then return b else serve T s b

/-- The variables that settings are read from. -/
def variableNames : List String :=
  ["HOME", "XDG_DATA_HOME", "CUE_WORKER_DATA_DIR", "CUE_WORKER_CACHE_DISABLED",
    "CUE_WORKER_MAX_MODULE_MB", "CUE_WORKER_FUEL", "CUE_WORKER_MEMORY_MB"]

/-- The environment of the program. -/
def environment : IO Environment := do
  let pairs ← variableNames.filterMapM (fun name => do
    return (← IO.getEnv name).map (fun value => (name, value)))
  return Environment.ofTexts pairs

/-- Run the bridge with its settings: the exit code. -/
def run (s : Settings) : IO UInt32 := do
  let T : Stage Premises (Instance ImageState) :=
    ⟨Premises.backend s [], fun _ _ _ => none⟩
  let disk ← if s.cacheDisabled then pure Disk.empty else importTable (Premises.table s [])
  let b ← serve T s (Bridge.start (.ofDisk disk))
  (← IO.getStderr).putStr b.complaint
  return b.exitCode

end Station
end PhaseHost

open PhaseHost in
/-- Settings come from the environment and the arguments.  The system is not asked for what it
    has on record. -/
def main (args : List String) : IO UInt32 := do
  let env ← Station.environment
  match (Settings.ofEnvironment (Settings.dataDirOf none env) env).withArguments args with
  | .error e =>
    (← IO.getStderr).putStr e.complaint
    return 1
  | .ok settings => Station.run settings
