import PhaseHost.Loader.Basic
import PhaseHost.Readiness
import PhaseHost.Variant.Location

/-! # Two phases

    A request for a version first loads the reader.  Once that is in place the
    request is answered, and the engine is loaded in the background.  Readiness
    only moves up.

    Only the engine that was asked for last may be installed: an engine that is
    loaded when another version is wanted is dropped. -/

namespace PhaseHost

/-- A capability in its slot. -/
structure Installed where
  version : String
  handle : Handle
  deriving DecidableEq, Repr

/-- How far a request has come. -/
inductive RequestStage where
  /-- It waits for the attempt that loads its reader. -/
  | waiting (attempt : Handle)
  | done (result : Except LoadError Readiness)
  deriving Repr

/-- A request for a version. -/
structure Request where
  version : String
  sources : ModuleSources
  stage : RequestStage
  deriving Repr

/-- The result of a request that has ended. -/
def Request.result? (r : Request) : Option (Except LoadError Readiness) :=
  match r.stage with
  | .done result => some result
  | .waiting _ => none

/-- How far the load of an engine has come. -/
inductive EngineStage where
  | ready
  /-- It waits for the attempt that loads the engine. -/
  | waiting (attempt : Handle)
  | installed
  /-- Another version was wanted by the time it was loaded. -/
  | dropped
  | failed (error : LoadError)
  deriving DecidableEq, Repr

/-- The load of an engine in the background. -/
structure EngineLoad where
  version : String
  location : String
  /-- The request that started it. -/
  request : Nat
  stage : EngineStage
  deriving DecidableEq, Repr

/-- The controller of both phases, with its loader. -/
structure Phase (σ κ : Type) where
  loader : Loader σ κ
  readiness : Readiness
  reader : Option Installed
  engine : Option Installed
  /-- The version of the engine that was asked for last. -/
  wanted : Option String
  requests : List Request
  engineLoads : List EngineLoad

/-- What can happen to a controller. -/
inductive PhaseEvent where
  /-- A version is requested. -/
  | request (version : String) (sources : ModuleSources)
  /-- A request whose reader attempt has ended goes on. -/
  | resume (n : Nat)
  /-- The load of an engine begins. -/
  | startEngine (n : Nat)
  /-- The load of an engine whose attempt has ended goes on. -/
  | resumeEngine (n : Nat)
  /-- The loader moves. -/
  | load (event : LoaderEvent)
  deriving Repr

namespace Phase

variable {σ κ : Type}

/-- A controller that was asked for nothing. -/
def empty (store : σ) : Phase σ κ :=
  ⟨Loader.empty store, .idle, none, none, none, [], []⟩

/-- The capability that serves what the reader can do: the engine if it is there. -/
def active (p : Phase σ κ) : Option Installed :=
  p.engine.or p.reader

/-- Move up to a readiness. -/
def advance (p : Phase σ κ) (next : Readiness) : Phase σ κ :=
  { p with readiness := p.readiness.advance next }

/-- Ask for a version. -/
def request (p : Phase σ κ) (version : String) (sources : ModuleSources) : Phase σ κ :=
  let (attempt, loader) := p.loader.load ⟨.reader, version⟩ sources.reader
  { p with
    loader := loader
    requests := p.requests ++ [⟨version, sources, .waiting attempt⟩] }

/-- Whether the engine of a version is in place. -/
def hasEngine (p : Phase σ κ) (version : String) : Bool :=
  match p.engine with
  | some engine => engine.version = version
  | none => false

/-- Want the engine of a version, and start its load unless it is in place. -/
def wantEngine (p : Phase σ κ) (n : Nat) (version location : String) : Phase σ κ :=
  { p with
    wanted := some version
    engineLoads :=
      if p.hasEngine version then p.engineLoads
      else p.engineLoads ++ [⟨version, location, n, .ready⟩] }

/-- End a request. -/
def finish (p : Phase σ κ) (n : Nat) (result : Except LoadError Readiness) : Phase σ κ :=
  { p with requests := p.requests.modify n (fun r => { r with stage := .done result }) }

/-- Put a reader in place and go on to the engine, if one is asked for. -/
def commit (p : Phase σ κ) (n : Nat) (version : String) (sources : ModuleSources)
    (handle : Handle) : Phase σ κ :=
  let p := { p with reader := some ⟨version, handle⟩ }.advance .readerOnly
  let p := match sources.engine with
    | some location => p.wantEngine n version location
    | none => p
  p.finish n (.ok p.readiness)

/-- Go on with a request whose reader attempt has ended. -/
def resume (p : Phase σ κ) (n : Nat) : Phase σ κ :=
  match p.requests[n]? with
  | some ⟨version, sources, .waiting attempt⟩ =>
    match p.loader.outcome? attempt with
    | some (.ok handle) => p.commit n version sources handle
    | some (.error e) => p.finish n (.error e)
    | none => p
  | _ => p

/-- Move the load of an engine on. -/
def moveEngine (p : Phase σ κ) (n : Nat) (stage : EngineStage) : Phase σ κ :=
  { p with engineLoads := p.engineLoads.modify n (fun e => { e with stage := stage }) }

/-- Begin the load of an engine. -/
def startEngine (p : Phase σ κ) (n : Nat) : Phase σ κ :=
  match p.engineLoads[n]? with
  | some ⟨version, location, _, .ready⟩ =>
    let (attempt, loader) := p.loader.load ⟨.engine, version⟩ location
    { p with loader := loader }.moveEngine n (.waiting attempt)
  | _ => p

/-- Put an engine in place, if its version is still wanted. -/
def install (p : Phase σ κ) (n : Nat) (version : String) (handle : Handle) : Phase σ κ :=
  if p.wanted = some version then
    ({ p with engine := some ⟨version, handle⟩ }.advance .full).moveEngine n .installed
  else p.moveEngine n .dropped

/-- Go on with the load of an engine whose attempt has ended. -/
def resumeEngine (p : Phase σ κ) (n : Nat) : Phase σ κ :=
  match p.engineLoads[n]? with
  | some ⟨version, _, _, .waiting attempt⟩ =>
    match p.loader.outcome? attempt with
    | some (.ok handle) => p.install n version handle
    | some (.error e) => p.moveEngine n (.failed e)
    | none => p
  | _ => p

/-- What an event does. -/
def step (B : Backend σ κ) (p : Phase σ κ) : PhaseEvent → Phase σ κ
  | .request version sources => p.request version sources
  | .resume n => p.resume n
  | .startEngine n => p.startEngine n
  | .resumeEngine n => p.resumeEngine n
  | .load event => { p with loader := p.loader.step B event }

/-- What a sequence of events does. -/
def run (B : Backend σ κ) (p : Phase σ κ) (events : List PhaseEvent) : Phase σ κ :=
  events.foldl (step B) p

end Phase
end PhaseHost
