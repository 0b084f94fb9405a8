import PhaseHost.Phase.Basic
import PhaseHost.Proofs.Loader.Attempts
import PhaseHost.Proofs.Trail

/-! # What a controller can do

    `Phase.Move` says once what an event can do to a controller, with the guard
    under which it does so.  Every invariant of the controller is a case
    analysis over its constructors:

    * a request is made, PUT THROUGH (its reader is put in place) or refused;
    * the load of an engine begins, and ends by being installed, dropped or
      failing;
    * the loader moves on its own.

    `Phase.commits?` is the observer of the second kind of event: trails of it
    list the requests that were put through, in order. -/

namespace PhaseHost

variable {σ κ : Type}

/-- Whether the load of an engine has ended. -/
def EngineStage.isOver : EngineStage → Bool
  | .ready => false
  | .waiting _ => false
  | .installed => true
  | .dropped => true
  | .failed _ => true

namespace Phase

/-- The request that an event puts through: one whose reader has been loaded and
    is put in place now. -/
def commits? (p : Phase σ κ) : PhaseEvent → Option (Nat × Request)
  | .resume n =>
    match p.requests[n]? with
    | some ⟨version, sources, .waiting attempt⟩ =>
      match p.loader.outcome? attempt with
      | some (.ok _) => some (n, ⟨version, sources, .waiting attempt⟩)
      | _ => none
    | _ => none
  | _ => none

/-- What an event can do to a controller. -/
inductive Move (B : Backend σ κ) (p : Phase σ κ) : PhaseEvent → Phase σ κ → Prop
  | stay {event} (idle : p.commits? event = none) : Move B p event p
  | request (version sources) :
      Move B p (.request version sources) (p.request version sources)
  | commit {n version sources attempt handle}
      (waits : p.requests[n]? = some ⟨version, sources, .waiting attempt⟩)
      (loaded : p.loader.outcome? attempt = some (.ok handle)) :
      Move B p (.resume n) (p.commit n version sources handle)
  | refuse {n version sources attempt error}
      (waits : p.requests[n]? = some ⟨version, sources, .waiting attempt⟩)
      (failed : p.loader.outcome? attempt = some (.error error)) :
      Move B p (.resume n) (p.finish n (.error error))
  | begin {n version location request}
      (ready : p.engineLoads[n]? = some ⟨version, location, request, .ready⟩) :
      Move B p (.startEngine n)
        ({ p with loader := (p.loader.load ⟨.engine, version⟩ location).2 }.moveEngine n
          (.waiting (p.loader.load ⟨.engine, version⟩ location).1))
  | install {n version location request attempt handle}
      (waits : p.engineLoads[n]? = some ⟨version, location, request, .waiting attempt⟩)
      (loaded : p.loader.outcome? attempt = some (.ok handle))
      (wanted : p.wanted = some version) :
      Move B p (.resumeEngine n)
        (({ p with engine := some ⟨version, handle⟩ }.advance .full).moveEngine n .installed)
  | drop {n version location request attempt handle}
      (waits : p.engineLoads[n]? = some ⟨version, location, request, .waiting attempt⟩)
      (loaded : p.loader.outcome? attempt = some (.ok handle))
      (unwanted : p.wanted ≠ some version) :
      Move B p (.resumeEngine n) (p.moveEngine n .dropped)
  | fail {n version location request attempt error}
      (waits : p.engineLoads[n]? = some ⟨version, location, request, .waiting attempt⟩)
      (failed : p.loader.outcome? attempt = some (.error error)) :
      Move B p (.resumeEngine n) (p.moveEngine n (.failed error))
  | load (event) : Move B p (.load event) { p with loader := p.loader.step B event }

/-- Going on with a request is a move. -/
theorem move_resume (B : Backend σ κ) (p : Phase σ κ) (n : Nat) :
    Move B p (.resume n) (p.resume n) := by
  simp only [resume]
  split
  next version sources attempt waits =>
    split
    next handle loaded => exact .commit waits loaded
    next error failed => exact .refuse waits failed
    next unsettled => exact .stay (by simp only [commits?, waits, unsettled])
  next other => exact .stay (by simp only [commits?])

/-- Beginning the load of an engine is a move. -/
theorem move_startEngine (B : Backend σ κ) (p : Phase σ κ) (n : Nat) :
    Move B p (.startEngine n) (p.startEngine n) := by
  simp only [startEngine]
  split
  next version location request ready => exact .begin ready
  next => exact .stay rfl

/-- Going on with the load of an engine is a move. -/
theorem move_resumeEngine (B : Backend σ κ) (p : Phase σ κ) (n : Nat) :
    Move B p (.resumeEngine n) (p.resumeEngine n) := by
  simp only [resumeEngine]
  split
  next version location request attempt waits =>
    split
    next handle loaded =>
      simp only [install]
      by_cases wanted : p.wanted = some version
      · rw [if_pos wanted]
        exact .install waits loaded wanted
      · rw [if_neg wanted]
        exact .drop waits loaded wanted
    next error failed => exact .fail waits failed
    next => exact .stay rfl
  next => exact .stay rfl

/-- **ONE MOVE AN EVENT**: every event of a controller is one of the moves. -/
theorem move_step (B : Backend σ κ) (p : Phase σ κ) (event : PhaseEvent) :
    Move B p event (p.step B event) := by
  cases event with
  | request version sources => exact .request version sources
  | resume n => exact move_resume B p n
  | startEngine n => exact move_startEngine B p n
  | resumeEngine n => exact move_resumeEngine B p n
  | load event => exact .load event

theorem run_concat (B : Backend σ κ) (p : Phase σ κ) (events : List PhaseEvent)
    (event : PhaseEvent) : p.run B (events ++ [event]) = (p.run B events).step B event :=
  List.foldl_append

/-- A run may be cut in two. -/
theorem run_append (B : Backend σ κ) (p : Phase σ κ) (events more : List PhaseEvent) :
    p.run B (events ++ more) = (p.run B events).run B more :=
  List.foldl_append

/-! ## What the operations leave -/

section fields

variable (p : Phase σ κ) (n : Nat) (version : String) (sources : ModuleSources)

/-- A commit puts the reader in place. -/
@[simp] theorem commit_reader (handle : Handle) :
    (p.commit n version sources handle).reader = some ⟨version, handle⟩ := by
  simp only [commit]
  cases sources.engine <;> rfl

/-- A commit is ready for what a reader can do. -/
@[simp] theorem commit_readiness (handle : Handle) :
    (p.commit n version sources handle).readiness = p.readiness.advance .readerOnly := by
  simp only [commit]
  cases sources.engine <;> rfl

/-- A commit leaves the engine alone. -/
@[simp] theorem commit_engine (handle : Handle) :
    (p.commit n version sources handle).engine = p.engine := by
  simp only [commit]
  cases sources.engine <;> rfl

/-- A commit leaves the loader alone. -/
@[simp] theorem commit_loader (handle : Handle) :
    (p.commit n version sources handle).loader = p.loader := by
  simp only [commit]
  cases sources.engine <;> rfl

/-- A commit that goes on to an engine wants it. -/
theorem commit_wanted (handle : Handle) :
    (p.commit n version sources handle).wanted
      = if sources.engine.isSome then some version else p.wanted := by
  simp only [commit]
  cases sources.engine <;> rfl

/-- A commit starts the load of an engine that is asked for and not in place. -/
theorem commit_engineLoads (handle : Handle) :
    (p.commit n version sources handle).engineLoads
      = match sources.engine with
        | some location =>
          if p.hasEngine version then p.engineLoads
          else p.engineLoads ++ [⟨version, location, n, .ready⟩]
        | none => p.engineLoads := by
  simp only [commit]
  cases sources.engine <;> rfl

/-- A commit ends its own request. -/
theorem commit_requests (handle : Handle) :
    (p.commit n version sources handle).requests
      = p.requests.modify n
          (fun r => { r with stage := .done (.ok (p.readiness.advance .readerOnly)) }) := by
  simp only [commit]
  cases sources.engine <;> rfl

/-- Ending a request leaves versions and sources as they are. -/
theorem finish_sources (result : Except LoadError Readiness) :
    (p.finish n result).requests.map Request.sources = p.requests.map Request.sources :=
  map_modify_eq (fun r : Request => { r with stage := .done result }) (fun _ => rfl) ..

/-- A commit leaves what is asked for. -/
theorem commit_sources (handle : Handle) :
    (p.commit n version sources handle).requests.map Request.sources
      = p.requests.map Request.sources := by
  simp only [commit]
  cases sources.engine <;> exact finish_sources ..

/-- Only the load that is moved changes its stage. -/
theorem moveEngine_engineLoads (stage : EngineStage) (m : Nat) :
    (p.moveEngine n stage).engineLoads[m]?
      = if n = m then (p.engineLoads[m]?).map (fun e => { e with stage := stage })
        else p.engineLoads[m]? := by
  show (p.engineLoads.modify n _)[m]? = _
  by_cases hnm : n = m
  · subst hnm
    rw [if_pos rfl, List.getElem?_modify_eq]
    rfl
  · rw [if_neg hnm, List.getElem?_modify_ne _ _ hnm]

end fields

end Phase
end PhaseHost
