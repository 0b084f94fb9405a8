import PhaseHost.Play.Script
import PhaseHost.Session

/-! # Plays

    A play runs a client and a host in one fixed order: everything that can move
    is moved, in turns, until only the outside can make a difference.

    In a turn the host receives all frames and begins their handlers, every
    attempt that does not wait goes one step on, and then whatever waited for an
    attempt goes on.  Asking and filling the store takes no turn of its own.

    The longest chain of turns that one event can start is that of a request
    for a version: its reader's attempt, then its engine's, each from the store
    and then from a fetch.  `turnsMax` turns are more than that, so after them
    nothing moves. -/

namespace PhaseHost

/-- How the fetch of an attempt ends, if it ends at this moment. -/
abbrev Fetching (σ κ : Type) := Script → Loader σ κ → Handle → Option (Except String Bytes)

/-- What a play is performed with. -/
structure Stage (σ κ : Type) where
  backend : Backend σ κ
  fetching : Fetching σ κ

/-- A client, a host and the outside world. -/
structure Play (σ κ : Type) where
  session : Session σ κ
  script : Script

namespace Play

variable {σ κ : Type}

/-- A play before its first step. -/
def start (store : σ) (script : Script) : Play σ κ :=
  ⟨Session.empty store, script⟩

/-- The loader of the host. -/
def loader (p : Play σ κ) : Loader σ κ :=
  p.session.host.phase.loader

/-- Let the client or the host move. -/
def move (T : Stage σ κ) (p : Play σ κ) (event : SessionEvent) : Play σ κ :=
  let session := p.session.step T.backend event
  ⟨session, p.script.observe session.host.phase.loader⟩

/-- Let the host move. -/
def moveHost (T : Stage σ κ) (p : Play σ κ) (event : HostEvent) : Play σ κ :=
  p.move T (.host event)

/-- Let the loader move. -/
def moveLoader (T : Stage σ κ) (p : Play σ κ) (event : LoaderEvent) : Play σ κ :=
  p.moveHost T (.background (.load event))

/-- The same move for every number below a count. -/
def forEach (count : Nat) (f : Play σ κ → Nat → Play σ κ) (p : Play σ κ) : Play σ κ :=
  (List.range count).foldl f p

/-- Let every attempt that is about to ask the store do so. -/
def lookAll (T : Stage σ κ) (p : Play σ κ) : Play σ κ :=
  p.forEach p.loader.attempts.length (fun p n => p.moveLoader T (.look n))

/-- Let an attempt go one step on, if it does not wait. -/
def moveAttempt (T : Stage σ κ) (p : Play σ κ) (n : Handle) : Play σ κ :=
  match (p.loader.attempts[n]?).map Attempt.stage with
  | some .fetching =>
    match T.fetching p.script p.loader n with
    | some result => p.moveLoader T (.fetched n result)
    | none => p
  | some (.trying _) => p.moveLoader T (.make n)
  | some (.making _) => (p.moveLoader T (.make n)).moveLoader T (.keep n)
  | _ => p

/-- Let every handler go on once, from the `n`-th on; a handler that ends makes
    room for the next one. -/
def pollFrom (T : Stage σ κ) : Nat → Nat → Play σ κ → Play σ κ
  | 0, _, p => p
  | count + 1, n, p =>
    let before := p.session.host.handlers.length
    let p := p.moveHost T (.poll n)
    pollFrom T count (if p.session.host.handlers.length < before then n else n + 1) p

/-- Let every handler go on once. -/
def pollAll (T : Stage σ κ) (p : Play σ κ) : Play σ κ :=
  pollFrom T p.session.host.handlers.length 0 p

/-- Let the client's pump look at every reply that has arrived. -/
def pump (T : Stage σ κ) (p : Play σ κ) : Play σ κ :=
  (p.forEach p.session.client.arrived.length (fun p _ => p.move T (.client .settle))).move T
    (.client .drain)

/-- One turn. -/
def turn (T : Stage σ κ) (p : Play σ κ) : Play σ κ :=
  let p := p.forEach (p.session.host.inbox.length + 1) (fun p _ => p.moveHost T .receive)
  let p := (p.pollAll T).lookAll T
  let p := p.forEach p.loader.attempts.length (moveAttempt T)
  let p := p.forEach p.session.host.phase.requests.length
    (fun p n => p.moveHost T (.background (.resume n)))
  let p := p.forEach p.session.host.phase.engineLoads.length
    (fun p n => p.moveHost T (.background (.resumeEngine n)))
  let p := p.forEach p.session.host.phase.engineLoads.length
    (fun p n => p.moveHost T (.background (.startEngine n)))
  ((p.lookAll T).moveHost T .stop).pump T

/-- How many turns a play takes to come to rest. -/
def turnsMax : Nat := 24

/-- Take turns until nothing moves. -/
def settle (T : Stage σ κ) (p : Play σ κ) : Play σ κ :=
  (List.range turnsMax).foldl (fun p _ => p.turn T) p

/-- Start a call of the client: it takes its number, is parked and sent. -/
def startCall (T : Stage σ κ) (p : Play σ κ) (action : Action) : Play σ κ :=
  let n := p.session.client.calls.length
  [ClientEvent.call action, .take n, .park n, .hand n].foldl
    (fun p event => p.move T (.client event)) p

/-- Deliver a frame to the host. -/
def deliver (p : Play σ κ) (frame : Json) : Play σ κ :=
  { p with session := { p.session with host := p.session.host.deliver frame } }

/-- Ask the controller for a version, past the host. -/
def request (p : Play σ κ) (version : String) (sources : ModuleSources) : Play σ κ :=
  let host := p.session.host
  { p with session :=
      { p.session with host := { host with phase := host.phase.request version sources } } }

/-- Load a variant, past the host: the number of the attempt that will tell. -/
def load (p : Play σ κ) (v : Variant) (location : String) : Handle × Play σ κ :=
  let host := p.session.host
  let (n, loader) := host.phase.loader.load v location
  let phase := { host.phase with loader := loader }
  (n, { p with session := { p.session with host := { host with phase := phase } } })

/-- Change the store, past the host. -/
def onStore (p : Play σ κ) (f : σ → σ) : Play σ κ :=
  let host := p.session.host
  let loader := { host.phase.loader with store := f host.phase.loader.store }
  let phase := { host.phase with loader := loader }
  { p with session := { p.session with host := { host with phase := phase } } }

/-- Change the outside world. -/
def onScript (p : Play σ κ) (f : Script → Script) : Play σ κ :=
  { p with script := f p.script }

end Play
end PhaseHost
