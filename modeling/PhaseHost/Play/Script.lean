import PhaseHost.Json.Basic
import PhaseHost.Loader.Basic

/-! # Scripted fetches

    A script says what each location holds, and may put a gate before a
    location.  A fetch queues at the gate that stands before its location when
    it starts, and passes when that gate lets it.  What a location holds counts
    at the moment the fetch ends.

    A gate lets through as many fetches as it is told to, the longest waiting
    first; told so while none waits, it lets the next one through, but keeps no
    more than one such permit. -/

namespace PhaseHost

/-- A gate before a location. -/
structure Gate where
  /-- The waiting fetches, the longest waiting first. -/
  queue : List Handle
  /-- The next fetch may pass at once. -/
  permit : Bool
  deriving DecidableEq, Repr

/-- What the outside world holds and holds back. -/
structure Script where
  /-- Bodies by location, or the texts with which their fetches fail. -/
  bodies : Fields (Except String Bytes)
  /-- All gates there ever were. -/
  gates : List Gate
  /-- The gate that stands before a location. -/
  standing : Fields Nat
  /-- How many fetches have started. -/
  seen : Nat

namespace Script

/-- A script with bodies and gates. -/
def ofLists (bodies : List (String × Except String Bytes)) (gated : List String) : Script :=
  let places := gated.eraseDups
  ⟨Fields.ofList bodies, places.map (fun _ => ⟨[], false⟩),
    Fields.ofList (places.mapIdx (fun n location => (location, n))), 0⟩

/-- The gate before a location. -/
def gate? (s : Script) (location : String) : Option Nat :=
  Fields.find? location s.standing

/-- Let one fetch of a location through, now or as soon as there is one. -/
def release (s : Script) (location : String) : Script :=
  match s.gate? location with
  | none => s
  | some g =>
    { s with gates := s.gates.modify g (fun gate =>
        match gate.queue with
        | _ :: rest => { gate with queue := rest }
        | [] => { gate with permit := true }) }

/-- Put a new gate before a location. -/
def putGate (s : Script) (location : String) : Script :=
  { s with
    gates := s.gates ++ [⟨[], false⟩]
    standing := Fields.insert location s.gates.length s.standing }

/-- Take the gate before a location away. -/
def dropGate (s : Script) (location : String) : Script :=
  { s with standing := Fields.erase location s.standing }

/-- Put a body at a location. -/
def setBody (s : Script) (location : String) (body : Except String Bytes) : Script :=
  { s with bodies := Fields.insert location body s.bodies }

/-- Empty a location. -/
def dropBody (s : Script) (location : String) : Script :=
  { s with bodies := Fields.erase location s.bodies }

/-- A fetch of a location starts and queues at the gate there. -/
def start (s : Script) (n : Handle) (location : String) : Script :=
  match s.gate? location with
  | none => s
  | some g =>
    { s with gates := s.gates.modify g (fun gate =>
        if gate.permit then { gate with permit := false }
        else { gate with queue := gate.queue ++ [n] }) }

/-- Whether a fetch waits at a gate. -/
def holds (s : Script) (n : Handle) : Bool :=
  s.gates.any (fun gate => n ∈ gate.queue)

/-- What a fetch of a location brings. -/
def body (s : Script) (location : String) : Except String Bytes :=
  (Fields.find? location s.bodies).getD (.error "not found")

variable {σ κ : Type}

/-- Take note of the fetches that a loader has started. -/
def observe (s : Script) (l : Loader σ κ) : Script :=
  let fresh := l.fetches.drop s.seen
  let s := fresh.foldl (fun s n =>
    match l.attempts[n]? with
    | some a => s.start n a.location
    | none => s) s
  { s with seen := l.fetches.length }

/-- How the fetch of an attempt ends, unless it is held back. -/
def result? (s : Script) (l : Loader σ κ) (n : Handle) : Option (Except String Bytes) :=
  match l.attempts[n]? with
  | some a => if s.holds n then none else some (s.body a.location)
  | none => none

/-- How often each location was fetched. -/
def counts (l : Loader σ κ) : Fields Nat :=
  l.fetches.foldl (fun counts n =>
    match l.attempts[n]? with
    | some a => Fields.insert a.location ((Fields.find? a.location counts).getD 0 + 1) counts
    | none => counts) []

end Script
end PhaseHost
