import PhaseHost.Play.Basic
import PhaseHost.Text.Blank

/-! # The line bridge

    A bridge hands the frames to a host that come as lines of JSON, and writes
    every reply as a line of JSON.  Lines that are blank or no JSON are passed
    over.

    A bridge ends after the end of its input, once the host has stopped and
    every reply has been written.  A line that is not UTF-8 ends it at once. -/

namespace PhaseHost

/-- How far the input of a bridge has been read. -/
inductive Intake where
  | reading
  | finished
  /-- A line was not UTF-8. -/
  | broken (fault : Utf8.Fault)
  deriving DecidableEq, Repr

/-- A bridge to a host. -/
structure Bridge (σ κ : Type) where
  play : Play σ κ
  intake : Intake
  /-- How many replies have been written. -/
  written : Nat
  ended : Bool

/-- What can happen to a bridge. -/
inductive BridgeEvent where
  /-- A line of input is read, with its line feed if it has one. -/
  | line (bytes : Bytes)
  | endOfInput
  /-- The host moves. -/
  | host (event : HostEvent)
  /-- The oldest reply that has not been written is written. -/
  | write
  /-- The bridge sees that nothing is left to do. -/
  | finish
  deriving Repr

/-- Whether an event is the host's own; the others come from the bridge. -/
def HostEvent.isOwn : HostEvent → Bool
  | .deliver _ => false
  | .close => false
  | _ => true

/-- A reply as a line of output. -/
def Reply.line (r : Reply) : String :=
  r.toJson.render ++ "\n"

namespace Bridge

variable {σ κ : Type}

/-- A bridge that has read nothing. -/
def start (store : σ) : Bridge σ κ :=
  ⟨.start store (.ofLists [] []), .reading, 0, false⟩

/-- The replies of the host so far. -/
def replies (b : Bridge σ κ) : List Reply :=
  b.play.session.host.outbox

/-- The lines written so far. -/
def output (b : Bridge σ κ) : List String :=
  (b.replies.take b.written).map Reply.line

/-- The frame on a line; a line break at its end is blank to JSON. -/
def frame? (line : String) : Option Json :=
  if (Text.trim line).isEmpty then none else (Json.parseText line).toOption

/-- Hand the frame on a line to the host, if there is one. -/
def hand (b : Bridge σ κ) (line : String) : Bridge σ κ :=
  match frame? line with
  | some frame => { b with play := b.play.deliver frame }
  | none => b

/-- Read a line. -/
def read (b : Bridge σ κ) (bytes : Bytes) : Bridge σ κ :=
  match Utf8.fault? bytes with
  | some fault => { b with intake := .broken fault, ended := true }
  | none => b.hand (Utf8.lossy bytes)

/-- What an event does; a bridge that has ended does nothing. -/
def step (T : Stage σ κ) (b : Bridge σ κ) (event : BridgeEvent) : Bridge σ κ :=
  if b.ended then b
  else
    match event with
    | .line bytes => if b.intake = .reading then b.read bytes else b
    | .endOfInput => { b with play := b.play.moveHost T .close, intake := .finished }
    | .host event =>
      if event.isOwn then { b with play := b.play.moveHost T event } else b
    | .write => { b with written := min (b.written + 1) b.replies.length }
    | .finish =>
      { b with ended :=
          b.intake = .finished ∧ b.play.session.host.stopped ∧ b.written = b.replies.length }

/-- What a sequence of events does. -/
def run (T : Stage σ κ) (b : Bridge σ κ) (events : List BridgeEvent) : Bridge σ κ :=
  events.foldl (step T) b

/-! ## Running a bridge -/

/-- Cut bytes behind every line feed; `line` holds the current line, newest byte first. -/
def cut (line : Bytes) : Bytes → List Bytes
  | [] => if line.isEmpty then [] else [line.reverse]
  | b :: rest => if b = 0x0A then (b :: line).reverse :: cut [] rest else cut (b :: line) rest

/-- Read all lines of some input. -/
def feed (T : Stage σ κ) (b : Bridge σ κ) (input : Bytes) : Bridge σ κ :=
  b.run T ((cut [] input).map .line)

/-- Let the host come to rest. -/
def settle (T : Stage σ κ) (b : Bridge σ κ) : Bridge σ κ :=
  if b.ended then b else { b with play := b.play.settle T }

/-- Write every reply there is. -/
def flush (T : Stage σ κ) (b : Bridge σ κ) : Bridge σ κ :=
  b.run T (List.replicate (b.replies.length - b.written) .write)

/-- Let the host come to rest and write its replies. -/
def advance (T : Stage σ κ) (b : Bridge σ κ) : Bridge σ κ :=
  (b.settle T).flush T

/-- Read the end of the input and do what is left to do. -/
def close (T : Stage σ κ) (b : Bridge σ κ) : Bridge σ κ :=
  ((b.step T .endOfInput).advance T).step T .finish

/-! ## How a bridge ends -/

/-- The exit code. -/
def exitCode (b : Bridge σ κ) : UInt32 :=
  match b.intake with
  | .broken _ => 1
  | _ => 0

/-- What a bridge says about its end. -/
def complaint (b : Bridge σ κ) : String :=
  match b.intake with
  | .broken fault => "Error: read stdin\n\nCaused by:\n    " ++ fault.message ++ "\n"
  | _ => ""

end Bridge
end PhaseHost
