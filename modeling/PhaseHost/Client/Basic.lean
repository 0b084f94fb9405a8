import PhaseHost.Client.Answer

/-! # Clients

    A client numbers its calls from one, parks each in a table under its
    number, and hands a request frame to the host.  Whatever reply carries the
    number settles the call.  Once the channel of replies has closed, a pump
    has failed every parked call, and no further call is parked.

    Calls run side by side, so everything a client does is cut into steps that
    nothing can interrupt, and a run is any sequence of them. -/

namespace PhaseHost

/-- How far a call has come. -/
inductive CallStage where
  /-- It has not begun. -/
  | fresh
  /-- It has its number. -/
  | numbered
  /-- It is in the table, its frame not yet handed over; its outcome may be there already. -/
  | parked (early : Option Outcome)
  /-- Its frame was handed over. -/
  | waiting
  /-- It has ended. -/
  | settled (outcome : Outcome)
  /-- Its caller stopped waiting. -/
  | abandoned
  deriving Repr

/-- One call. -/
structure ClientCall where
  action : Action
  id : Option UInt64
  stage : CallStage
  deriving Repr

namespace ClientCall

/-- Hand an outcome to a call that is in the table. -/
def deliver (outcome : Outcome) (c : ClientCall) : ClientCall :=
  match c.stage with
  | .parked none => { c with stage := .parked (some outcome) }
  | .waiting => { c with stage := .settled outcome }
  | _ => c

/-- The outcome of a call that has ended. -/
def outcome? (c : ClientCall) : Option Outcome :=
  match c.stage with
  | .settled outcome => some outcome
  | _ => none

/-- The request frame of a call that has its number. -/
def frame? (c : ClientCall) : Option Json :=
  c.id.map (fun id => Message.toFrame ⟨id, c.action⟩)

end ClientCall

/-- A client with both of its channels. -/
structure Client where
  /-- The number of the next call. -/
  nextId : UInt64
  /-- All calls, in the order they were made. -/
  calls : List ClientCall
  /-- The table: numbers of calls, and which call it is. -/
  pending : List (UInt64 × Nat)
  /-- The pump has failed the parked calls. -/
  closed : Bool
  /-- Replies that have arrived and were not looked at. -/
  arrived : List Json
  /-- More replies may arrive. -/
  repliesOpen : Bool
  /-- The host still takes requests. -/
  hostListens : Bool
  /-- The frames handed to the host, in order. -/
  sent : List Json
  deriving Repr

/-- What can happen to a client. -/
inductive ClientEvent where
  /-- A call is made. -/
  | call (action : Action)
  /-- A call takes its number. -/
  | take (n : Nat)
  /-- A call is parked, unless the table is closed. -/
  | park (n : Nat)
  /-- A call hands its frame over. -/
  | hand (n : Nat)
  /-- A caller stops waiting. -/
  | abandon (n : Nat)
  /-- A reply frame arrives. -/
  | arrive (frame : Json)
  /-- The pump looks at the oldest reply. -/
  | settle
  /-- The channel of replies closes. -/
  | closeReplies
  /-- The pump finds the channel closed and empty. -/
  | drain
  /-- The host stops taking requests. -/
  | hangUp
  deriving DecidableEq, Repr

namespace Client

/-- A client that has made no call. -/
def empty : Client where
  nextId := 1
  calls := []
  pending := []
  closed := false
  arrived := []
  repliesOpen := true
  hostListens := true
  sent := []

/-- Change one call. -/
def modifyCall (c : Client) (n : Nat) (f : ClientCall → ClientCall) : Client :=
  { c with calls := c.calls.modify n f }

/-- End a call. -/
def finish (c : Client) (n : Nat) (outcome : Outcome) : Client :=
  c.modifyCall n (fun call => { call with stage := .settled outcome })

/-- Make a call. -/
def call (c : Client) (action : Action) : Client :=
  { c with calls := c.calls ++ [⟨action, none, .fresh⟩] }

/-- Give a call the next number. -/
def take (c : Client) (n : Nat) : Client :=
  match c.calls[n]? with
  | some ⟨action, _, .fresh⟩ =>
    { c with
      nextId := c.nextId + 1
      calls := c.calls.set n ⟨action, some c.nextId, .numbered⟩ }
  | _ => c

/-- Take a number out of the table and hand an outcome to the call that was under it. -/
def release (c : Client) (id : UInt64) (outcome : Outcome) : Client :=
  match c.pending.find? (fun p => p.1 = id) with
  | some (_, n) =>
    { c.modifyCall n (ClientCall.deliver outcome) with
      pending := c.pending.filter (fun p => p.1 ≠ id) }
  | none => c

/-- List a call in the table under its number.  Numbers come round again in the end, so a
    call that is still listed under it gives way. -/
def enlist (c : Client) (n : Nat) (action : Action) (id : UInt64) : Client :=
  let c := c.release id (.error .disconnected)
  { c with
    calls := c.calls.set n ⟨action, some id, .parked none⟩
    pending := (id, n) :: c.pending }

/-- Put a call into the table, unless that is closed. -/
def park (c : Client) (n : Nat) : Client :=
  match c.calls[n]? with
  | some ⟨action, some id, .numbered⟩ =>
    if c.closed then c.finish n (.error .disconnected) else c.enlist n action id
  | _ => c

/-- Hand the frame of a call to the host; a host that is gone ends the call. -/
def hand (c : Client) (n : Nat) : Client :=
  match c.calls[n]? with
  | some ⟨action, some id, .parked early⟩ =>
    if c.hostListens then
      let stage := match early with
        | some outcome => .settled outcome
        | none => .waiting
      { c with
        calls := c.calls.set n ⟨action, some id, stage⟩
        sent := c.sent ++ [Message.toFrame ⟨id, action⟩] }
    else (c.release id (.error .disconnected)).finish n (.error .disconnected)
  | _ => c

/-- Stop waiting for a call; its number stays in the table. -/
def abandon (c : Client) (n : Nat) : Client :=
  c.modifyCall n (fun call =>
    match call.stage with
    | .settled _ => call
    | _ => { call with stage := .abandoned })

/-- Take a reply frame in. -/
def arrive (c : Client) (frame : Json) : Client :=
  if c.repliesOpen then { c with arrived := c.arrived ++ [frame] } else c

/-- Look at the oldest reply; a frame that is no reply is passed over. -/
def settle (c : Client) : Client :=
  match c.arrived with
  | [] => c
  | frame :: rest =>
    match Reply.ofJson frame with
    | .ok r => { c with arrived := rest }.release r.id r.outcome
    | .error _ => { c with arrived := rest }

/-- Close the table and fail all calls in it, once no reply can come any more. -/
def drain (c : Client) : Client :=
  if c.repliesOpen ∨ ¬ c.arrived.isEmpty ∨ c.closed then c
  else
    let failed := c.pending.foldl
      (fun calls p => calls.modify p.2 (ClientCall.deliver (.error .disconnected))) c.calls
    { c with calls := failed, pending := [], closed := true }

/-- What an event does. -/
def step (c : Client) : ClientEvent → Client
  | .call action => c.call action
  | .take n => c.take n
  | .park n => c.park n
  | .hand n => c.hand n
  | .abandon n => c.abandon n
  | .arrive frame => c.arrive frame
  | .settle => c.settle
  | .closeReplies => { c with repliesOpen := false }
  | .drain => c.drain
  | .hangUp => { c with hostListens := false }

/-- What a sequence of events does. -/
def run (c : Client) (events : List ClientEvent) : Client :=
  events.foldl step c

/-- All steps of one call up to its waiting. -/
def start (c : Client) (n : Nat) : Client :=
  ((c.take n).park n).hand n

/-- Settle every reply that has arrived, then drain if there can be no more. -/
def pump (c : Client) : Client :=
  ((List.replicate c.arrived.length ClientEvent.settle).foldl step c).drain

/-- One call over channels of its own: `answer` gives the reply to its frame,
    after which the channel closes.  The call and its outcome. -/
def exchange (action : Action) (answer : Json → Option Json) : Json × Outcome :=
  let asked := (empty.call action).start 0
  let frame := asked.sent.headD .null
  let told := match answer frame with
    | some reply => asked.arrive reply
    | none => asked
  let ended := (told.step .closeReplies).pump
  (frame, ((ended.calls[0]?).bind ClientCall.outcome?).getD (.error .disconnected))

end Client
end PhaseHost
