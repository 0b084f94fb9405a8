import PhaseHost.Host.Failure
import PhaseHost.Json.Reader
import PhaseHost.Phase.Basic
import PhaseHost.Wire.Frame
import PhaseHost.Wire.Reply

/-! # Hosts

    A host takes frames from its inbox one by one.  A frame is read and judged
    by the readiness at that moment, and the capability that will serve it is
    picked then; what remains to be done becomes a handler.  Handlers end in any
    order, each with one reply under the id of its frame.

    The host stops once its inbox has been closed and emptied and no handler is
    left. -/

namespace PhaseHost

/-- What is left to do for a frame. -/
inductive Work where
  /-- The frame was refused. -/
  | refuse (failure : Failure)
  /-- An action waits for its turn on a capability. -/
  | compute (handle : Handle) (action : Action)
  /-- A request for a version has not begun. -/
  | begin (payload : InitPayload)
  /-- A request for a version is under way. -/
  | await (request : Nat)
  deriving DecidableEq, Repr

/-- A frame that is being handled. -/
structure Handler where
  id : UInt64
  work : Work
  deriving DecidableEq, Repr

/-- A host with its channels. -/
structure Host (σ κ : Type) where
  phase : Phase σ κ
  /-- Frames that were delivered and not received yet. -/
  inbox : List Json
  /-- More frames may be delivered. -/
  accepting : Bool
  /-- The host has not seen the end of its inbox. -/
  listening : Bool
  handlers : List Handler
  /-- All replies so far, in order. -/
  outbox : List Reply
  stopped : Bool

/-- What can happen to a host. -/
inductive HostEvent where
  /-- A frame is delivered. -/
  | deliver (frame : Json)
  /-- The inbox is closed. -/
  | close
  /-- The oldest frame is received, or the end of the inbox is seen. -/
  | receive
  /-- A handler goes on. -/
  | poll (n : Nat)
  /-- The controller or its loader moves in the background. -/
  | background (event : PhaseEvent)
  /-- The host sees that nothing is left to do. -/
  | stop
  deriving Repr

/-- The text of a breakdown. -/
def faultText (message : Option String) : String :=
  "internal error: " ++ message.getD "handler panicked"

/-- The result of a list of symbols that came as a text. -/
def symbolsOfText (raw : String) : Except Failure Json :=
  match Json.parseText raw with
  | .ok v => .ok v
  | .error fault =>
    .error (.engine ("getSymbols returned invalid JSON: " ++ fault.message (Utf8.encode raw)))

namespace Reply

/-- The reply to a handler that ended with a result or a failure. -/
def ofResult (id : UInt64) : Except Failure Json → Reply
  | .ok result => .ok id result
  | .error f => .failure id f.code f.message

/-- The reply to a call of a capability, whose answer becomes a result. -/
def ofCall {α : Type} (id : UInt64) (result : α → Except Failure Json) : CallOutcome α → Reply
  | .answered value => ofResult id (result value)
  | .failed text => ofResult id (.error (.engine text))
  | .brokeDown message => .failure id .runtimeFault (faultText message)

end Reply

/-- Call a capability and turn the end of the call into a reply. -/
def replyOf {κ α : Type} (id : UInt64) (result : α → Except Failure Json) (call : Calling κ α)
    (c : κ) : Reply × κ :=
  let (outcome, c) := call c
  (.ofCall id result outcome, c)

/-- A text as a result. -/
def textResult (s : String) : Except Failure Json :=
  .ok (.str s)

/-- A truth value as a result. -/
def truthResult (b : Bool) : Except Failure Json :=
  .ok (.bool b)

/-- The reply of a capability to an action, and the capability afterwards. -/
def Runtime.reply {κ : Type} (R : Runtime κ) (id : UInt64) (c : κ) : Action → Reply × κ
  | .unify p => replyOf id textResult (R.unify p) c
  | .validate p => replyOf id truthResult (R.validate p) c
  | .format p => replyOf id textResult (R.format p) c
  | .parse p => replyOf id textResult (R.parse p) c
  | .getSymbols p => replyOf id symbolsOfText (R.getSymbols p) c
  | .exportAs p => replyOf id textResult (R.exportAs p) c
  | .init _ => (.failure id .notReady "init: no capability installed", c)

namespace Phase

variable {σ κ : Type}

/-- The text for an action that came too early. -/
def tooEarly (readiness : Readiness) (action : Action) : String :=
  match readiness with
  | .idle => action.name ++ " rejected: worker is not initialized; send init first"
  | _ => action.name ++ " requires the Full Engine; it is still loading"

/-- The slot that serves actions of a required readiness. -/
def slot (p : Phase σ κ) : Readiness → Option Installed
  | .idle => none
  | .readerOnly => p.active
  | .full => p.engine

/-- Judge an action by the present readiness and pick the capability that will serve it. -/
def gate (p : Phase σ κ) (action : Action) : Except Failure (Option Handle) :=
  if p.readiness < action.required then .error (.notReady (tooEarly p.readiness action))
  else
    match action.required, p.slot action.required with
    | .idle, _ => .ok none
    | _, some installed => .ok (some installed.handle)
    | _, none => .error (.notReady (action.name ++ ": no capability installed"))

end Phase

namespace Host

variable {σ κ : Type}

/-- A host that has seen nothing. -/
def empty (store : σ) : Host σ κ :=
  ⟨Phase.empty store, [], true, true, [], [], false⟩

/-- The work that a well-formed request leaves. -/
def workFor (p : Phase σ κ) (m : Message) : Work :=
  match p.gate m.action, m.action with
  | .error f, _ => .refuse f
  | .ok _, .init payload => .begin payload
  | .ok (some handle), action => .compute handle action
  | .ok none, action => .refuse (.notReady (action.name ++ ": no capability installed"))

/-- The handler of a frame; a frame without a usable id gets none. -/
def handlerOf (p : Phase σ κ) (frame : Json) : Option Handler :=
  match Message.ofFrame frame with
  | .ok m => some ⟨m.id, workFor p m⟩
  | .error ⟨some id, fault⟩ => some ⟨id, .refuse (.invalid fault.message)⟩
  | .error ⟨none, _⟩ => none

/-- Deliver a frame; a host that has stopped or whose inbox is closed gets none. -/
def deliver (h : Host σ κ) (frame : Json) : Host σ κ :=
  if h.accepting ∧ ¬ h.stopped then { h with inbox := h.inbox ++ [frame] } else h

/-- Receive the oldest frame, or see the end of the inbox. -/
def receive (h : Host σ κ) : Host σ κ :=
  match h.inbox with
  | frame :: rest =>
    { h with
      inbox := rest
      handlers := h.handlers ++ (handlerOf h.phase frame).toList }
  | [] => if h.accepting then h else { h with listening := false }

/-- End a handler with its reply. -/
def emit (h : Host σ κ) (n : Nat) (reply : Reply) : Host σ κ :=
  { h with
    handlers := h.handlers.eraseIdx n
    outbox := h.outbox ++ [reply] }

/-- The reply to a request for a version that has ended. -/
def requestReply (id : UInt64) : Except LoadError Readiness → Reply
  | .ok readiness => .ok id (InitOutcome.ofReadiness readiness).toJson
  | .error e => .ofResult id (.error (.load e))

/-- Go on with a handler. -/
def poll (B : Backend σ κ) (h : Host σ κ) (n : Nat) : Host σ κ :=
  match h.handlers[n]? with
  | none => h
  | some ⟨id, .refuse failure⟩ => h.emit n (.ofResult id (.error failure))
  | some ⟨id, .compute handle action⟩ =>
    match h.phase.loader.product? handle with
    | some c =>
      let (reply, c) := B.runtime.reply id c action
      let loader := h.phase.loader.replaceProduct handle c
      { h with phase := { h.phase with loader := loader } }.emit n reply
    | none => h
  | some ⟨id, .begin payload⟩ =>
    { h with
      phase := h.phase.request payload.version payload.sources
      handlers := h.handlers.set n ⟨id, .await h.phase.requests.length⟩ }
  | some ⟨id, .await request⟩ =>
    match (h.phase.requests[request]?).bind Request.result? with
    | some result => h.emit n (requestReply id result)
    | none => h

/-- Whether the host has seen the end of its inbox and no handler is left. -/
def isDone (h : Host σ κ) : Bool :=
  !h.listening && h.handlers.isEmpty

/-- What an event does; a host that has stopped only moves in the background. -/
def step (B : Backend σ κ) (h : Host σ κ) : HostEvent → Host σ κ
  | .deliver frame => h.deliver frame
  | .close => { h with accepting := false }
  | .receive => if h.listening ∧ ¬ h.stopped then h.receive else h
  | .poll n => if h.stopped then h else h.poll B n
  | .background (.request _ _) => h
  | .background event => { h with phase := h.phase.step B event }
  | .stop => if h.isDone then { h with stopped := true } else h

/-- What a sequence of events does. -/
def run (B : Backend σ κ) (h : Host σ κ) (events : List HostEvent) : Host σ κ :=
  events.foldl (step B) h

end Host
end PhaseHost
