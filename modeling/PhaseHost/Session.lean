import PhaseHost.Client.Basic
import PhaseHost.Host.Basic

/-! # A client and its host

    The request channel of the client is the inbox of the host, and the outbox
    of the host is the reply channel of the client.  When the host stops, both
    channels are gone. -/

namespace PhaseHost

/-- A client wired to a host. -/
structure Session (σ κ : Type) where
  client : Client
  host : Host σ κ

/-- What can happen to the two. -/
inductive SessionEvent where
  | client (event : ClientEvent)
  | host (event : HostEvent)
  deriving Repr

namespace Session

variable {σ κ : Type}

/-- A client and a host that have seen nothing. -/
def empty (store : σ) : Session σ κ :=
  ⟨Client.empty, Host.empty store⟩

/-- Deliver to the host what the client has handed over since it had sent `sent` frames. -/
def carryRequests (s : Session σ κ) (sent : Nat) : Session σ κ :=
  { s with host := (s.client.sent.drop sent).foldl Host.deliver s.host }

/-- Close the client's channels if the host has stopped. -/
def closeChannels (s : Session σ κ) : Session σ κ :=
  if s.host.stopped then
    { s with client := { s.client with repliesOpen := false, hostListens := false } }
  else s

/-- Bring the client what the host has replied since it had made `made` replies. -/
def carryReplies (s : Session σ κ) (made : Nat) : Session σ κ :=
  { s with
    client := (s.host.outbox.drop made).foldl (fun c (r : Reply) => c.arrive r.toJson)
      s.client }.closeChannels

/-- Whether an event is the client's own; the others come from the host. -/
def isOwn : ClientEvent → Bool
  | .arrive _ => false
  | .closeReplies => false
  | .hangUp => false
  | _ => true

/-- What an event does. -/
def step (B : Backend σ κ) (s : Session σ κ) : SessionEvent → Session σ κ
  | .client event =>
    if isOwn event then
      { s with client := s.client.step event }.carryRequests s.client.sent.length
    else s
  | .host (.deliver _) => s
  | .host event => { s with host := s.host.step B event }.carryReplies s.host.outbox.length

/-- What a sequence of events does. -/
def run (B : Backend σ κ) (s : Session σ κ) (events : List SessionEvent) : Session σ κ :=
  events.foldl (step B) s

end Session
end PhaseHost
