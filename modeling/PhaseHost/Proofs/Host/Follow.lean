import PhaseHost.Proofs.Host.Moves

/-! # Following one handler

    Handlers have no names: a handler is known by its place, and it moves up when
    one before it ends.  `Host.follow` says where an event leaves the handler at
    a place, or which reply it ended with, and `Host.fate` says it for a sequence
    of events.

    A handler that has begun stays the same handler for as long as it is in
    flight, and it only ends when it is polled itself.

    A `Receipt` is a moment at which a host receives a frame.  The handler of the
    frame goes in behind all others, so its fate is the fate of that place. -/

namespace PhaseHost

/-- What has become of a handler. -/
inductive Fate where
  | inFlight (place : Nat)
  | ended (reply : Reply)
  deriving DecidableEq, Repr

namespace Host

variable {σ κ : Type}

/-- What an event makes of the handler at a place. -/
def follow (B : Backend σ κ) (h : Host σ κ) (n : Nat) (event : HostEvent) : Fate :=
  match event, h.reply? B event with
  | .poll m, some reply =>
    if m = n then .ended reply else .inFlight (if m < n then n - 1 else n)
  | _, _ => .inFlight n

/-- What a sequence of events makes of the handler at a place. -/
def fate (B : Backend σ κ) (h : Host σ κ) (n : Nat) : List HostEvent → Fate
  | [] => .inFlight n
  | event :: rest =>
    match h.follow B n event with
    | .inFlight m => fate B (h.step B event) m rest
    | .ended reply => .ended reply

variable {B : Backend σ κ} {h : Host σ κ} {n m : Nat} {handler : Handler} {reply : Reply}
  {event : HostEvent} {events more : List HostEvent}

/-- A handler that ended is not followed any further. -/
theorem fate_cons_ended (hf : h.follow B n event = .ended reply) :
    h.fate B n (event :: events) = .ended reply := by
  simp only [fate, hf]

/-- A handler in flight is followed from its new place. -/
theorem fate_cons_inFlight (hf : h.follow B n event = .inFlight m) :
    h.fate B n (event :: events) = (h.step B event).fate B m events := by
  simp only [fate, hf]

/-- A handler still in flight after some events is followed on from there. -/
theorem fate_append (hf : h.fate B n events = .inFlight m) :
    h.fate B n (events ++ more) = (h.run B events).fate B m more := by
  induction events generalizing h n with
  | nil =>
      cases hf
      rfl
  | cons event rest ih =>
      cases hfollow : h.follow B n event with
      | inFlight k =>
          rw [fate_cons_inFlight hfollow] at hf
          rw [List.cons_append, fate_cons_inFlight hfollow, ih hf]
          rfl
      | ended reply =>
          rw [fate_cons_ended hfollow] at hf
          exact nomatch hf

/-- Without a reply, every handler keeps its place. -/
theorem follow_of_silent (hreply : h.reply? B event = none) : h.follow B n event = .inFlight n := by
  simp only [follow]
  rw [hreply]
  cases event <;> rfl

/-- With a reply, one handler ends and those behind it move up by one place. -/
theorem Ends.follow {k : Nat} (hends : Ends h event (h.step B event) k reply) :
    h.follow B n event
      = if k = n then .ended reply else .inFlight (if k < n then n - 1 else n) := by
  have hreply := reply?_of_outbox hends.outbox
  obtain rfl := hends.polled
  simp only [Host.follow]
  rw [hreply]

theorem Ends.getElem?_moved {k : Nat} (hends : Ends h event (h.step B event) k reply)
    (hkn : k ≠ n) : (h.step B event).handlers[if k < n then n - 1 else n]? = h.handlers[n]? := by
  rw [hends.handlers, List.getElem?_eraseIdx]
  by_cases hlt : k < n
  · rw [if_pos hlt, if_neg (by omega), Nat.sub_add_cancel (by omega)]
  · rw [if_neg hlt, if_pos (by omega)]

/-- Following finds the same handler again. -/
theorem follow_inFlight (here : h.handlers[n]? = some handler)
    (begun : ∀ payload, handler.work ≠ .begin payload)
    (hf : h.follow B n event = .inFlight m) :
    (h.step B event).handlers[m]? = some handler := by
  cases hreply : h.reply? B event with
  | none =>
      rw [follow_of_silent hreply] at hf
      obtain rfl := Fate.inFlight.inj hf
      exact stay_of_reply? hreply n handler here begun
  | some reply =>
      obtain ⟨k, hends⟩ := ends_of_reply? hreply
      rw [hends.follow] at hf
      by_cases hkn : k = n
      · rw [if_pos hkn] at hf
        exact nomatch hf
      · rw [if_neg hkn] at hf
        obtain rfl := Fate.inFlight.inj hf
        exact (hends.getElem?_moved hkn).trans here

/-- A handler only ends when it is polled itself. -/
theorem follow_ended (hf : h.follow B n event = .ended reply) :
    event = .poll n ∧ h.reply? B event = some reply := by
  cases hreply : h.reply? B event with
  | none =>
      rw [follow_of_silent hreply] at hf
      exact nomatch hf
  | some reply' =>
      obtain ⟨k, hends⟩ := ends_of_reply? hreply
      rw [hends.follow] at hf
      by_cases hkn : k = n
      · rw [if_pos hkn] at hf
        obtain rfl := Fate.ended.inj hf
        exact ⟨hkn ▸ hends.polled, rfl⟩
      · rw [if_neg hkn] at hf
        exact nomatch hf

/-- A handler that is polled and gives a reply ends with it. -/
theorem fate_poll (hreply : h.reply? B (.poll n) = some reply) :
    h.fate B n [.poll n] = .ended reply := by
  refine fate_cons_ended ?_
  simp only [follow]
  rw [hreply]
  exact if_pos rfl

/-- **THE SAME HANDLER** is in flight all along. -/
theorem fate_inFlight (here : h.handlers[n]? = some handler)
    (begun : ∀ payload, handler.work ≠ .begin payload)
    (hf : h.fate B n events = .inFlight m) : (h.run B events).handlers[m]? = some handler := by
  induction events generalizing h n with
  | nil =>
      cases hf
      exact here
  | cons event rest ih =>
      cases hfollow : h.follow B n event with
      | inFlight k =>
          rw [fate_cons_inFlight hfollow] at hf
          exact ih (follow_inFlight here begun hfollow) hf
      | ended reply =>
          rw [fate_cons_ended hfollow] at hf
          exact nomatch hf

/-- A handler that has ended did so at one moment, when it was polled at the place
    it had then. -/
theorem fate_ended (hf : h.fate B n events = .ended reply) :
    ∃ earlier place later, events = earlier ++ .poll place :: later
      ∧ h.fate B n earlier = .inFlight place
      ∧ (h.run B earlier).reply? B (.poll place) = some reply := by
  induction events generalizing h n with
  | nil => exact nomatch hf
  | cons event rest ih =>
      cases hfollow : h.follow B n event with
      | inFlight k =>
          rw [fate_cons_inFlight hfollow] at hf
          obtain ⟨earlier, place, later, hrest, hin, hreply⟩ := ih hf
          refine ⟨event :: earlier, place, later, congrArg _ hrest, ?_, hreply⟩
          rw [fate_cons_inFlight hfollow]
          exact hin
      | ended reply' =>
          rw [fate_cons_ended hfollow] at hf
          cases hf
          obtain ⟨rfl, hreply⟩ := follow_ended hfollow
          exact ⟨[], n, rest, rfl, rfl, hreply⟩

end Host

/-- A moment at which a host that was started on a store receives a frame. -/
structure Receipt {σ κ : Type} (B : Backend σ κ) (frame : Json) where
  store : σ
  /-- All that has happened to the host before. -/
  before : List HostEvent
  /-- The frame comes next. -/
  next : ((Host.empty store : Host σ κ).run B before).taken? .receive = some frame

namespace Receipt

variable {σ κ : Type} {B : Backend σ κ} {frame : Json}

/-- The host that receives the frame. -/
def host (r : Receipt B frame) : Host σ κ :=
  (Host.empty r.store).run B r.before

/-- The host once it has received the frame and some events have happened. -/
def after (r : Receipt B frame) (events : List HostEvent) : Host σ κ :=
  (r.host.step B .receive).run B events

/-- What has become of the handler of the frame after some events. -/
def fate (r : Receipt B frame) (events : List HostEvent) : Fate :=
  (r.host.step B .receive).fate B r.host.handlers.length events

/-- All along, the host has run from its beginning. -/
theorem after_eq (r : Receipt B frame) (events : List HostEvent) :
    r.after events = (Host.empty r.store).run B (r.before ++ .receive :: events) := by
  rw [Host.run_append]
  rfl

/-- What receiving the frame does: its handler goes in behind all others. -/
theorem step_receive (r : Receipt B frame) :
    r.host.step B .receive
      = { r.host with
          inbox := r.host.inbox.tail
          handlers := r.host.handlers ++ (Host.handlerOf r.host.phase frame).toList } :=
  Host.step_receive_of_taken r.next

end Receipt
end PhaseHost
