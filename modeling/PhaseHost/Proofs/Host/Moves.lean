import PhaseHost.Host.Basic
import PhaseHost.Proofs.Trail

/-! # What a host can do

    `Host.Move` says once what an event can do to a host, with the guard under
    which it does so.  Frames come in at one end and replies go out at the other,
    and three observers watch the traffic:

    * `admitted?`, the frame that an event puts into the inbox;
    * `taken?`, the frame that an event hands over from the inbox;
    * `reply?`, the reply that an event adds to the outbox.

    Trails of the first two list the frames delivered and received so far. -/

namespace PhaseHost

namespace Host

variable {σ κ : Type}

/-- The frame that an event puts into the inbox. -/
def admitted? (h : Host σ κ) : HostEvent → Option Json
  | .deliver frame => if h.accepting ∧ ¬ h.stopped then some frame else none
  | _ => none

/-- The frame that an event hands over from the inbox. -/
def taken? (h : Host σ κ) : HostEvent → Option Json
  | .receive => if h.listening ∧ ¬ h.stopped then h.inbox.head? else none
  | _ => none

/-- The reply that an event adds to the outbox. -/
def reply? (B : Backend σ κ) (h : Host σ κ) (event : HostEvent) : Option Reply :=
  (h.step B event).outbox[h.outbox.length]?

/-- The frames delivered along a sequence of events, in order. -/
def delivered (B : Backend σ κ) (h : Host σ κ) (events : List HostEvent) : List Json :=
  trail (step B) admitted? h events

/-- The frames received along a sequence of events, in order. -/
def received (B : Backend σ κ) (h : Host σ κ) (events : List HostEvent) : List Json :=
  trail (step B) taken? h events

/-- What an event can do to a host. -/
inductive Move (B : Backend σ κ) (h : Host σ κ) : HostEvent → Host σ κ → Prop
  | stay {event} (unadmitted : h.admitted? event = none)
      (untaken : h.taken? event = none) : Move B h event h
  | deliver {frame} (takes : h.accepting ∧ ¬ h.stopped) :
      Move B h (.deliver frame) { h with inbox := h.inbox ++ [frame] }
  | close : Move B h .close { h with accepting := false }
  | receive {frame rest} (listens : h.listening ∧ ¬ h.stopped)
      (next : h.inbox = frame :: rest) :
      Move B h .receive
        { h with
          inbox := rest
          handlers := h.handlers ++ (handlerOf h.phase frame).toList }
  | hangUp (dry : h.inbox = []) (closed : h.accepting = false) :
      Move B h .receive { h with listening := false }
  | refuse {n id failure} (runs : ¬ h.stopped)
      (here : h.handlers[n]? = some ⟨id, .refuse failure⟩) :
      Move B h (.poll n) (h.emit n (.ofResult id (.error failure)))
  | serve {n id handle action c} (runs : ¬ h.stopped)
      (here : h.handlers[n]? = some ⟨id, .compute handle action⟩)
      (made : h.phase.loader.product? handle = some c) :
      Move B h (.poll n)
        ({ h with
            phase := { h.phase with
              loader := h.phase.loader.replaceProduct handle
                (B.runtime.reply id c action).2 } }.emit n (B.runtime.reply id c action).1)
  | begin {n id payload} (runs : ¬ h.stopped)
      (here : h.handlers[n]? = some ⟨id, .begin payload⟩) :
      Move B h (.poll n)
        { h with
          phase := h.phase.request payload.version payload.sources
          handlers := h.handlers.set n ⟨id, .await h.phase.requests.length⟩ }
  | answer {n id request result} (runs : ¬ h.stopped)
      (here : h.handlers[n]? = some ⟨id, .await request⟩)
      (ended : (h.phase.requests[request]?).bind Request.result? = some result) :
      Move B h (.poll n) (h.emit n (requestReply id result))
  | background (event) :
      Move B h (.background event) { h with phase := h.phase.step B event }
  | stop (done : h.isDone = true) : Move B h .stop { h with stopped := true }

/-- An empty inbox hands nothing over. -/
theorem taken?_of_dry {h : Host σ κ} (dry : h.inbox = []) : h.taken? .receive = none := by
  show (if h.listening ∧ ¬ h.stopped then h.inbox.head? else none) = none
  rw [dry]
  exact ite_self none

theorem move_receive (B : Backend σ κ) (h : Host σ κ) :
    Move B h .receive (h.step B .receive) := by
  show Move B h .receive (if h.listening ∧ ¬ h.stopped then h.receive else h)
  by_cases listens : h.listening ∧ ¬ h.stopped
  · rw [if_pos listens]
    simp only [receive]
    split
    next frame rest next => exact .receive listens next
    next dry =>
      by_cases accepts : h.accepting
      · rw [if_pos accepts]
        exact .stay rfl (taken?_of_dry dry)
      · rw [if_neg accepts]
        exact .hangUp dry (Bool.eq_false_iff.mpr accepts)
  · rw [if_neg listens]
    exact .stay rfl (if_neg listens)

theorem move_poll (B : Backend σ κ) (h : Host σ κ) (n : Nat) :
    Move B h (.poll n) (h.step B (.poll n)) := by
  show Move B h (.poll n) (if h.stopped then h else h.poll B n)
  by_cases runs : h.stopped
  · rw [if_pos runs]
    exact .stay rfl rfl
  · rw [if_neg runs]
    simp only [poll]
    split
    next => exact .stay rfl rfl
    next id failure here => exact .refuse runs here
    next id handle action here =>
      split
      next c made => exact .serve runs here made
      next => exact .stay rfl rfl
    next id payload here => exact .begin runs here
    next id request here =>
      split
      next result ended => exact .answer runs here ended
      next => exact .stay rfl rfl

/-- **ONE MOVE AN EVENT**: every event of a host is one of the moves. -/
theorem move_step (B : Backend σ κ) (h : Host σ κ) (event : HostEvent) :
    Move B h event (h.step B event) := by
  cases event with
  | deliver frame =>
      show Move B h _ (if h.accepting ∧ ¬ h.stopped then _ else h)
      by_cases takes : h.accepting ∧ ¬ h.stopped
      · rw [if_pos takes]
        exact .deliver takes
      · rw [if_neg takes]
        exact .stay (if_neg takes) rfl
  | close => exact .close
  | receive => exact move_receive B h
  | poll n => exact move_poll B h n
  | background event =>
      cases event with
      | request version sources => exact .stay rfl rfl
      | resume n => exact .background _
      | startEngine n => exact .background _
      | resumeEngine n => exact .background _
      | load event => exact .background _
  | stop =>
      show Move B h _ (if h.isDone then _ else h)
      by_cases done : h.isDone
      · rw [if_pos done]
        exact .stop done
      · rw [if_neg done]
        exact .stay rfl rfl

theorem run_concat (B : Backend σ κ) (h : Host σ κ) (events : List HostEvent)
    (event : HostEvent) : h.run B (events ++ [event]) = (h.run B events).step B event :=
  List.foldl_append

theorem run_append (B : Backend σ κ) (h : Host σ κ) (events more : List HostEvent) :
    h.run B (events ++ more) = (h.run B events).run B more :=
  List.foldl_append

/-- Receiving a frame takes it from the inbox and adds its handler, if it gets one. -/
theorem step_receive_of_taken {B : Backend σ κ} {h : Host σ κ} {frame : Json}
    (htaken : h.taken? .receive = some frame) :
    h.step B .receive
      = { h with
          inbox := h.inbox.tail
          handlers := h.handlers ++ (handlerOf h.phase frame).toList } := by
  simp only [taken?] at htaken
  by_cases listens : h.listening ∧ ¬ h.stopped
  · rw [if_pos listens] at htaken
    obtain ⟨rest, next⟩ := List.head?_eq_some_iff.mp htaken
    show (if h.listening ∧ ¬ h.stopped then h.receive else h) = _
    rw [if_pos listens]
    simp only [receive]
    rw [next]
    rfl
  · rw [if_neg listens] at htaken
    exact nomatch htaken

/-! ## Replies carry the id of their handler -/

@[simp] theorem id_ofResult (id : UInt64) (result : Except Failure Json) :
    (Reply.ofResult id result).id = id := by
  cases result <;> rfl

@[simp] theorem id_replyOf {α : Type} (id : UInt64) (result : α → Except Failure Json)
    (call : Calling κ α) (c : κ) : (replyOf id result call c).1.id = id := by
  show (Reply.ofCall id result (call c).1).id = id
  cases (call c).1 with
  | answered value => exact id_ofResult id (result value)
  | failed text => rfl
  | brokeDown message => rfl

@[simp] theorem id_reply (R : Runtime κ) (id : UInt64) (c : κ) (action : Action) :
    (R.reply id c action).1.id = id := by
  cases action with
  | init payload => rfl
  | unify payload => exact id_replyOf ..
  | validate payload => exact id_replyOf ..
  | format payload => exact id_replyOf ..
  | parse payload => exact id_replyOf ..
  | getSymbols payload => exact id_replyOf ..
  | exportAs payload => exact id_replyOf ..

@[simp] theorem id_requestReply (id : UInt64) (result : Except LoadError Readiness) :
    (requestReply id result).id = id := by
  cases result with
  | ok readiness => rfl
  | error e => exact id_ofResult ..

/-! ## Handlers stay or end -/

variable {B : Backend σ κ} {h h' : Host σ κ} {event : HostEvent}

/-- An event ENDS the handler at a place with a reply under its id. -/
structure Ends (h : Host σ κ) (event : HostEvent) (h' : Host σ κ) (n : Nat)
    (reply : Reply) : Prop where
  polled : event = .poll n
  own : ∃ handler, h.handlers[n]? = some handler ∧ reply.id = handler.id
  outbox : h'.outbox = h.outbox ++ [reply]
  handlers : h'.handlers = h.handlers.eraseIdx n

/-- A handler that has begun keeps its place. -/
def Stay (h h' : Host σ κ) : Prop :=
  ∀ (n : Nat) (handler : Handler), h.handlers[n]? = some handler →
    (∀ payload, handler.work ≠ .begin payload) → h'.handlers[n]? = some handler

/-- A move ends one handler, or writes no reply and lets all handlers be. -/
theorem Move.ends_or_stay (hmove : Move B h event h') :
    (∃ n reply, Ends h event h' n reply) ∨ (h'.outbox = h.outbox ∧ Stay h h') := by
  cases hmove with
  | refuse runs here =>
      exact Or.inl ⟨_, _, rfl, ⟨_, here, id_ofResult ..⟩, rfl, rfl⟩
  | serve runs here made =>
      exact Or.inl ⟨_, _, rfl, ⟨_, here, id_reply ..⟩, rfl, rfl⟩
  | answer runs here ended =>
      exact Or.inl ⟨_, _, rfl, ⟨_, here, id_requestReply ..⟩, rfl, rfl⟩
  | receive listens next =>
      refine Or.inr ⟨rfl, ?_⟩
      intro n handler hn _
      show (h.handlers ++ _)[n]? = some handler
      rw [List.getElem?_append_left (List.getElem?_eq_some_iff.mp hn).1]
      exact hn
  | @begin m id payload runs here =>
      refine Or.inr ⟨rfl, ?_⟩
      intro n handler hn hbegun
      -- the handler that begins is another one, as this one has begun
      have hmn : m ≠ n := by
        rintro rfl
        rw [here] at hn
        cases hn
        exact hbegun payload rfl
      show (h.handlers.set m _)[n]? = some handler
      rw [List.getElem?_set_ne hmn]
      exact hn
  | stay unadmitted untaken => exact Or.inr ⟨rfl, fun n handler hn _ => hn⟩
  | deliver takes => exact Or.inr ⟨rfl, fun n handler hn _ => hn⟩
  | close => exact Or.inr ⟨rfl, fun n handler hn _ => hn⟩
  | hangUp dry closed => exact Or.inr ⟨rfl, fun n handler hn _ => hn⟩
  | background event => exact Or.inr ⟨rfl, fun n handler hn _ => hn⟩
  | stop done => exact Or.inr ⟨rfl, fun n handler hn _ => hn⟩

/-- An event with a reply ends a handler with it. -/
theorem ends_of_reply? {reply : Reply} (hreply : h.reply? B event = some reply) :
    ∃ n, Ends h event (h.step B event) n reply := by
  simp only [reply?] at hreply
  rcases (move_step B h event).ends_or_stay with ⟨n, reply', hends⟩ | ⟨hsame, -⟩
  · rw [hends.outbox, List.getElem?_concat_length] at hreply
    cases hreply
    exact ⟨n, hends⟩
  · rw [hsame, List.getElem?_eq_none (Nat.le_refl _)] at hreply
    exact nomatch hreply

/-- An event without a reply lets all handlers be. -/
theorem stay_of_reply? (hreply : h.reply? B event = none) : Stay h (h.step B event) := by
  simp only [reply?] at hreply
  rcases (move_step B h event).ends_or_stay with ⟨n, reply, hends⟩ | ⟨-, hstay⟩
  · rw [hends.outbox, List.getElem?_concat_length] at hreply
    exact nomatch hreply
  · exact hstay

/-- The reply of an event is what it adds to the outbox. -/
theorem reply?_of_outbox {reply : Reply}
    (hout : (h.step B event).outbox = h.outbox ++ [reply]) :
    h.reply? B event = some reply := by
  simp only [reply?]
  rw [hout, List.getElem?_concat_length]

end Host
end PhaseHost
