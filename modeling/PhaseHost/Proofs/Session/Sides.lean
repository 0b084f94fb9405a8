import PhaseHost.Proofs.Client.Closing
import PhaseHost.Proofs.Host.Origins
import PhaseHost.Session

/-! # The two sides of a session

    What happens to a session happens to its client or to its host, and the channels
    between them carry the consequences over.  So each side has a run of its own:
    `hostSide` and `clientSide` list the events that it sees, and everything proved of
    hosts and of clients alone holds of the two sides.

    What is known beyond that is where the events of a side come from:

    * a host is delivered only frames that the client has sent;
    * a client gets only replies that the host has made;
    * its channels close only when the host has stopped. -/

namespace PhaseHost

variable {σ κ : Type}

namespace Host

variable {B : Backend σ κ} {h : Host σ κ}

/-- Frames that are carried over are delivered one by one. -/
theorem run_deliver (B : Backend σ κ) (h : Host σ κ) (frames : List Json) :
    frames.foldl deliver h = h.run B (frames.map HostEvent.deliver) := by
  induction frames generalizing h with
  | nil => rfl
  | cons frame rest ih => exact ih (h.deliver frame)

/-- A host that has stopped stays so. -/
theorem stopped_step (hstopped : h.stopped = true) (event : HostEvent) :
    (h.step B event).stopped = true := by
  have hmove := move_step B h event
  generalize h.step B event = h' at hmove
  cases hmove with
  | stop done => rfl
  | stay unadmitted untaken => exact hstopped
  | deliver takes => exact hstopped
  | close => exact hstopped
  | receive listens next => exact hstopped
  | hangUp dry closed => exact hstopped
  | refuse runs here => exact hstopped
  | serve runs here made => exact hstopped
  | begin runs here => exact hstopped
  | answer runs here ended => exact hstopped
  | background event => exact hstopped

/-- A host that has stopped stays so in every run. -/
theorem stopped_run (hstopped : h.stopped = true) (events : List HostEvent) :
    (h.run B events).stopped = true := by
  induction events generalizing h with
  | nil => exact hstopped
  | cons event rest ih => exact ih (stopped_step hstopped event)

/-- A reply that is out stays out. -/
theorem mem_outbox_run {reply : Reply} (hreply : reply ∈ h.outbox) (events : List HostEvent) :
    reply ∈ (h.run B events).outbox := by
  induction events generalizing h with
  | nil => exact hreply
  | cons event rest ih =>
      refine ih ?_
      rw [outbox_step]
      exact List.mem_append_left _ hreply

end Host

/-- The frame that an event delivers. -/
def HostEvent.delivery? : HostEvent → Option Json
  | .deliver frame => some frame
  | _ => none

/-- A frame that is received was delivered. -/
theorem Receipt.delivered {B : Backend σ κ} {frame : Json} (r : Receipt B frame) :
    .deliver frame ∈ r.before := by
  have hinbox : frame ∈ r.host.inbox := by
    have hnext : (if r.host.listening ∧ ¬ r.host.stopped then r.host.inbox.head? else none)
        = some frame := r.next
    by_cases hlistens : r.host.listening ∧ ¬ r.host.stopped
    · rw [if_pos hlistens] at hnext
      exact List.mem_of_head? hnext
    · rw [if_neg hlistens] at hnext
      exact nomatch hnext
  have hmem : frame ∈ Host.delivered B (Host.empty r.store) r.before := by
    rw [Host.delivered_run]
    exact List.mem_append_right _ hinbox
  obtain ⟨event, hevent, h, hadmitted⟩ := exists_of_mem_trail hmem
  cases event with
  | deliver frame' =>
      change (if h.accepting ∧ ¬ h.stopped then some frame' else none) = some frame at hadmitted
      by_cases htakes : h.accepting ∧ ¬ h.stopped
      · rw [if_pos htakes] at hadmitted
        obtain rfl := Option.some.inj hadmitted
        exact hevent
      · rw [if_neg htakes] at hadmitted
        exact nomatch hadmitted
  | close => exact nomatch hadmitted
  | receive => exact nomatch hadmitted
  | poll n => exact nomatch hadmitted
  | background event => exact nomatch hadmitted
  | stop => exact nomatch hadmitted

namespace Client

variable {c : Client} {frame : Json} {r : Reply}

/-- Replies that are carried over arrive one by one. -/
theorem run_arrive (c : Client) (frames : List Json) :
    frames.foldl arrive c = c.run (frames.map ClientEvent.arrive) := by
  induction frames generalizing c with
  | nil => rfl
  | cons frame rest ih => exact ih (c.arrive frame)

/-- A client does not take back what it has sent. -/
theorem sent_grows (c : Client) (event : ClientEvent) :
    ∃ frames, (c.step event).sent = c.sent ++ frames := by
  rcases (move_step c event).sends with ⟨-, hsent⟩ | ⟨n, action, id, early, -, -, hsent, -⟩
  · exact ⟨[], hsent.trans (List.append_nil _).symm⟩
  · exact ⟨_, hsent⟩

/-- Only the client itself sends frames. -/
theorem sent_of_foreign {event : ClientEvent} (c : Client)
    (hforeign : Session.isOwn event = false) : (c.step event).sent = c.sent := by
  cases event with
  | arrive frame =>
      show (if c.repliesOpen then _ else c).sent = c.sent
      split <;> rfl
  | closeReplies => rfl
  | hangUp => rfl
  | call action => exact nomatch hforeign
  | take n => exact nomatch hforeign
  | park n => exact nomatch hforeign
  | hand n => exact nomatch hforeign
  | abandon n => exact nomatch hforeign
  | settle => exact nomatch hforeign
  | drain => exact nomatch hforeign

/-- A frame is admitted as it arrives. -/
theorem event_of_admitted {event : ClientEvent} (h : c.note? event = some (.admitted frame)) :
    event = .arrive frame := by
  have hmove := move_step c event
  rw [h] at hmove
  generalize c.step event = c' at hmove
  cases hmove with
  | arrive comes => rfl

/-- What is heard is what the frame says. -/
theorem reply_of_heard {event : ClientEvent} (h : c.note? event = some (.heard frame (some r))) :
    Reply.ofJson frame = .ok r := by
  have hmove := move_step c event
  rw [h] at hmove
  generalize c.step event = c' at hmove
  cases hmove with
  | answer oldest answers => exact (answerIn?_eq_some_iff.mp answers).1

/-- An answer came in as a reply frame. -/
theorem arrive_of_answer {events : List ClientEvent} (hr : r ∈ empty.answers events) :
    ∃ frame, .arrive frame ∈ events ∧ Reply.ofJson frame = .ok r := by
  obtain ⟨note, hnote, hanswer⟩ := List.mem_filterMap.mp hr
  cases note with
  | heard frame answer =>
      obtain rfl : answer = some r := hanswer
      obtain ⟨event, -, c, hevent⟩ := exists_of_mem_trail hnote
      -- what was looked at has come in before
      have hheard : frame ∈ empty.heard events := List.mem_filterMap.mpr ⟨_, hnote, rfl⟩
      have hadmitted : frame ∈ empty.admitted events := by
        rw [queue_run]
        exact List.mem_append_left _ hheard
      obtain ⟨note', hnote', hframe⟩ := List.mem_filterMap.mp hadmitted
      cases note' with
      | admitted frame' =>
          obtain rfl : frame' = frame := Option.some.inj hframe
          obtain ⟨event', hevent', c', hadmits⟩ := exists_of_mem_trail hnote'
          exact ⟨frame', event_of_admitted hadmits ▸ hevent', reply_of_heard hevent⟩
      | numbered id => exact nomatch hframe
      | listed m => exact nomatch hframe
      | handed m => exact nomatch hframe
      | heard frame' answer => exact nomatch hframe
  | numbered id => exact nomatch hanswer
  | listed m => exact nomatch hanswer
  | handed m => exact nomatch hanswer
  | admitted frame => exact nomatch hanswer

/-- A channel that is gone was closed. -/
theorem closed_of_gone (events : List ClientEvent) :
    ((empty.run events).repliesOpen = false → .closeReplies ∈ events)
      ∧ ((empty.run events).hostListens = false → .hangUp ∈ events) := by
  induction events using List.reverseRecOn with
  | nil => exact ⟨nofun, nofun⟩
  | append_singleton events event ih =>
      rw [run_concat]
      obtain ⟨hreplies, hlistens⟩ := (move_step (empty.run events) event).channels
      constructor
      · intro hgone
        rcases hreplies with hsame | ⟨rfl, -⟩
        · exact List.mem_append_left _ (ih.1 (hsame.symm.trans hgone))
        · exact List.mem_append_right _ (List.mem_singleton_self _)
      · intro hgone
        rcases hlistens with hsame | ⟨rfl, -⟩
        · exact List.mem_append_left _ (ih.2 (hsame.symm.trans hgone))
        · exact List.mem_append_right _ (List.mem_singleton_self _)

end Client

namespace Session

variable {B : Backend σ κ} {s : Session σ κ} {event : SessionEvent}

/-- What the host sees of an event. -/
def hostEvents (s : Session σ κ) : SessionEvent → List HostEvent
  | .client event =>
    if isOwn event then
      ((s.client.step event).sent.drop s.client.sent.length).map HostEvent.deliver
    else []
  | .host (.deliver _) => []
  | .host event => [event]

/-- What the client sees of an event. -/
def clientEvents (B : Backend σ κ) (s : Session σ κ) : SessionEvent → List ClientEvent
  | .client event => if isOwn event then [event] else []
  | .host (.deliver _) => []
  | .host event =>
    ((s.host.step B event).outbox.drop s.host.outbox.length).map
        (fun reply => ClientEvent.arrive reply.toJson)
      ++ if (s.host.step B event).stopped then [.closeReplies, .hangUp] else []

/-- The run of the host. -/
def hostSide (B : Backend σ κ) (s : Session σ κ) (events : List SessionEvent) : List HostEvent :=
  (trail (step B) (fun s event => some (s.hostEvents event)) s events).flatten

/-- The run of the client. -/
def clientSide (B : Backend σ κ) (s : Session σ κ) (events : List SessionEvent) :
    List ClientEvent :=
  (trail (step B) (fun s event => some (s.clientEvents B event)) s events).flatten

theorem run_concat (B : Backend σ κ) (s : Session σ κ) (events : List SessionEvent)
    (event : SessionEvent) : s.run B (events ++ [event]) = (s.run B events).step B event :=
  List.foldl_append

theorem hostSide_concat (B : Backend σ κ) (s : Session σ κ) (events : List SessionEvent)
    (event : SessionEvent) :
    hostSide B s (events ++ [event])
      = hostSide B s events ++ (s.run B events).hostEvents event :=
  flatten_trail_concat ..

theorem clientSide_concat (B : Backend σ κ) (s : Session σ κ) (events : List SessionEvent)
    (event : SessionEvent) :
    clientSide B s (events ++ [event])
      = clientSide B s events ++ (s.run B events).clientEvents B event :=
  flatten_trail_concat ..

/-- Closing the channels leaves the host alone. -/
theorem closeChannels_host (s : Session σ κ) : s.closeChannels.host = s.host := by
  simp only [closeChannels]
  split <;> rfl

/-- The client learns that its channels are closed once the host has stopped. -/
theorem closeChannels_client (s : Session σ κ) :
    s.closeChannels.client
      = s.client.run (if s.host.stopped then [.closeReplies, .hangUp] else []) := by
  simp only [closeChannels]
  split <;> rfl

/-- What an event of the host, other than a delivery, does to the two sides. -/
theorem carryReplies_eq (s : Session σ κ) (made : Nat) :
    (s.carryReplies made).host = s.host
      ∧ (s.carryReplies made).client = s.client.run
          (((s.host.outbox.drop made).map (fun reply => ClientEvent.arrive reply.toJson))
            ++ if s.host.stopped then [.closeReplies, .hangUp] else []) := by
  simp only [carryReplies]
  rw [closeChannels_host, closeChannels_client, Client.run_append]
  refine ⟨rfl, ?_⟩
  have harrive := Client.run_arrive s.client ((s.host.outbox.drop made).map Reply.toJson)
  rw [List.foldl_map, List.map_map] at harrive
  exact congrArg (fun c : Client => c.run _) harrive

/-- The host of a session sees its own side of it. -/
theorem step_host (B : Backend σ κ) (s : Session σ κ) (event : SessionEvent) :
    (s.step B event).host = s.host.run B (s.hostEvents event) := by
  cases event with
  | client event =>
      simp only [step, hostEvents]
      by_cases hown : isOwn event = true
      · rw [if_pos hown, if_pos hown]
        exact Host.run_deliver B s.host _
      · rw [if_neg hown, if_neg hown]
        rfl
  | host event =>
      cases event with
      | deliver frame => rfl
      | close => exact (carryReplies_eq _ _).1
      | receive => exact (carryReplies_eq _ _).1
      | poll n => exact (carryReplies_eq _ _).1
      | background event => exact (carryReplies_eq _ _).1
      | stop => exact (carryReplies_eq _ _).1

/-- The client of a session sees its own side of it. -/
theorem step_client (B : Backend σ κ) (s : Session σ κ) (event : SessionEvent) :
    (s.step B event).client = s.client.run (s.clientEvents B event) := by
  cases event with
  | client event =>
      simp only [step, clientEvents]
      by_cases hown : isOwn event = true
      · rw [if_pos hown, if_pos hown]
        rfl
      · rw [if_neg hown, if_neg hown]
        rfl
  | host event =>
      cases event with
      | deliver frame => rfl
      | close => exact (carryReplies_eq _ _).2
      | receive => exact (carryReplies_eq _ _).2
      | poll n => exact (carryReplies_eq _ _).2
      | background event => exact (carryReplies_eq _ _).2
      | stop => exact (carryReplies_eq _ _).2

/-- **TWO SIDES**: the host of a session runs by itself, and so does the client. -/
theorem sides_run (B : Backend σ κ) (s : Session σ κ) (events : List SessionEvent) :
    (s.run B events).host = s.host.run B (hostSide B s events)
      ∧ (s.run B events).client = s.client.run (clientSide B s events) := by
  induction events using List.reverseRecOn with
  | nil => exact ⟨rfl, rfl⟩
  | append_singleton events event ih =>
      rw [run_concat, hostSide_concat, clientSide_concat, Host.run_append, Client.run_append,
        ← ih.1, ← ih.2]
      exact ⟨step_host .., step_client ..⟩

/-! ## What comes through the channels -/

variable {store : σ} {events : List SessionEvent}

/-- Replies stay out, and a host that has stopped stays so. -/
theorem run_grows (B : Backend σ κ) (s : Session σ κ) (event : SessionEvent) :
    (∀ reply ∈ s.host.outbox, reply ∈ (s.step B event).host.outbox)
      ∧ (s.host.stopped = true → (s.step B event).host.stopped = true) := by
  rw [step_host]
  exact ⟨fun _ h => Host.mem_outbox_run h _, fun h => Host.stopped_run h _⟩

/-- What the client sees of the host: replies, and the end. -/
theorem mem_clientEvents_host {event : ClientEvent} {hostEvent : HostEvent}
    (h : event ∈ s.clientEvents B (.host hostEvent)) :
    (∃ reply ∈ (s.step B (.host hostEvent)).host.outbox, event = .arrive reply.toJson)
    ∨ ((event = .closeReplies ∨ event = .hangUp)
      ∧ (s.step B (.host hostEvent)).host.stopped = true) := by
  have hcarried :
      event ∈ ((s.host.step B hostEvent).outbox.drop s.host.outbox.length).map
          (fun reply => ClientEvent.arrive reply.toJson)
        ++ (if (s.host.step B hostEvent).stopped then [.closeReplies, .hangUp] else []) →
      (∃ reply ∈ (s.host.step B hostEvent).outbox, event = .arrive reply.toJson)
      ∨ ((event = .closeReplies ∨ event = .hangUp)
        ∧ (s.host.step B hostEvent).stopped = true) := by
    intro hmem
    rcases List.mem_append.mp hmem with harrive | hclose
    · obtain ⟨reply, hreply, rfl⟩ := List.mem_map.mp harrive
      exact Or.inl ⟨reply, List.mem_of_mem_drop hreply, rfl⟩
    · by_cases hstopped : (s.host.step B hostEvent).stopped = true
      · rw [if_pos hstopped] at hclose
        rcases List.mem_cons.mp hclose with hfirst | hrest
        · exact Or.inr ⟨Or.inl hfirst, hstopped⟩
        · exact Or.inr ⟨Or.inr (List.mem_singleton.mp hrest), hstopped⟩
      · rw [if_neg hstopped] at hclose
        exact nomatch hclose
  rw [step_host]
  cases hostEvent with
  | deliver frame => exact nomatch h
  | close => exact hcarried h
  | receive => exact hcarried h
  | poll n => exact hcarried h
  | background event => exact hcarried h
  | stop => exact hcarried h

/-- What comes from the host sends nothing. -/
theorem sent_step_host (B : Backend σ κ) (s : Session σ κ) (hostEvent : HostEvent) :
    (s.step B (.host hostEvent)).client.sent = s.client.sent := by
  have hquiet : ∀ (events : List ClientEvent) (c : Client),
      (∀ event ∈ events, isOwn event = false) → (c.run events).sent = c.sent := by
    intro events
    induction events with
    | nil => exact fun _ _ => rfl
    | cons event rest ih =>
        intro c hforeign
        refine (ih (c.step event) (fun e he => hforeign e (List.mem_cons_of_mem _ he))).trans ?_
        exact Client.sent_of_foreign c (hforeign event List.mem_cons_self)
  rw [step_client]
  refine hquiet _ _ ?_
  intro event hmem
  rcases mem_clientEvents_host hmem with ⟨reply, -, rfl⟩ | ⟨rfl | rfl, -⟩
  · rfl
  · rfl
  · rfl

/-- **WHAT IS DELIVERED** to the host is what the client has sent, in order. -/
theorem deliveries_run (B : Backend σ κ) (store : σ) (events : List SessionEvent) :
    (hostSide B (empty store) events).filterMap HostEvent.delivery?
      = ((empty store).run B events).client.sent := by
  induction events using List.reverseRecOn with
  | nil => rfl
  | append_singleton events event ih =>
      rw [hostSide_concat, List.filterMap_append, ih, run_concat]
      generalize (empty store).run B events = s
      cases event with
      | host hostEvent =>
          rw [sent_step_host]
          cases hostEvent <;> exact List.append_nil _
      | client event =>
          rw [step_client]
          simp only [hostEvents, clientEvents]
          by_cases hown : isOwn event = true
          · obtain ⟨frames, hsent⟩ := Client.sent_grows s.client event
            rw [if_pos hown, if_pos hown, hsent, List.drop_left, List.filterMap_map]
            show s.client.sent ++ frames.filterMap some = (s.client.step event).sent
            rw [List.filterMap_some, hsent]
          · rw [if_neg hown, if_neg hown]
            exact List.append_nil _

/-- **ONLY WHAT WAS SENT IS DELIVERED**. -/
theorem sent_of_delivered {frame : Json} (h : .deliver frame ∈ hostSide B (empty store) events) :
    frame ∈ ((empty store).run B events).client.sent := by
  rw [← deliveries_run]
  exact List.mem_filterMap.mpr ⟨_, h, rfl⟩

/-- What comes in at the client is a reply of the host, and its channels are closed
    when the host has stopped. -/
theorem foreign_run {event : ClientEvent} (hforeign : isOwn event = false)
    (h : event ∈ clientSide B (empty store) events) :
    (∃ reply ∈ ((empty store).run B events).host.outbox, event = .arrive reply.toJson)
    ∨ ((event = .closeReplies ∨ event = .hangUp)
      ∧ ((empty store).run B events).host.stopped = true) := by
  induction events using List.reverseRecOn with
  | nil => exact nomatch h
  | append_singleton events last ih =>
      rw [clientSide_concat] at h
      rw [run_concat]
      rcases List.mem_append.mp h with hold | hnew
      · obtain ⟨houtbox, hstopped⟩ := run_grows B ((empty store).run B events) last
        rcases ih hold with ⟨reply, hreply, heq⟩ | ⟨hclose, hstop⟩
        · exact Or.inl ⟨reply, houtbox reply hreply, heq⟩
        · exact Or.inr ⟨hclose, hstopped hstop⟩
      · cases last with
        | host hostEvent => exact mem_clientEvents_host hnew
        | client own =>
            simp only [clientEvents] at hnew
            by_cases hown : isOwn own = true
            · rw [if_pos hown] at hnew
              rw [List.mem_singleton.mp hnew, hown] at hforeign
              exact nomatch hforeign
            · rw [if_neg hown] at hnew
              exact nomatch hnew

/-- **ONLY REPLIES OF THE HOST ARRIVE**. -/
theorem reply_of_arrive {frame : Json} (h : .arrive frame ∈ clientSide B (empty store) events) :
    ∃ reply ∈ ((empty store).run B events).host.outbox, frame = reply.toJson := by
  rcases foreign_run rfl h with ⟨reply, hreply, heq⟩ | ⟨hclose, -⟩
  · exact ⟨reply, hreply, ClientEvent.arrive.inj heq⟩
  · rcases hclose with hclose | hclose <;> exact nomatch hclose

/-- The client finds a channel closed only once the host has stopped. -/
theorem stopped_of_gone
    (hgone : ((empty store).run B events).client.repliesOpen = false
      ∨ ((empty store).run B events).client.hostListens = false) :
    ((empty store).run B events).host.stopped = true := by
  have hclosed : ∀ event : ClientEvent, event = .closeReplies ∨ event = .hangUp →
      event ∈ clientSide B (empty store) events →
      ((empty store).run B events).host.stopped = true := by
    intro event hevent hmem
    have hforeign : isOwn event = false := by
      rcases hevent with rfl | rfl <;> rfl
    rcases foreign_run hforeign hmem with ⟨reply, -, rfl⟩ | ⟨-, hstopped⟩
    · rcases hevent with hevent | hevent <;> exact nomatch hevent
    · exact hstopped
  rw [(sides_run B (empty store) events).2] at hgone
  obtain ⟨hreplies, hlistens⟩ := Client.closed_of_gone (clientSide B (empty store) events)
  rcases hgone with hgone | hgone
  · exact hclosed _ (Or.inl rfl) (hreplies hgone)
  · exact hclosed _ (Or.inr rfl) (hlistens hgone)

end Session
end PhaseHost
