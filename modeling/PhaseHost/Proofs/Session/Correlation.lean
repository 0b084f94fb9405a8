import PhaseHost.Proofs.Session.Results
import PhaseHost.Proofs.Session.Sides

/-! # What a call gets from its handler

    Six pieces lie between a caller and a capability: a request is written and read,
    a handler makes a result of the answer, a reply is written and read, and a result
    is read as the answer to its action.  The pieces are known one by one.  Here they
    are put together over a whole run of a session:

    * a reply in the outbox is what the handler of a frame ended with, and that frame
      is the request of a call (`handled_of_reply`);
    * so a call that ends gets what the handler of its own frame has given, whatever
      the other calls do, or it ends because the host has stopped;
    * what a handler gives is a refusal, the answer of the capability that was picked
      at receipt, or the result of the request that an `init` has made. -/

namespace PhaseHost

variable {σ κ : Type}

/-- In a run of a host, the handler of the frame of a request has ended with a reply. -/
structure Handled (B : Backend σ κ) (store : σ) (events : List HostEvent) (m : Message)
    (reply : Reply) where
  receipt : Receipt B m.toFrame
  /-- What happens between the receipt and the last poll. -/
  between : List HostEvent
  place : Nat
  later : List HostEvent
  started : receipt.store = store
  whole : events = receipt.before ++ .receive :: (between ++ .poll place :: later)
  running : receipt.fate between = .inFlight place
  ended : (receipt.after between).reply? B (.poll place) = some reply

namespace Handled

variable {B : Backend σ κ} {store : σ} {events : List HostEvent} {m : Message} {reply : Reply}

/-- The capability that was picked at receipt, as the last poll finds it. -/
def ServedBy (h : Handled B store events m reply) (c : κ) : Prop :=
  ∃ installed, h.receipt.host.phase.slot m.action.required = some installed
    ∧ (h.receipt.after h.between).phase.loader.product? installed.handle = some c

/-- What a handler gives to the caller. -/
inductive Gives (h : Handled B store events m reply) : Except CallError Answer → Prop
  /-- The action came too early. -/
  | refused (early : h.receipt.host.phase.readiness < m.action.required) :
      Gives h (.error (.remote (some FailureCode.notReady.text)
        (Phase.tooEarly h.receipt.host.phase.readiness m.action)))
  /-- The capability was called. -/
  | served {c} (compute : m.action.required ≠ .idle) (serves : h.ServedBy c) :
      Gives h (B.runtime.typed c m.action)
  /-- The handler's own request of the controller has ended. -/
  | initialized {payload k request result} (init : m.action = .init payload)
      (asks : h.receipt.Asks payload h.between k)
      (here : (h.receipt.after h.between).phase.requests[k]? = some request)
      (done : request.result? = some result) :
      Gives h (typedRequest result)

/-- **WHAT A HANDLER GIVES**, read from its reply. -/
theorem gives (h : Handled B store events m reply) :
    h.Gives (Answer.ofOutcome m.action reply.outcome) := by
  have hread : Message.ofFrame m.toFrame = .ok m := m.ofFrame_toFrame
  by_cases hidle : m.action.required = .idle
  · obtain ⟨payload, hinit⟩ := Action.init_of_idle hidle
    have hm : m = ⟨m.id, .init payload⟩ := hinit ▸ rfl
    obtain ⟨k, request, result, hasks, hrequest, hresult, hreply⟩ :=
      h.receipt.initialized (hread.trans (congrArg Except.ok hm)) h.running h.ended
    have hanswer : Answer.ofOutcome m.action reply.outcome = typedRequest result := by
      rw [hinit, hreply]
      exact ofOutcome_requestReply m.id payload result
    rw [hanswer]
    exact .initialized hinit hasks hrequest hresult
  · obtain ⟨reply', hreply', hjudged⟩ := h.receipt.poll_judged hread hidle h.running
    obtain rfl : reply' = reply := Option.some.inj (hreply'.symm.trans h.ended)
    rcases hjudged with hrefused | ⟨installed, c, hserved⟩
    · have hanswer : Answer.ofOutcome m.action reply'.outcome
          = .error (.remote (some FailureCode.notReady.text)
              (Phase.tooEarly h.receipt.host.phase.readiness m.action)) :=
        congrArg (fun r : Reply => Answer.ofOutcome m.action r.outcome) hrefused.reply_eq
      rw [hanswer]
      exact .refused hrefused.early
    · have hanswer : Answer.ofOutcome m.action reply'.outcome = B.runtime.typed c m.action := by
        rw [hserved.reply_eq]
        exact B.runtime.ofOutcome_reply m.id c m.action
      rw [hanswer]
      exact .served hidle ⟨installed, hserved.picked, hserved.present⟩

/-- An error that a handler gives is reported by the host, or the capability that served
    has not answered with symbols. -/
theorem Gives.error {h : Handled B store events m reply} {e : CallError}
    (hgives : h.Gives (.error e)) :
    e.Reported ∨ ∃ text c, e = .decode text ∧ h.ServedBy c
      ∧ B.runtime.NoSymbols c m.action text := by
  generalize hanswer : Except.error e = answer at hgives
  cases hgives with
  | refused early =>
      obtain rfl := Except.error.inj hanswer
      exact Or.inl (FailureCode.notReady.reported _ nofun)
  | @served c compute serves =>
      refine (B.runtime.error_of_typed c hanswer.symm).imp_right ?_
      rintro ⟨text, rfl, hno⟩
      exact ⟨text, c, rfl, serves, hno⟩
  | @initialized payload k request result init asks here done =>
      cases result with
      | ok readiness => exact nomatch hanswer
      | error fault =>
          obtain rfl := Except.error.inj hanswer
          exact Or.inl (FailureCode.loadFailed.reported _ nofun)

end Handled

namespace Session

variable {B : Backend σ κ} {store : σ} {events : List SessionEvent}

/-- Every frame that was sent is the request of a call. -/
theorem asked_of_sent {frame : Json} (hframe : frame ∈ ((empty store).run B events).client.sent) :
    ∃ (m : Message) (n : Nat) (call : ClientCall), frame = m.toFrame
      ∧ ((empty store).run B events).client.calls[n]? = some call
      ∧ call.id = some m.id ∧ call.action = m.action := by
  rw [(sides_run B (empty store) events).2] at hframe ⊢
  have hhanded := Client.handed_run (clientSide B (empty store) events)
  change frame ∈ (Client.empty.run (clientSide B (empty store) events)).sent at hframe
  rw [hhanded.sent] at hframe
  obtain ⟨m, hm, rfl⟩ := List.mem_map.mp hframe
  obtain ⟨n, call, here, hid, haction, -⟩ := hhanded.reached m hm
  exact ⟨m, n, call, rfl, here, hid, haction⟩

/-- The ids of the frames that were sent are distinct. -/
theorem sent_nodup (few : ((empty store).run B events).client.calls.length < 2 ^ 64) :
    (((empty store).run B events).client.sent.filterMap Message.idOf).Nodup := by
  rw [(sides_run B (empty store) events).2] at few ⊢
  have hhanded := Client.handed_run (clientSide B (empty store) events)
  have hnodup := Client.requests_nodup few
  show ((Client.empty.run (clientSide B (empty store) events)).sent.filterMap _).Nodup
  rw [hhanded.sent, List.filterMap_map,
    show Message.idOf ∘ Message.toFrame = some ∘ Message.id from funext Message.idOf_toFrame,
    List.filterMap_eq_map]
  exact hnodup

/-- A reply of the host is what the handler of the request of a call ended with. -/
theorem handled_of_reply {reply : Reply}
    (hreply : reply ∈ ((empty store).run B events).host.outbox) :
    ∃ (m : Message) (n : Nat) (call : ClientCall),
      ((empty store).run B events).client.calls[n]? = some call
      ∧ call.id = some m.id ∧ call.action = m.action ∧ m.id = reply.id
      ∧ Nonempty (Handled B store (hostSide B (empty store) events) m reply) := by
  rw [(sides_run B (empty store) events).1] at hreply
  obtain ⟨frame, r, more, rest, hstore, hevents, hfate, hid⟩ :=
    Host.reply_origin B store _ hreply
  have hdelivered : .deliver frame ∈ hostSide B (empty store) events := by
    rw [hevents]
    exact List.mem_append_left _ r.delivered
  obtain ⟨m, n, call, rfl, here, hcall, haction⟩ := asked_of_sent (sent_of_delivered hdelivered)
  obtain ⟨between, place, later, rfl, hrunning, hended⟩ := Host.fate_ended hfate
  refine ⟨m, n, call, here, hcall, haction,
    Option.some.inj (m.idOf_toFrame.symm.trans hid), ⟨?_⟩⟩
  exact {
    receipt := r
    between := between
    place := place
    later := later ++ rest
    started := hstore
    whole := by rw [hevents, List.append_assoc, List.cons_append]
    running := hrunning
    ended := hended }

/-- A call that has ended got the reply of its own handler, or the host has stopped. -/
theorem handled_of_outcome {n : Nat} {call : ClientCall} {outcome : Outcome}
    (few : ((empty store).run B events).client.calls.length < 2 ^ 64)
    (here : ((empty store).run B events).client.calls[n]? = some call)
    (hout : call.outcome? = some outcome) :
    (outcome = .error .disconnected ∧ ((empty store).run B events).host.stopped = true)
    ∨ ∃ (id : UInt64) (reply : Reply), call.id = some id ∧ outcome = reply.outcome
      ∧ Nonempty (Handled B store (hostSide B (empty store) events) ⟨id, call.action⟩ reply) := by
  have hclient : ((empty store).run B events).client
      = Client.empty.run (clientSide B (empty store) events) :=
    (sides_run B (empty store) events).2
  have htold : call.stage.told? = some outcome := by
    rw [ClientCall.outcome?_eq_some_iff.mp hout]
    rfl
  have few' := hclient ▸ few
  rcases Client.owed_run few' n call outcome (hclient ▸ here) htold with
    ⟨r, hr, hid, rfl⟩ | ⟨hdisconnected, hgone⟩
  · -- the answer came in as a reply of the host, and its handler is that of this very call
    obtain ⟨frame, harrived, hread⟩ := Client.arrive_of_answer hr
    obtain ⟨reply, hreply, rfl⟩ := reply_of_arrive harrived
    rw [reply.ofJson_toJson] at hread
    obtain rfl := Except.ok.inj hread
    obtain ⟨m, n', call', here', hid', haction, hmid, hhandled⟩ := handled_of_reply hreply
    have hcall : call.id = some m.id := hid.trans (congrArg some hmid.symm)
    have hids := Client.ids_nodup few'
    rw [← hclient] at hids
    obtain rfl := index_unique hids here' here hid' hcall
    obtain rfl := Option.some.inj (here'.symm.trans here)
    refine Or.inr ⟨m.id, reply, hcall, reply.outcome_heard, ?_⟩
    rw [haction]
    exact hhandled
  · exact Or.inl ⟨hdisconnected, stopped_of_gone (hclient ▸ hgone)⟩

/-- **EVERY CALL ENDS AS ITS OWN FRAME WAS HANDLED**.

    For a client wired to a host, fewer than `2 ^ 64` calls of any actions (to unify a
    workspace is a `unify` of what it holds), and any order of steps on both sides:

    * the host runs by itself, and it is delivered what the client has sent;
    * no two frames that were sent have the same id, and the host reads each as the very
      action of its call;
    * a call that has ended got what the handler of its own frame has given, or it is
      disconnected and the host has stopped;
    * no call ends with an error of writing or of accepting its request, and only a call
      for symbols ends with an error of reading: its capability has answered with a
      JSON text that is no list of symbols. -/
theorem calls_end_as_handled (B : Backend σ κ) (store : σ) (events : List SessionEvent)
    (few : ((empty store).run B events).client.calls.length < 2 ^ 64) :
    let s := (empty store).run B events
    let onHost := hostSide B (empty store) events
    -- the host
    (s.host = (Host.empty store).run B onHost
      ∧ onHost.filterMap HostEvent.delivery? = s.client.sent)
    -- the frames
    ∧ ((s.client.sent.filterMap Message.idOf).Nodup
      ∧ ∀ frame ∈ s.client.sent, ∃ (n : Nat) (call : ClientCall) (id : UInt64),
          s.client.calls[n]? = some call ∧ call.id = some id
          ∧ Message.ofFrame frame = .ok ⟨id, call.action⟩)
    -- the outcomes
    ∧ ∀ (n : Nat) (call : ClientCall) (outcome : Outcome),
        s.client.calls[n]? = some call → call.outcome? = some outcome →
        let result := Answer.ofOutcome call.action outcome
        ((result = .error .disconnected ∧ s.host.stopped = true)
          ∨ ∃ (id : UInt64) (reply : Reply) (h : Handled B store onHost ⟨id, call.action⟩ reply),
              call.id = some id ∧ outcome = reply.outcome ∧ h.Gives result
              ∧ ∀ text, result = .error (.decode text) →
                  ∃ c, h.ServedBy c ∧ B.runtime.NoSymbols c call.action text)
        ∧ (∀ text, result ≠ .error (.encode text))
        ∧ (∀ text, result ≠ .error (.remote (some FailureCode.protocolInvalid.text) text))
        ∧ ((∀ p, call.action ≠ .getSymbols p) → ∀ text, result ≠ .error (.decode text)) := by
  intro s onHost
  refine ⟨⟨(sides_run B (empty store) events).1, deliveries_run B store events⟩,
    ⟨sent_nodup few, ?_⟩, ?_⟩
  · intro frame hframe
    obtain ⟨m, n, call, rfl, here, hid, haction⟩ := asked_of_sent hframe
    refine ⟨n, call, m.id, here, hid, ?_⟩
    rw [haction]
    exact m.ofFrame_toFrame
  · intro n call outcome here hout result
    rcases handled_of_outcome few here hout with ⟨rfl, hstopped⟩ | ⟨id, reply, hid, rfl, ⟨h⟩⟩
    · have hend : result = .error .disconnected := rfl
      refine ⟨Or.inl ⟨hend, hstopped⟩, ?_, ?_, ?_⟩
      · exact fun text he => nomatch hend.symm.trans he
      · exact fun text he => nomatch hend.symm.trans he
      · exact fun _ text he => nomatch hend.symm.trans he
    · have hgives : h.Gives result := h.gives
      have herror : ∀ e, result = .error e → e.Reported ∨ ∃ text c, e = .decode text
          ∧ h.ServedBy c ∧ B.runtime.NoSymbols c call.action text := by
        intro e he
        exact Handled.Gives.error (he ▸ hgives)
      have hdecode : ∀ text, result = .error (.decode text) →
          ∃ c, h.ServedBy c ∧ B.runtime.NoSymbols c call.action text := by
        intro text he
        rcases herror _ he with ⟨code, text', -, heq⟩ | ⟨text', c, heq, hserved, hno⟩
        · exact nomatch heq
        · obtain rfl := CallError.decode.inj heq
          exact ⟨c, hserved, hno⟩
      refine ⟨Or.inr ⟨id, reply, h, hid, rfl, hgives, hdecode⟩, ?_, ?_, ?_⟩
      · intro text he
        rcases herror _ he with ⟨code, text', -, heq⟩ | ⟨text', c, heq, -⟩
        · exact nomatch heq
        · exact nomatch heq
      · intro text he
        rcases herror _ he with ⟨code, text', hcode, heq⟩ | ⟨text', c, heq, -⟩
        · obtain ⟨hsame, -⟩ := CallError.remote.inj heq
          exact hcode (FailureCode.text_injective (Option.some.inj hsame)).symm
        · exact nomatch heq
      · intro hnot text he
        obtain ⟨c, -, p, _, _, _, hsymbols, -⟩ := hdecode text he
        exact hnot p hsymbols

/-- An `init`, and a call that is made while its reader is in place; the host replies to
    the second call first. -/
def crossing : List SessionEvent :=
  [.client (.call (.init ⟨"https://x.y/e", "v1", false, none⟩)),
    .client (.take 0), .client (.park 0), .client (.hand 0), .host .receive, .host (.poll 0),
    .host (.background (.load (.look 0))),
    .host (.background (.load (.fetched 0 (.ok (Utf8.encode "reader"))))),
    .host (.background (.load (.make 0))), .host (.background (.load (.keep 0))),
    .host (.background (.resume 0)),
    .client (.call (.format ⟨"a:1"⟩)), .client (.take 1), .client (.park 1), .client (.hand 1),
    .host .receive, .host (.poll 1), .host (.poll 0), .client .settle, .client .settle]

theorem crossing_handled :
    let s := (empty MemoryStore.empty).run StandIn.backend crossing
    s.client.calls.length < 2 ^ 64
    ∧ s.host.outbox.map Reply.id = [2, 1]
    ∧ ∃ (reply : Reply) (h : Handled StandIn.backend MemoryStore.empty
          (hostSide StandIn.backend (empty MemoryStore.empty) crossing)
          ⟨2, .format ⟨"a:1"⟩⟩ reply),
        h.Gives (.ok (.text "a: 1\n")) := by
  intro s
  have few : s.client.calls.length < 2 ^ 64 := by decide
  have here : s.client.calls[1]?
      = some ⟨.format ⟨"a:1"⟩, some 2, .settled (.ok (.str "a: 1\n"))⟩ := rfl
  obtain ⟨-, -, hends⟩ :=
    calls_end_as_handled StandIn.backend MemoryStore.empty crossing few
  refine ⟨few, rfl, ?_⟩
  obtain ⟨⟨hno, -⟩ | ⟨id, reply, h, hid, -, hgives, -⟩, -⟩ := hends 1 _ _ here rfl
  · exact nomatch hno
  · obtain rfl := Option.some.inj hid
    exact ⟨reply, h, hgives⟩

end Session
end PhaseHost
