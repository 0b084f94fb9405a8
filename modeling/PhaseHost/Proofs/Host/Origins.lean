import PhaseHost.Proofs.Host.Judgement

/-! # Where replies come from

    `Receipt.fate` looks ahead: from a frame that is received to the reply it ends
    with.  Here the look is back: every handler in flight is that of a frame that
    was received, and so every reply in the outbox is what the handler of such a
    frame ended with.

    For a request of the module it is known what the handler ends with.  The handler
    of an `init` is followed here.  It has two steps of its own: at the first it makes
    its request of the controller, at the second it gives that request's result. -/

namespace PhaseHost

variable {σ κ : Type}

namespace Host

variable {B : Backend σ κ} {h h' : Host σ κ} {event : HostEvent} {n m : Nat} {handler : Handler}
  {reply : Reply}

theorem concat_ne_self {α : Type} (xs : List α) (x : α) : xs ++ [x] ≠ xs := by
  intro heq
  have hlen := congrArg List.length heq
  rw [List.length_append] at hlen
  exact Nat.succ_ne_self _ hlen

/-- Where nothing is written there is no reply. -/
theorem reply?_of_silent (hsilent : (h.step B event).outbox = h.outbox) :
    h.reply? B event = none := by
  simp only [reply?]
  rw [hsilent]
  exact List.getElem?_eq_none (Nat.le_refl _)

/-- A handler that is there after a move was there before, or belongs to the frame that
    was received. -/
theorem Move.handlers_from (hmove : Move B h event h') (hsilent : h'.outbox = h.outbox)
    (here : h'.handlers[n]? = some handler) :
    (∃ before, h.handlers[n]? = some before ∧ before.id = handler.id)
    ∨ ∃ frame, h.taken? event = some frame ∧ event = .receive ∧ n = h.handlers.length
        ∧ handlerOf h.phase frame = some handler := by
  have hsame : h'.handlers = h.handlers →
      ∃ before, h.handlers[n]? = some before ∧ before.id = handler.id := by
    intro heq
    exact ⟨handler, heq ▸ here, rfl⟩
  cases hmove with
  | @receive frame rest listens next =>
      have htaken : h.taken? .receive = some frame := by
        show (if h.listening ∧ ¬ h.stopped then h.inbox.head? else none) = some frame
        rw [if_pos listens, next]
        rfl
      change (h.handlers ++ (handlerOf h.phase frame).toList)[n]? = some handler at here
      cases hnew : handlerOf h.phase frame with
      | none =>
          rw [hnew, Option.toList_none, List.append_nil] at here
          exact Or.inl ⟨handler, here, rfl⟩
      | some new =>
          rw [hnew, Option.toList_some] at here
          rcases getElem?_concat_iff.mp here with hold | ⟨hlast, rfl⟩
          · exact Or.inl ⟨handler, hold, rfl⟩
          · exact Or.inr ⟨frame, htaken, rfl, hlast, hnew⟩
  | @begin k id payload runs hthere =>
      change (h.handlers.set k _)[n]? = some handler at here
      refine Or.inl ?_
      by_cases hkn : k = n
      · subst hkn
        rw [List.getElem?_set_self (List.getElem?_eq_some_iff.mp hthere).1] at here
        obtain rfl := Option.some.inj here
        exact ⟨_, hthere, rfl⟩
      · rw [List.getElem?_set_ne hkn] at here
        exact ⟨handler, here, rfl⟩
  | refuse runs there => exact absurd hsilent (concat_ne_self _ _)
  | serve runs there made => exact absurd hsilent (concat_ne_self _ _)
  | answer runs there ended => exact absurd hsilent (concat_ne_self _ _)
  | stay unadmitted untaken => exact Or.inl (hsame rfl)
  | deliver takes => exact Or.inl (hsame rfl)
  | close => exact Or.inl (hsame rfl)
  | hangUp dry closed => exact Or.inl (hsame rfl)
  | background event => exact Or.inl (hsame rfl)
  | stop done => exact Or.inl (hsame rfl)

/-- The handler at a place was followed there, or came in there. -/
theorem follow_from (here : (h.step B event).handlers[n]? = some handler) :
    (∃ m before, h.handlers[m]? = some before ∧ before.id = handler.id
      ∧ h.follow B m event = .inFlight n)
    ∨ ∃ frame, h.taken? event = some frame ∧ event = .receive ∧ n = h.handlers.length
        ∧ handlerOf h.phase frame = some handler := by
  rcases (move_step B h event).ends_or_stay with ⟨k, reply, hends⟩ | ⟨hsilent, -⟩
  · rw [hends.handlers, List.getElem?_eraseIdx] at here
    refine Or.inl ?_
    by_cases hnk : n < k
    · rw [if_pos hnk] at here
      refine ⟨n, handler, here, rfl, ?_⟩
      rw [hends.follow, if_neg (by omega), if_neg (by omega)]
    · rw [if_neg hnk] at here
      refine ⟨n + 1, handler, here, rfl, ?_⟩
      rw [hends.follow, if_neg (by omega), if_pos (by omega), Nat.add_sub_cancel]
  · refine ((move_step B h event).handlers_from hsilent here).imp_left ?_
    rintro ⟨before, hbefore, hid⟩
    exact ⟨n, before, hbefore, hid, follow_of_silent (reply?_of_silent hsilent)⟩

/-- **A HANDLER IN FLIGHT** is that of a frame that was received. -/
theorem handler_origin (B : Backend σ κ) (store : σ) (events : List HostEvent)
    (here : ((empty store).run B events).handlers[n]? = some handler) :
    ∃ (frame : Json) (r : Receipt B frame) (more : List HostEvent),
      r.store = store ∧ events = r.before ++ .receive :: more
      ∧ r.fate more = .inFlight n ∧ Message.idOf frame = some handler.id := by
  induction events using List.reverseRecOn generalizing n handler with
  | nil => exact nomatch here
  | append_singleton events event ih =>
      rw [run_concat] at here
      rcases follow_from here with ⟨m, before, hbefore, hid, hfollow⟩ |
        ⟨frame, htaken, rfl, rfl, hhandler⟩
      · obtain ⟨frame, r, more, rfl, rfl, hfate, hidOf⟩ := ih hbefore
        refine ⟨frame, r, more ++ [event], rfl, ?_, ?_, hid ▸ hidOf⟩
        · rw [List.append_assoc, List.cons_append]
        · have hafter : r.after more = (empty r.store).run B (r.before ++ .receive :: more) :=
            r.after_eq more
          have hnext : (r.after more).fate B m [event] = .inFlight n := by
            rw [hafter]
            exact fate_cons_inFlight hfollow
          exact (fate_append hfate).trans hnext
      · have hid := id_handlerOf ((empty store).run B events).phase frame
        rw [hhandler] at hid
        exact ⟨frame, ⟨store, events, htaken⟩, [], rfl, rfl, rfl, hid.symm⟩

/-- An event writes its reply and nothing else. -/
theorem outbox_step (B : Backend σ κ) (h : Host σ κ) (event : HostEvent) :
    (h.step B event).outbox = h.outbox ++ (h.reply? B event).toList := by
  rcases (move_step B h event).ends_or_stay with ⟨k, reply, hends⟩ | ⟨hsilent, -⟩
  · rw [reply?_of_outbox hends.outbox]
    exact hends.outbox
  · rw [reply?_of_silent hsilent, hsilent]
    exact (List.append_nil _).symm

/-- **A REPLY IN THE OUTBOX** is what the handler of a frame ended with. -/
theorem reply_origin (B : Backend σ κ) (store : σ) (events : List HostEvent)
    (hreply : reply ∈ ((empty store).run B events).outbox) :
    ∃ (frame : Json) (r : Receipt B frame) (more later : List HostEvent),
      r.store = store ∧ events = r.before ++ .receive :: (more ++ later)
      ∧ r.fate more = .ended reply ∧ Message.idOf frame = some reply.id := by
  induction events using List.reverseRecOn with
  | nil => exact nomatch hreply
  | append_singleton events event ih =>
      rw [run_concat, outbox_step] at hreply
      rcases List.mem_append.mp hreply with hold | hnew
      · obtain ⟨frame, r, more, later, rfl, rfl, hfate, hid⟩ := ih hold
        refine ⟨frame, r, more, later ++ [event], rfl, ?_, hfate, hid⟩
        rw [List.append_assoc, List.cons_append, List.append_assoc]
      · have hthis : ((empty store).run B events).reply? B event = some reply :=
          Option.mem_toList.mp hnew
        obtain ⟨n, hends⟩ := ends_of_reply? hthis
        obtain ⟨handler, here, hid⟩ := hends.own
        obtain ⟨frame, r, more, rfl, rfl, hfate, hidOf⟩ := handler_origin B store events here
        refine ⟨frame, r, more ++ [event], [], rfl, ?_, ?_, hid ▸ hidOf⟩
        · rw [List.append_nil, List.append_assoc, List.cons_append]
        · have hafter : r.after more = (empty r.store).run B (r.before ++ .receive :: more) :=
            r.after_eq more
          have hnext : (r.after more).fate B n [event] = .ended reply := by
            rw [hafter]
            refine fate_cons_ended ?_
            rw [hends.follow, if_pos rfl]
          exact (fate_append hfate).trans hnext

/-! ## The handler of an `init` -/

/-- A handler that has ended stays so. -/
theorem fate_append_ended {events : List HostEvent} (hf : h.fate B n events = .ended reply)
    (more : List HostEvent) : h.fate B n (events ++ more) = .ended reply := by
  induction events generalizing h n with
  | nil => exact nomatch hf
  | cons event rest ih =>
      cases hfollow : h.follow B n event with
      | inFlight k =>
          rw [fate_cons_inFlight hfollow] at hf
          rw [List.cons_append, fate_cons_inFlight hfollow]
          exact ih hf
      | ended reply' =>
          rw [fate_cons_ended hfollow] at hf
          rw [List.cons_append, fate_cons_ended hfollow, hf]

/-- A handler in flight was in flight before, and the event has left it so. -/
theorem fate_concat_inFlight {events : List HostEvent}
    (hf : h.fate B n (events ++ [event]) = .inFlight m) :
    ∃ k, h.fate B n events = .inFlight k ∧ (h.run B events).follow B k event = .inFlight m := by
  cases hfate : h.fate B n events with
  | ended reply =>
      rw [fate_append_ended hfate] at hf
      exact nomatch hf
  | inFlight k =>
      refine ⟨k, rfl, ?_⟩
      rw [fate_append hfate] at hf
      cases hfollow : (h.run B events).follow B k event with
      | inFlight m' =>
          rw [fate_cons_inFlight hfollow] at hf
          exact hf
      | ended reply =>
          rw [fate_cons_ended hfollow] at hf
          exact nomatch hf

/-- A handler that is not polled stays as it is, though it may not have begun. -/
theorem Move.handlers_keep (hmove : Move B h event h') (hsilent : h'.outbox = h.outbox)
    (here : h.handlers[n]? = some handler) (hother : event ≠ .poll n) :
    h'.handlers[n]? = some handler := by
  have hn : n < h.handlers.length := (List.getElem?_eq_some_iff.mp here).1
  cases hmove with
  | receive listens next =>
      show (h.handlers ++ _)[n]? = some handler
      rw [List.getElem?_append_left hn]
      exact here
  | @begin k id payload runs there =>
      have hkn : k ≠ n := by
        rintro rfl
        exact hother rfl
      exact (List.getElem?_set_ne hkn).trans here
  | refuse runs there => exact absurd hsilent (concat_ne_self _ _)
  | serve runs there made => exact absurd hsilent (concat_ne_self _ _)
  | answer runs there ended => exact absurd hsilent (concat_ne_self _ _)
  | stay unadmitted untaken => exact here
  | deliver takes => exact here
  | close => exact here
  | hangUp dry closed => exact here
  | background event => exact here
  | stop done => exact here

/-- A handler that is not polled stays what it is. -/
theorem follow_unpolled (here : h.handlers[n]? = some handler) (hother : event ≠ .poll n)
    (hf : h.follow B n event = .inFlight m) : (h.step B event).handlers[m]? = some handler := by
  rcases (move_step B h event).ends_or_stay with ⟨k, reply, hends⟩ | ⟨hsilent, -⟩
  · have hkn : k ≠ n := by
      rintro rfl
      exact hother hends.polled
    rw [hends.follow, if_neg hkn] at hf
    obtain rfl := Fate.inFlight.inj hf
    exact (hends.getElem?_moved hkn).trans here
  · rw [follow_of_silent (reply?_of_silent hsilent)] at hf
    obtain rfl := Fate.inFlight.inj hf
    exact (move_step B h event).handlers_keep hsilent here hother

/-- The first poll of an `init` makes its request, which its handler then awaits. -/
theorem step_poll_begin (B : Backend σ κ) (runs : ¬ h.stopped) {id : UInt64}
    {payload : InitPayload} (here : h.handlers[n]? = some ⟨id, .begin payload⟩) :
    h.step B (.poll n)
      = { h with
          phase := h.phase.request payload.version payload.sources
          handlers := h.handlers.set n ⟨id, .await h.phase.requests.length⟩ } := by
  show (if h.stopped then h else h.poll B n) = _
  rw [if_neg runs]
  simp only [poll, here]

/-- A handler that awaits a request ends with the result of the request. -/
theorem reply?_await {id : UInt64} {k : Nat}
    (here : h.handlers[n]? = some ⟨id, .await k⟩) (hreply : h.reply? B (.poll n) = some reply) :
    ∃ request result, h.phase.requests[k]? = some request ∧ request.result? = some result
      ∧ reply = requestReply id result := by
  have hsilent : h.step B (.poll n) ≠ h := by
    intro heq
    rw [reply?_of_silent (congrArg outbox heq)] at hreply
    exact nomatch hreply
  have hruns : ¬ h.stopped := fun hstopped => hsilent (if_pos hstopped)
  have hpoll : h.step B (.poll n) = h.poll B n := if_neg hruns
  cases hresult : (h.phase.requests[k]?).bind Request.result? with
  | none =>
      refine absurd ?_ hsilent
      rw [hpoll]
      simp only [poll, here, hresult]
  | some result =>
      have hemit : h.step B (.poll n) = h.emit n (requestReply id result) := by
        rw [hpoll]
        simp only [poll, here, hresult]
      obtain ⟨request, hrequest, hended⟩ := Option.bind_eq_some_iff.mp hresult
      refine ⟨request, result, hrequest, hended, ?_⟩
      rw [reply?_of_outbox (congrArg outbox hemit)] at hreply
      exact (Option.some.inj hreply).symm

/-- A handler whose request has ended gives its reply when it is polled. -/
theorem reply?_of_ended (runs : ¬ h.stopped) {id : UInt64} {k : Nat}
    {result : Except LoadError Readiness} (here : h.handlers[n]? = some ⟨id, .await k⟩)
    (ended : (h.phase.requests[k]?).bind Request.result? = some result) :
    h.reply? B (.poll n) = some (requestReply id result) := by
  have hstep : h.step B (.poll n) = h.emit n (requestReply id result) := by
    show (if h.stopped then h else h.poll B n) = _
    rw [if_neg runs]
    simp only [poll, here, ended]
  exact reply?_of_outbox (congrArg outbox hstep)

/-- The work of an `init` is to begin its request. -/
theorem workFor_init (p : Phase σ κ) (id : UInt64) (payload : InitPayload) :
    workFor p ⟨id, .init payload⟩ = .begin payload := by
  have hnever : ¬ p.readiness < (Action.init payload).required := Nat.not_lt_zero _
  have hgate : p.gate (.init payload) = .ok none := by
    simp only [Phase.gate]
    rw [if_neg hnever]
    rfl
  simp only [workFor]
  rw [hgate]

end Host

/-! ## Requests of the controller

    A request that is made stays at its place.  Only its own turn changes it, and only once
    its attempt has ended. -/

namespace Phase

variable {B : Backend σ κ} {p q : Phase σ κ} {event : PhaseEvent}

/-- What can become of a request when a controller goes from one state to another. -/
inductive RequestGoes (p q : Phase σ κ) : Request → Request → Prop
  | stays {r} : RequestGoes p q r r
  | through {version sources attempt handle}
      (loaded : p.loader.outcome? attempt = some (.ok handle))
      (raised : q.readiness = p.readiness.advance .readerOnly) :
      RequestGoes p q ⟨version, sources, .waiting attempt⟩
        ⟨version, sources, .done (.ok q.readiness)⟩
  | refused {version sources attempt error}
      (failed : p.loader.outcome? attempt = some (.error error)) :
      RequestGoes p q ⟨version, sources, .waiting attempt⟩
        ⟨version, sources, .done (.error error)⟩

/-- A request that is looked for where another one ends is as it was. -/
theorem getElem?_ended {requests : List Request} {k n : Nat} {r ended : Request}
    {stage : RequestStage} (here : requests[k]? = some r) (there : requests[n]? = some ended) :
    (requests.modify n (fun r => { r with stage := stage }))[k]?
      = some (if n = k then { ended with stage := stage } else r) := by
  rw [List.getElem?_modify, here]
  by_cases hnk : n = k
  · subst hnk
    obtain rfl := Option.some.inj (there.symm.trans here)
    rfl
  · show some (if n = k then _ else r) = _
    rw [if_neg hnk, if_neg hnk]

/-- What a move can make of a request. -/
theorem Move.request_goes (hmove : Move B p event q) {k : Nat} {r : Request}
    (here : p.requests[k]? = some r) : ∃ r', q.requests[k]? = some r' ∧ RequestGoes p q r r' := by
  cases hmove with
  | @commit n version sources attempt handle waits loaded =>
      refine ⟨_, (congrArg (·[k]?) (commit_requests ..)).trans (getElem?_ended here waits), ?_⟩
      by_cases hnk : n = k
      · subst hnk
        obtain rfl := Option.some.inj (waits.symm.trans here)
        rw [if_pos rfl, ← commit_readiness p n version sources handle]
        exact .through loaded (commit_readiness ..)
      · rw [if_neg hnk]
        exact .stays
  | @refuse n version sources attempt error waits failed =>
      refine ⟨_, getElem?_ended here waits, ?_⟩
      by_cases hnk : n = k
      · subst hnk
        obtain rfl := Option.some.inj (waits.symm.trans here)
        rw [if_pos rfl]
        exact .refused failed
      · rw [if_neg hnk]
        exact .stays
  | request version sources => exact ⟨r, getElem?_concat_iff.mpr (Or.inl here), .stays⟩
  | stay idle => exact ⟨r, here, .stays⟩
  | begin ready => exact ⟨r, here, .stays⟩
  | install waits loaded wanted => exact ⟨r, here, .stays⟩
  | drop waits loaded unwanted => exact ⟨r, here, .stays⟩
  | fail waits failed => exact ⟨r, here, .stays⟩
  | load event => exact ⟨r, here, .stays⟩

/-- What a controller can make of a request while a host drives it. -/
theorem Driven.request_goes (hd : Driven B p q) {k : Nat} {r : Request}
    (here : p.requests[k]? = some r) : ∃ r', q.requests[k]? = some r' ∧ RequestGoes p q r r' := by
  cases hd with
  | rest => exact ⟨r, here, .stays⟩
  | request version sources => exact ⟨r, getElem?_concat_iff.mpr (Or.inl here), .stays⟩
  | call made id action => exact ⟨r, here, .stays⟩
  | step event => exact (move_step B p event).request_goes here

end Phase

/-- A request asks for what a payload names. -/
def Request.AsksFor (request : Request) (payload : InitPayload) : Prop :=
  request.version = payload.version ∧ request.sources = payload.sources

namespace Phase

variable {B : Backend σ κ} {p q : Phase σ κ} {k : Nat} {payload : InitPayload}

/-- Whatever becomes of a request, it asks for the same. -/
theorem RequestGoes.asksFor {r r' : Request} (h : RequestGoes p q r r')
    (hasks : r.AsksFor payload) : r'.AsksFor payload := by
  cases h with
  | stays => exact hasks
  | through loaded raised => exact hasks
  | refused failed => exact hasks

/-- There is a request at a place that asks for what a payload names. -/
def Asked (p : Phase σ κ) (k : Nat) (payload : InitPayload) : Prop :=
  ∃ request, p.requests[k]? = some request ∧ request.AsksFor payload

/-- A request asks for what the payload names. -/
theorem asked_request (p : Phase σ κ) (payload : InitPayload) :
    (p.request payload.version payload.sources).Asked p.requests.length payload :=
  ⟨_, getElem?_concat_iff.mpr (Or.inr ⟨rfl, rfl⟩), rfl, rfl⟩

/-- A request goes on asking for what it asked for. -/
theorem Asked.driven (h : p.Asked k payload) (hd : Driven B p q) : q.Asked k payload := by
  obtain ⟨request, here, hasks⟩ := h
  obtain ⟨request', here', hgoes⟩ := hd.request_goes here
  exact ⟨request', here', hgoes.asksFor hasks⟩

end Phase

namespace Receipt

variable {B : Backend σ κ} {frame : Json} {m : Message} {payload : InitPayload}
  {events : List HostEvent} {place : Nat}

theorem after_concat (r : Receipt B frame) (events : List HostEvent) (event : HostEvent) :
    r.after (events ++ [event]) = (r.after events).step B event :=
  Host.run_concat ..

/-- A poll BEGINS the request of the frame: its handler is in flight and has not begun. -/
structure Begins (r : Receipt B frame) (payload : InitPayload) (events : List HostEvent)
    (start : Nat) : Prop where
  running : r.fate events = .inFlight start
  here : ((r.after events).handlers[start]?).map Handler.work = some (.begin payload)

/-- Beginning makes the request, and the handler awaits it. -/
theorem Begins.step {r : Receipt B frame} {start : Nat} (h : r.Begins payload events start) :
    ∃ id, (r.after events).handlers[start]? = some ⟨id, .begin payload⟩
      ∧ r.after (events ++ [.poll start])
        = { r.after events with
            phase := (r.after events).phase.request payload.version payload.sources
            handlers := (r.after events).handlers.set start
              ⟨id, .await (r.after events).phase.requests.length⟩ } := by
  obtain ⟨⟨id, work⟩, here, hwork⟩ := Option.map_eq_some_iff.mp h.here
  change work = _ at hwork
  subst hwork
  exact ⟨id, here, (r.after_concat ..).trans (Host.step_poll_begin B (r.runs here) here)⟩

/-- **THE HANDLER OF AN `init`** in flight has not begun, or it awaits a request.
    What holds of the request when it is made, and survives every event, holds of it. -/
theorem init_inFlight (r : Receipt B frame)
    (hm : Message.ofFrame frame = .ok ⟨m.id, .init payload⟩)
    {P : List HostEvent → Nat → Prop}
    (made : ∀ events start, r.Begins payload events start →
      P (events ++ [.poll start]) (r.after events).phase.requests.length)
    (kept : ∀ events event k, P events k → P (events ++ [event]) k)
    (hf : r.fate events = .inFlight place) :
    (r.after events).handlers[place]? = some ⟨m.id, .begin payload⟩
    ∨ ∃ k, (r.after events).handlers[place]? = some ⟨m.id, .await k⟩ ∧ P events k := by
  induction events using List.reverseRecOn generalizing place with
  | nil =>
      obtain rfl := Fate.inFlight.inj hf
      refine Or.inl ?_
      have hhandler : Host.handlerOf r.host.phase frame = some ⟨m.id, .begin payload⟩ := by
        simp only [Host.handlerOf]
        rw [hm]
        dsimp only
        rw [Host.workFor_init]
      show (r.host.step B .receive).handlers[_]? = _
      rw [r.step_receive, hhandler]
      exact List.getElem?_concat_length
  | append_singleton events event ih =>
      obtain ⟨before, hbefore, hfollow⟩ := Host.fate_concat_inFlight hf
      rcases ih hbefore with here | ⟨k, here, hk⟩
      · by_cases hpoll : event = .poll before
        · subst hpoll
          have hbegins : r.Begins payload events before := ⟨hbefore, by rw [here]; rfl⟩
          have hstep := Host.step_poll_begin B (r.runs here) here
          have hsilent : ((r.after events).step B (.poll before)).outbox
              = (r.after events).outbox := by rw [hstep]
          have hsame : (r.after events).follow B before (.poll before) = .inFlight place := hfollow
          rw [Host.follow_of_silent (Host.reply?_of_silent hsilent)] at hsame
          obtain rfl := Fate.inFlight.inj hsame
          refine Or.inr ⟨(r.after events).phase.requests.length, ?_, made events before hbegins⟩
          rw [r.after_concat, hstep]
          exact List.getElem?_set_self (List.getElem?_eq_some_iff.mp here).1
        · rw [r.after_concat]
          exact Or.inl (Host.follow_unpolled here hpoll hfollow)
      · have hbegun : ∀ payload', Work.await k ≠ .begin payload' := by
          intro payload' heq
          cases heq
        rw [r.after_concat]
        exact Or.inr ⟨k, Host.follow_inFlight here hbegun hfollow, kept events event k hk⟩

/-- After some events, request `k` of the controller is the one that the handler of the
    frame has made, and it asks for what the frame names. -/
structure Asks (r : Receipt B frame) (payload : InitPayload) (events : List HostEvent)
    (k : Nat) : Prop where
  begun : ∃ earlier start later, events = earlier ++ .poll start :: later
    ∧ r.fate earlier = .inFlight start ∧ k = (r.after earlier).phase.requests.length
  asked : (r.after events).phase.Asked k payload

/-- Once its request is made, a handler asks by it. -/
theorem Begins.asks {r : Receipt B frame} {start : Nat} (h : r.Begins payload events start) :
    r.Asks payload (events ++ [.poll start]) (r.after events).phase.requests.length := by
  obtain ⟨id, here, hafter⟩ := h.step
  refine ⟨⟨events, start, [], rfl, h.running, rfl⟩, ?_⟩
  rw [hafter]
  exact Phase.asked_request _ payload

/-- A handler goes on asking by the same request. -/
theorem Asks.concat {r : Receipt B frame} {k : Nat} (h : r.Asks payload events k)
    (event : HostEvent) : r.Asks payload (events ++ [event]) k := by
  obtain ⟨⟨earlier, start, later, rfl, hin, rfl⟩, hasked⟩ := h
  refine ⟨⟨earlier, start, later ++ [event], ?_, hin, rfl⟩, ?_⟩
  · rw [List.append_assoc, List.cons_append]
  · rw [r.after_concat]
    exact hasked.driven (Host.move_step B _ event).driven

/-- As long as it is in flight, the handler of an `init` has not begun, or it awaits the
    request it has made. -/
theorem begins_or_awaits (r : Receipt B frame)
    (hm : Message.ofFrame frame = .ok ⟨m.id, .init payload⟩)
    (hf : r.fate events = .inFlight place) :
    (r.after events).handlers[place]? = some ⟨m.id, .begin payload⟩
    ∨ ∃ k, (r.after events).handlers[place]? = some ⟨m.id, .await k⟩
        ∧ r.Asks payload events k :=
  r.init_inFlight hm (fun _ _ hbegins => hbegins.asks) (fun _ event _ hasks => hasks.concat event)
    hf

/-- **AN `init` ENDS** with the result of the request that its handler has made. -/
theorem initialized (r : Receipt B frame)
    (hm : Message.ofFrame frame = .ok ⟨m.id, .init payload⟩)
    (hf : r.fate events = .inFlight place) {reply : Reply}
    (hreply : (r.after events).reply? B (.poll place) = some reply) :
    ∃ k request result, r.Asks payload events k
      ∧ (r.after events).phase.requests[k]? = some request ∧ request.result? = some result
      ∧ reply = Host.requestReply m.id result := by
  rcases r.begins_or_awaits hm hf with here | ⟨k, here, hasks⟩
  · -- the first step of the handler gives no reply
    have hstep := Host.step_poll_begin B (r.runs here) here
    have hsilent : ((r.after events).step B (.poll place)).outbox = (r.after events).outbox := by
      rw [hstep]
    have hnone := Host.reply?_of_silent hsilent
    exact nomatch hnone.symm.trans hreply
  · obtain ⟨request, result, hrequest, hresult, rfl⟩ := Host.reply?_await here hreply
    exact ⟨k, request, result, hasks, hrequest, hresult, rfl⟩

end Receipt
end PhaseHost
