import PhaseHost.Play.StandIn
import PhaseHost.Proofs.Host.Account
import PhaseHost.Proofs.Host.Follow
import PhaseHost.Proofs.Phase.Slots
import PhaseHost.Store.Memory

/-! # Judged at receipt

    An action of the module is judged when its frame is received, by the
    readiness of that moment, and the capability that will serve it is picked
    then.  Whatever happens until its handler is polled, the reply is the one that
    was decided:

    * a frame that came too early is REFUSED, and nothing is called;
    * any other is SERVED by the capability that was in its slot.

    A picked capability cannot get lost, because what a loader has made stays in
    its place, and a call of another capability does not touch it.  So if calls
    leave capabilities as they are, the reply is a function of the frame, the
    readiness and the slots at receipt: any two receipts that agree on these give
    the same reply. -/

namespace PhaseHost

variable {σ κ : Type}

/-- Calls leave capabilities as they are, so that they are functions of their
    arguments. -/
def Runtime.Steady (R : Runtime κ) : Prop :=
  ∀ id c action, (R.reply id c action).2 = c

/-- The stand-ins are steady. -/
theorem StandIn.steady : StandIn.runtime.Steady := by
  intro id c action
  cases c <;> cases action <;> rfl

/-- Only an `init` needs nothing to be in place. -/
theorem Action.init_of_idle {action : Action} (h : action.required = .idle) :
    ∃ payload, action = .init payload := by
  cases action with
  | init payload => exact ⟨payload, rfl⟩
  | unify payload => exact nomatch h
  | validate payload => exact nomatch h
  | format payload => exact nomatch h
  | parse payload => exact nomatch h
  | getSymbols payload => exact nomatch h
  | exportAs payload => exact nomatch h

/-! ## No call reports unreadiness -/

theorem FailureCode.text_injective : Function.Injective FailureCode.text := by
  intro code code' h
  cases code <;> cases code' <;> first | rfl | exact absurd h (by decide)

/-- Only one code reads as not being ready. -/
theorem FailureCode.text_ne_notReady (code : FailureCode) (h : code ≠ .notReady) :
    code.text ≠ FailureCode.notReady.text :=
  fun heq => h (text_injective heq)

/-- A call whose results never report unreadiness does not report it in its reply. -/
theorem replyOf_code {α : Type} (result : α → Except Failure Json)
    (hresult : ∀ value f, result value = .error f → f.code ≠ .notReady) (id : UInt64)
    (call : Calling κ α) (c : κ) :
    (replyOf id result call c).1.code ≠ some FailureCode.notReady.text := by
  show (Reply.ofCall id result (call c).1).code ≠ _
  cases (call c).1 with
  | answered value =>
      show (Reply.ofResult id (result value)).code ≠ _
      cases hvalue : result value with
      | ok v => exact nofun
      | error f =>
          intro h
          exact FailureCode.text_ne_notReady _ (hresult value f hvalue) (Option.some.inj h)
  | failed text =>
      intro h
      exact FailureCode.text_ne_notReady .engineError nofun (Option.some.inj h)
  | brokeDown message =>
      intro h
      exact FailureCode.text_ne_notReady .runtimeFault nofun (Option.some.inj h)

/-- Symbols that cannot be read are not taken for a lack of readiness. -/
theorem symbolsOfText_code (raw : String) (f : Failure) (h : symbolsOfText raw = .error f) :
    f.code ≠ .notReady := by
  simp only [symbolsOfText] at h
  split at h
  · exact nomatch h
  · cases h
    exact nofun

/-- A capability that is called never reports that it is not ready. -/
theorem Runtime.reply_code (R : Runtime κ) (id : UInt64) (c : κ) {action : Action}
    (hcompute : action.required ≠ .idle) :
    (R.reply id c action).1.code ≠ some FailureCode.notReady.text := by
  cases action with
  | init payload => exact absurd rfl hcompute
  | unify payload => exact replyOf_code textResult (fun _ _ h => nomatch h) id _ c
  | validate payload => exact replyOf_code truthResult (fun _ _ h => nomatch h) id _ c
  | format payload => exact replyOf_code textResult (fun _ _ h => nomatch h) id _ c
  | parse payload => exact replyOf_code textResult (fun _ _ h => nomatch h) id _ c
  | getSymbols payload => exact replyOf_code symbolsOfText symbolsOfText_code id _ c
  | exportAs payload => exact replyOf_code textResult (fun _ _ h => nomatch h) id _ c

/-! ## What handling leaves alone -/

/-- How far an attempt has come, without what it has made. -/
def Attempt.progress (a : Attempt κ) : Variant × String × AttemptStage :=
  (a.variant, a.location, a.stage)

namespace Phase

/-- Readiness, slots, cache and loads are the same: at most the state of a
    capability differs. -/
structure Untouched (p q : Phase σ κ) : Prop where
  readiness : q.readiness = p.readiness
  reader : q.reader = p.reader
  engine : q.engine = p.engine
  wanted : q.wanted = p.wanted
  requests : q.requests = p.requests
  engineLoads : q.engineLoads = p.engineLoads
  store : q.loader.store = p.loader.store
  inFlight : q.loader.inFlight = p.loader.inFlight
  fetches : q.loader.fetches = p.loader.fetches
  attempts : q.loader.attempts.map Attempt.progress = p.loader.attempts.map Attempt.progress

/-- A call changes at most the state of its capability. -/
theorem untouched_call (p : Phase σ κ) (n : Handle) (c : κ) :
    Untouched p { p with loader := p.loader.replaceProduct n c } := by
  refine ⟨rfl, rfl, rfl, rfl, rfl, rfl, rfl, rfl, rfl, ?_⟩
  exact map_modify_eq (fun a : Attempt κ => { a with product := some c }) (fun _ => rfl) ..

/-- What a slot holds: a version and a capability. -/
def held (p : Phase σ κ) (slot : Option Installed) : Option (String × Option κ) :=
  slot.map (fun installed => (installed.version, p.loader.product? installed.handle))

/-- Two controllers agree on readiness and on what their slots hold. -/
structure Agrees {σ' : Type} (p : Phase σ κ) (p' : Phase σ' κ) : Prop where
  readiness : p.readiness = p'.readiness
  reader : p.held p.reader = p'.held p'.reader
  engine : p.held p.engine = p'.held p'.engine

/-- Controllers that agree pick the same capabilities. -/
theorem Agrees.slot {σ' : Type} {p : Phase σ κ} {p' : Phase σ' κ} (h : p.Agrees p')
    (required : Readiness) : p.held (p.slot required) = p'.held (p'.slot required) := by
  cases required with
  | idle => rfl
  | full => exact h.engine
  | readerOnly =>
      show (p.engine.or p.reader).map _ = (p'.engine.or p'.reader).map _
      rw [Option.map_or, Option.map_or]
      exact congrArg₂ Option.or h.engine h.reader

end Phase

/-! ## A picked capability stays -/

namespace Phase

variable {B : Backend σ κ} {p q : Phase σ κ}

/-- What a host does to its controller: it lets it be, makes a request of it,
    calls one of its capabilities, or lets it move on its own. -/
inductive Driven (B : Backend σ κ) (p : Phase σ κ) : Phase σ κ → Prop
  | rest : Driven B p p
  | request (version sources) : Driven B p (p.request version sources)
  | call {handle c} (made : p.loader.product? handle = some c) (id action) :
      Driven B p
        { p with loader := p.loader.replaceProduct handle (B.runtime.reply id c action).2 }
  | step (event) : Driven B p (p.step B event)

/-- Whatever a host does to its controller leaves it sound. -/
theorem Driven.sound (hd : Driven B p q) (hs : p.Sound) : q.Sound := by
  cases hd with
  | rest => exact hs
  | request version sources => exact hs.request version sources
  | call made id action => exact hs.call made _
  | step event => exact hs.move (move_step B p event)

/-- Nothing a host does takes a capability away, and only its own calls change it. -/
theorem Driven.product? (hd : Driven B p q) (hs : p.Sound) {n : Handle} {c : κ}
    (hn : p.loader.product? n = some c) :
    ∃ c', q.loader.product? n = some c' ∧ (B.runtime.Steady → c' = c) := by
  cases hd with
  | rest => exact ⟨c, hn, fun _ => rfl⟩
  | request version sources => exact ⟨c, Loader.product?_load _ _ hn, fun _ => rfl⟩
  | @call handle d made id action =>
      show ∃ c', (p.loader.replaceProduct handle _).product? n = some c' ∧ _
      rw [Loader.product?_replaceProduct made]
      by_cases hhn : handle = n
      · -- the call is its own, and a steady one leaves it as it is
        subst hhn
        rw [made] at hn
        cases hn
        exact ⟨_, if_pos rfl, fun hsteady => hsteady id _ action⟩
      · exact ⟨c, by rw [if_neg hhn]; exact hn, fun _ => rfl⟩
  | step event => exact ⟨c, (move_step B p event).product? hs.coherent hn, fun _ => rfl⟩

end Phase

namespace Host

variable {B : Backend σ κ} {h h' : Host σ κ} {event : HostEvent}

/-- An event of a host does one of these things to its controller. -/
theorem Move.driven (hmove : Move B h event h') : Phase.Driven B h.phase h'.phase := by
  cases hmove with
  | serve runs here made => exact .call made _ _
  | begin runs here => exact .request _ _
  | background event => exact .step event
  | stay unadmitted untaken => exact .rest
  | deliver takes => exact .rest
  | close => exact .rest
  | receive listens next => exact .rest
  | hangUp dry closed => exact .rest
  | refuse runs here => exact .rest
  | answer runs here ended => exact .rest
  | stop done => exact .rest

/-- The controller of a host is sound all along. -/
theorem sound_run (hs : h.phase.Sound) (events : List HostEvent) :
    (h.run B events).phase.Sound := by
  induction events using List.reverseRecOn with
  | nil => exact hs
  | append_singleton events event ih =>
      rw [run_concat]
      exact (move_step B _ event).driven.sound ih

/-- A capability is there for good, and what is steady stays as it is. -/
theorem product?_run (hs : h.phase.Sound) {n : Handle} {c : κ}
    (hn : h.phase.loader.product? n = some c) (events : List HostEvent) :
    ∃ c', (h.run B events).phase.loader.product? n = some c'
      ∧ (B.runtime.Steady → c' = c) := by
  induction events using List.reverseRecOn with
  | nil => exact ⟨c, hn, fun _ => rfl⟩
  | append_singleton events event ih =>
      obtain ⟨d, hd, hsame⟩ := ih
      obtain ⟨c', hc', hsame'⟩ := (move_step B _ event).driven.product? (sound_run hs events) hd
      rw [run_concat]
      exact ⟨c', hc', fun hsteady => (hsame' hsteady).trans (hsame hsteady)⟩

/-! ## What is decided at receipt -/

variable {p : Phase σ κ} {m : Message}

/-- A request that comes too early is to be refused. -/
theorem workFor_early (hearly : p.readiness < m.action.required) :
    workFor p m = .refuse (.notReady (Phase.tooEarly p.readiness m.action)) := by
  simp only [workFor]
  rw [show p.gate m.action = .error _ from if_pos hearly]

/-- A request that comes in time waits for the capability in its slot. -/
theorem workFor_reached (hcompute : m.action.required ≠ .idle)
    (hreached : m.action.required ≤ p.readiness) {installed : Installed}
    (hslot : p.slot m.action.required = some installed) :
    workFor p m = .compute installed.handle m.action := by
  simp only [workFor]
  rw [Phase.gate_eq_ok hcompute hreached hslot]
  cases haction : m.action with
  | init payload => rw [haction] at hcompute; exact absurd rfl hcompute
  | unify payload => rfl
  | validate payload => rfl
  | format payload => rfl
  | parse payload => rfl
  | getSymbols payload => rfl
  | exportAs payload => rfl

/-- Neither kind of work needs to begin. -/
theorem workFor_begun (hs : p.Sound) (hcompute : m.action.required ≠ .idle)
    (payload : InitPayload) : workFor p m ≠ .begin payload := by
  by_cases hearly : p.readiness < m.action.required
  · rw [workFor_early hearly]
    exact nofun
  · have hreached : m.action.required ≤ p.readiness := Nat.not_lt.mp hearly
    obtain ⟨installed, c, hslot, -⟩ := Phase.slot_filled hs hcompute hreached
    rw [workFor_reached hcompute hreached hslot]
    exact nofun

variable {n : Nat} {id : UInt64}

theorem step_poll_refuse (B : Backend σ κ) (runs : ¬ h.stopped) {failure : Failure}
    (here : h.handlers[n]? = some ⟨id, .refuse failure⟩) :
    h.step B (.poll n) = h.emit n (.ofResult id (.error failure)) := by
  show (if h.stopped then h else h.poll B n) = _
  rw [if_neg runs]
  simp only [poll, here]

theorem step_poll_compute (B : Backend σ κ) (runs : ¬ h.stopped) {handle : Handle}
    {action : Action} {c : κ} (here : h.handlers[n]? = some ⟨id, .compute handle action⟩)
    (made : h.phase.loader.product? handle = some c) :
    h.step B (.poll n)
      = ({ h with
          phase := { h.phase with
            loader := h.phase.loader.replaceProduct handle
              (B.runtime.reply id c action).2 } }).emit n (B.runtime.reply id c action).1 := by
  show (if h.stopped then h else h.poll B n) = _
  rw [if_neg runs]
  simp only [poll, here, made]

end Host

/-! ## What becomes of a received frame -/

namespace Receipt

variable {B : Backend σ κ} {frame : Json} {m : Message}

/-- A frame is REFUSED at a place, after some events: it came too early, its
    reply says so, and the poll changes nothing and calls nothing. -/
structure Refused (r : Receipt B frame) (m : Message) (events : List HostEvent) (place : Nat)
    (reply : Reply) : Prop where
  early : r.host.phase.readiness < m.action.required
  reply_eq : reply
    = .failure m.id .notReady (Phase.tooEarly r.host.phase.readiness m.action)
  phase_eq : ((r.after events).step B (.poll place)).phase = (r.after events).phase
  /-- Whatever calls would do, the poll does the same. -/
  uncalled : ∀ B' : Backend σ κ,
    (r.after events).step B' (.poll place) = (r.after events).step B (.poll place)

/-- A frame is SERVED at a place, after some events: its reply is that of the
    capability that was picked at receipt, and nothing but this capability changes. -/
structure Served (r : Receipt B frame) (m : Message) (events : List HostEvent) (place : Nat)
    (reply : Reply) (installed : Installed) (c : κ) : Prop where
  reached : m.action.required ≤ r.host.phase.readiness
  picked : r.host.phase.slot m.action.required = some installed
  present : (r.after events).phase.loader.product? installed.handle = some c
  /-- The capability is as it was at receipt, if calls leave it so. -/
  steady : B.runtime.Steady → r.host.phase.loader.product? installed.handle = some c
  reply_eq : reply = (B.runtime.reply m.id c m.action).1
  ready : reply.code ≠ some FailureCode.notReady.text
  untouched : Phase.Untouched (r.after events).phase
    ((r.after events).step B (.poll place)).phase

/-- The controller at receipt is sound. -/
theorem sound_host (r : Receipt B frame) : r.host.phase.Sound :=
  Host.sound_run (Phase.sound_empty r.store) r.before

/-- Receiving the frame leaves the controller alone. -/
theorem phase_receive (r : Receipt B frame) :
    (r.host.step B .receive).phase = r.host.phase := by
  rw [r.step_receive]

/-- As long as it is in flight, the handler does what was decided at receipt. -/
theorem handler_inFlight (r : Receipt B frame) (hm : Message.ofFrame frame = .ok m)
    (hcompute : m.action.required ≠ .idle) {events : List HostEvent} {place : Nat}
    (hf : r.fate events = .inFlight place) :
    (r.after events).handlers[place]? = some ⟨m.id, Host.workFor r.host.phase m⟩ := by
  refine Host.fate_inFlight ?_ (Host.workFor_begun r.sound_host hcompute) hf
  have hhandler : Host.handlerOf r.host.phase frame
      = some ⟨m.id, Host.workFor r.host.phase m⟩ := by
    simp only [Host.handlerOf]
    rw [hm]
  rw [r.step_receive, hhandler]
  exact List.getElem?_concat_length

/-- A host with a handler in flight has not stopped. -/
theorem runs (r : Receipt B frame) {events : List HostEvent} {place : Nat} {handler : Handler}
    (here : (r.after events).handlers[place]? = some handler) :
    ¬ (r.after events).stopped := by
  intro hstopped
  have hw : (r.after events).Winding := r.after_eq events ▸ Host.winding_run B r.store _
  rw [(hw.finished hstopped).2] at here
  exact nomatch here

/-- **JUDGED AT RECEIPT**: polling the handler of the frame ends it, refused or
    served as was decided at receipt. -/
theorem poll_judged (r : Receipt B frame) (hm : Message.ofFrame frame = .ok m)
    (hcompute : m.action.required ≠ .idle) {events : List HostEvent} {place : Nat}
    (hf : r.fate events = .inFlight place) :
    ∃ reply, (r.after events).reply? B (.poll place) = some reply
      ∧ (r.Refused m events place reply
        ∨ ∃ installed c, r.Served m events place reply installed c) := by
  have here := r.handler_inFlight hm hcompute hf
  have hruns := r.runs here
  by_cases hearly : r.host.phase.readiness < m.action.required
  · rw [Host.workFor_early hearly] at here
    have hstep := fun B' : Backend σ κ => Host.step_poll_refuse B' hruns here
    refine ⟨_, Host.reply?_of_outbox (by rw [hstep]; rfl), Or.inl ?_⟩
    exact {
      early := hearly
      reply_eq := rfl
      phase_eq := by rw [hstep]; rfl
      uncalled := fun B' => (hstep B').trans (hstep B).symm }
  · have hreached : m.action.required ≤ r.host.phase.readiness := Nat.not_lt.mp hearly
    obtain ⟨installed, c₀, hslot, hmade⟩ := Phase.slot_filled r.sound_host hcompute hreached
    rw [Host.workFor_reached hcompute hreached hslot] at here
    -- the picked capability is still there when the handler is polled
    have hsound : (r.host.step B .receive).phase.Sound := r.phase_receive ▸ r.sound_host
    have hmade' : (r.host.step B .receive).phase.loader.product? installed.handle = some c₀ :=
      r.phase_receive ▸ hmade
    obtain ⟨c, hc, hsame⟩ := Host.product?_run hsound hmade' events
    have hstep := Host.step_poll_compute B hruns here hc
    refine ⟨_, Host.reply?_of_outbox (by rw [hstep]; rfl), Or.inr ⟨installed, c, ?_⟩⟩
    exact {
      reached := hreached
      picked := hslot
      present := hc
      steady := fun hsteady => hsame hsteady ▸ hmade
      reply_eq := rfl
      ready := B.runtime.reply_code m.id c hcompute
      untouched := by rw [hstep]; exact Phase.untouched_call .. }

/-- A frame whose handler has ended was refused or served. -/
theorem judged (r : Receipt B frame) (hm : Message.ofFrame frame = .ok m)
    (hcompute : m.action.required ≠ .idle) {events : List HostEvent} {reply : Reply}
    (hf : r.fate events = .ended reply) :
    ∃ earlier place later, events = earlier ++ .poll place :: later
      ∧ r.fate earlier = .inFlight place
      ∧ (r.Refused m earlier place reply
        ∨ ∃ installed c, r.Served m earlier place reply installed c) := by
  obtain ⟨earlier, place, later, hevents, hin, hreply⟩ := Host.fate_ended hf
  obtain ⟨reply', hreply', hjudged⟩ := r.poll_judged hm hcompute hin
  obtain rfl : reply' = reply := Option.some.inj (hreply'.symm.trans hreply)
  exact ⟨earlier, place, later, hevents, hin, hjudged⟩

/-! ## Two receipts of one frame -/

variable {σ' : Type} {B' : Backend σ' κ}

/-- Receipts that agree give the same reply: both are too early for the same
    reason, or both are served by capabilities that are the same. -/
theorem reply_eq_of_agrees (r : Receipt B frame) (r' : Receipt B' frame)
    (hm : Message.ofFrame frame = .ok m) (hcompute : m.action.required ≠ .idle)
    (hruntime : B'.runtime = B.runtime) (hsteady : B.runtime.Steady)
    (hagree : r.host.phase.Agrees r'.host.phase) {events events' : List HostEvent}
    {reply reply' : Reply} (hf : r.fate events = .ended reply)
    (hf' : r'.fate events' = .ended reply') : reply = reply' := by
  obtain ⟨_, _, _, -, -, hjudged⟩ := r.judged hm hcompute hf
  obtain ⟨_, _, _, -, -, hjudged'⟩ := r'.judged hm hcompute hf'
  rcases hjudged with hrefused | ⟨installed, c, hserved⟩ <;>
    rcases hjudged' with hrefused' | ⟨installed', c', hserved'⟩
  · rw [hrefused.reply_eq, hrefused'.reply_eq, hagree.readiness]
  · exact absurd (hagree.readiness ▸ hrefused.early) (Nat.not_lt.mpr hserved'.reached)
  · exact absurd (hagree.readiness ▸ hserved.reached) (Nat.not_le.mpr hrefused'.early)
  · -- what the slots hold is the same, so the capabilities are
    have hheld := hagree.slot m.action.required
    rw [hserved.picked, hserved'.picked] at hheld
    have hproduct : r.host.phase.loader.product? installed.handle
        = r'.host.phase.loader.product? installed'.handle :=
      congrArg Prod.snd (Option.some.inj hheld)
    rw [hserved.steady hsteady, hserved'.steady (hruntime ▸ hsteady)] at hproduct
    rw [hserved.reply_eq, hserved'.reply_eq, hruntime, Option.some.inj hproduct]

/-- **THE REPLY IS DECIDED AT RECEIPT**.  For every host that receives a frame
    with an action of the module, and whatever happens afterwards:

    * receiving the frame leaves the controller as it is;
    * as long as its handler is in flight, it has the id of the frame and the
      next poll ends it;
    * once it has ended, it was refused or served as readiness and slots at
      receipt had it;
    * if calls leave capabilities as they are, any two receipts of the frame that
      agree on readiness and slots give the same reply. -/
theorem reply_decided_at_receipt (r : Receipt B frame) (hm : Message.ofFrame frame = .ok m)
    (hcompute : m.action.required ≠ .idle) :
    (r.after []).phase = r.host.phase ∧
    (∀ events place, r.fate events = .inFlight place →
      (∃ handler, (r.after events).handlers[place]? = some handler ∧ handler.id = m.id)
      ∧ ∃ reply, r.fate (events ++ [.poll place]) = .ended reply) ∧
    (∀ events reply, r.fate events = .ended reply →
      ∃ earlier place later, events = earlier ++ .poll place :: later
        ∧ r.fate earlier = .inFlight place
        ∧ (r.Refused m earlier place reply
          ∨ ∃ installed c, r.Served m earlier place reply installed c)) ∧
    ∀ (σ' : Type) (B' : Backend σ' κ) (r' : Receipt B' frame),
      B'.runtime = B.runtime → B.runtime.Steady → r.host.phase.Agrees r'.host.phase →
      ∀ events reply events' reply', r.fate events = .ended reply →
        r'.fate events' = .ended reply' → reply = reply' := by
  refine ⟨r.phase_receive, ?_, ?_, ?_⟩
  · intro events place hf
    refine ⟨⟨_, r.handler_inFlight hm hcompute hf, rfl⟩, ?_⟩
    obtain ⟨reply, hreply, -⟩ := r.poll_judged hm hcompute hf
    refine ⟨reply, ?_⟩
    show (r.host.step B .receive).fate B r.host.handlers.length _ = _
    rw [Host.fate_append hf]
    exact Host.fate_poll hreply
  · intro events reply hf
    exact r.judged hm hcompute hf
  · intro σ' B' r' hruntime hsteady hagree events reply events' reply' hf hf'
    exact r.reply_eq_of_agrees r' hm hcompute hruntime hsteady hagree hf hf'

/-- A frame with code to format. -/
def formatFrame : Json :=
  .obj [("action", .str "format"), ("id", .int 7), ("payload", .obj [("code", .str "a:1")])]

/-- The frame of a first request. -/
def initFrame : Json :=
  .obj [("action", .str "init"), ("id", .int 1),
    ("payload", .obj [("version", .str "v1"), ("wasmPath", .str "https://x.y/e")])]

/-- The request that is made then, up to its reader being in place. -/
def readerArrives : List HostEvent :=
  [.poll 0, .background (.load (.look 0)),
    .background (.load (.fetched 0 (.ok (Utf8.encode "reader")))),
    .background (.load (.make 0)), .background (.load (.keep 0)), .background (.resume 0)]

/-- The first request of a host, up to its reader being in place. -/
def readerComes : List HostEvent :=
  [.deliver initFrame, .receive] ++ readerArrives

/-- The engine that follows; it breaks down on every call. -/
def engineComes : List HostEvent :=
  [.background (.startEngine 0), .background (.load (.look 1)),
    .background (.load (.fetched 1 (.ok (Utf8.encode "panic-string")))),
    .background (.load (.make 1)), .background (.load (.keep 1)),
    .background (.resumeEngine 0), .poll 0]

/-- The frame is received while only the reader is in place. -/
def betweenReaderAndEngine : Receipt StandIn.backend formatFrame where
  store := MemoryStore.empty
  before := readerComes ++ [.deliver formatFrame]
  next := rfl

/-- A frame that is received while only the reader is in place gets the reply of
    the reader, whatever happens then: an engine that breaks down on every call
    makes no difference. -/
theorem reply_of_reader_decided :
    Message.ofFrame formatFrame = .ok ⟨7, .format ⟨"a:1"⟩⟩ ∧
    (Action.format ⟨"a:1"⟩).required ≠ .idle ∧
    (betweenReaderAndEngine.after engineComes).phase.engine = some ⟨"v1", 1⟩ ∧
    betweenReaderAndEngine.fate (engineComes ++ [.poll 0]) = .ended (.ok 7 (.str "a: 1\n")) ∧
    ∀ events reply, betweenReaderAndEngine.fate events = .ended reply →
      reply = .ok 7 (.str "a: 1\n") := by
  have hfate : betweenReaderAndEngine.fate (engineComes ++ [.poll 0])
      = .ended (.ok 7 (.str "a: 1\n")) := rfl
  refine ⟨rfl, by decide, rfl, hfate, ?_⟩
  intro events reply hf
  have hdecided := reply_decided_at_receipt betweenReaderAndEngine
    (m := ⟨7, .format ⟨"a:1"⟩⟩) rfl (by decide)
  exact hdecided.2.2.2 MemoryStore StandIn.backend betweenReaderAndEngine rfl StandIn.steady
    ⟨rfl, rfl, rfl⟩ events reply _ _ hf hfate

end Receipt
end PhaseHost
