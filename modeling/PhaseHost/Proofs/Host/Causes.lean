import PhaseHost.Proofs.Host.Containment

/-! # Replies tell their cause

    Failures come from five places: the reading of a frame, the judgement at receipt, the
    loader, the capability and its breakdowns.  All end up in replies of one shape, which
    a client can only tell apart by their codes.

    `Receipt.Cause` says for each code why a frame gets it, in terms of where the failure
    comes from and not of how the host passes it on.  The reply to a frame is a failure
    with a code and a text exactly if there is a cause for them, and otherwise it is a
    result (`reply_told`).

    A frame with a cause has no bearing on the others: they get the replies that they
    would get without it. -/

namespace PhaseHost

variable {σ κ : Type}

/-! ## Why a call has no result -/

namespace CallOutcome

/-- Turn the answer of a call into something else. -/
def map {α β : Type} (f : α → β) : CallOutcome α → CallOutcome β
  | .answered value => .answered (f value)
  | .failed text => .failed text
  | .brokeDown message => .brokeDown message

/-- A call that fails says why itself; of one that breaks down the host says so. -/
inductive Fails {α : Type} : CallOutcome α → FailureCode → String → Prop
  | failed {text} : Fails (.failed text) .engineError text
  | brokeDown {message} : Fails (.brokeDown message) .runtimeFault (faultText message)

/-- What is made of an answer does not bear on how the call fails. -/
theorem fails_map_iff {α β : Type} (f : α → β) (outcome : CallOutcome α) (code : FailureCode)
    (text : String) : (outcome.map f).Fails code text ↔ outcome.Fails code text := by
  cases outcome with
  | answered value => exact ⟨nofun, nofun⟩
  | failed text => exact ⟨fun h => by cases h; exact .failed, fun h => by cases h; exact .failed⟩
  | brokeDown message =>
      exact ⟨fun h => by cases h; exact .brokeDown, fun h => by cases h; exact .brokeDown⟩

end CallOutcome

namespace Runtime

/-- How the call ends that an action makes, with the answer as a value.  An `init` makes none. -/
def call (R : Runtime κ) (c : κ) : Action → Option (CallOutcome Json)
  | .unify p => some ((R.unify p c).1.map .str)
  | .validate p => some ((R.validate p c).1.map .bool)
  | .format p => some ((R.format p c).1.map .str)
  | .parse p => some ((R.parse p c).1.map .str)
  | .getSymbols p => some ((R.getSymbols p c).1.map .str)
  | .exportAs p => some ((R.exportAs p c).1.map .str)
  | .init _ => none

/-- Why an action that is called has no result: the call has failed or broken down, or the
    symbols it has answered with are no JSON. -/
inductive Fails (R : Runtime κ) (c : κ) : Action → FailureCode → String → Prop
  | call {action outcome code text} (made : R.call c action = some outcome)
      (fails : outcome.Fails code text) : Fails R c action code text
  | unreadable {payload raw fault}
      (made : R.call c (.getSymbols payload) = some (.answered (.str raw)))
      (unread : Json.parseText raw = .error fault) :
      Fails R c (.getSymbols payload) .engineError
        ("getSymbols returned invalid JSON: " ++ fault.message (Utf8.encode raw))

/-- Only these two codes come from calls. -/
theorem Fails.code {R : Runtime κ} {c : κ} {action : Action} {code : FailureCode} {text : String}
    (h : R.Fails c action code text) : code = .engineError ∨ code = .runtimeFault := by
  cases h with
  | call made fails =>
      cases fails with
      | failed => exact Or.inl rfl
      | brokeDown => exact Or.inr rfl
  | unreadable made unread => exact Or.inl rfl

end Runtime

namespace Reply

/-- Failures under one number are told apart by their codes and texts. -/
theorem failure_inj {id : UInt64} {code code' : FailureCode} {text text' : String} :
    failure id code text = failure id code' text' ↔ code = code' ∧ text = text' := by
  constructor
  · intro h
    have htext := congrArg Reply.error h
    have hcode := congrArg Reply.code h
    exact ⟨FailureCode.text_injective (Option.some.inj hcode), Option.some.inj htext⟩
  · rintro ⟨rfl, rfl⟩
    rfl

/-- A result is no failure. -/
theorem ok_ne_failure (id : UInt64) (result : Json) (code : FailureCode) (text : String) :
    ok id result ≠ failure id code text :=
  fun h => nomatch congrArg Reply.success h

/-- A reply is a result, or a failure with a text and a code. -/
inductive Formed : Reply → Prop
  | ok (id result) : Formed (.ok id result)
  | failure (id code text) : Formed (.failure id code text)

theorem formed_ofResult (id : UInt64) (result : Except Failure Json) :
    (ofResult id result).Formed := by
  cases result with
  | ok value => exact .ok id value
  | error f => exact .failure id f.code f.message

theorem formed_ofCall {α : Type} (id : UInt64) (result : α → Except Failure Json)
    (outcome : CallOutcome α) : (ofCall id result outcome).Formed := by
  cases outcome with
  | answered value => exact formed_ofResult id (result value)
  | failed text => exact .failure id .engineError text
  | brokeDown message => exact .failure id .runtimeFault (faultText message)

/-- A call whose answers are all results fails exactly as its end does. -/
theorem ofCall_eq_failure_iff {α : Type} (id : UInt64) (f : α → Json) (outcome : CallOutcome α)
    (code : FailureCode) (text : String) :
    ofCall id (fun value => .ok (f value)) outcome = failure id code text
      ↔ (outcome.map f).Fails code text := by
  rw [CallOutcome.fails_map_iff]
  cases outcome with
  | answered value => exact ⟨fun h => absurd h (ok_ne_failure _ _ _ _), nofun⟩
  | failed own =>
      refine failure_inj.trans ⟨?_, fun h => by cases h; exact ⟨rfl, rfl⟩⟩
      rintro ⟨rfl, rfl⟩
      exact .failed
  | brokeDown message =>
      refine failure_inj.trans ⟨?_, fun h => by cases h; exact ⟨rfl, rfl⟩⟩
      rintro ⟨rfl, rfl⟩
      exact .brokeDown

/-- A call for symbols fails, or what it brings is no document. -/
theorem ofCall_symbols_eq_failure_iff (id : UInt64) (outcome : CallOutcome String)
    (code : FailureCode) (text : String) :
    ofCall id symbolsOfText outcome = failure id code text ↔
      outcome.Fails code text
      ∨ ∃ raw fault, outcome = .answered raw ∧ Json.parseText raw = .error fault
          ∧ code = .engineError
          ∧ text = "getSymbols returned invalid JSON: " ++ fault.message (Utf8.encode raw) := by
  cases outcome with
  | answered raw =>
      simp only [ofCall, symbolsOfText]
      cases hparse : Json.parseText raw with
      | ok value =>
          refine ⟨fun h => absurd h (ok_ne_failure _ _ _ _), ?_⟩
          rintro (h | ⟨raw', fault, heq, hbad, -⟩)
          · cases h
          · cases heq
            cases hparse.symm.trans hbad
      | error fault =>
          refine failure_inj.trans ⟨?_, ?_⟩
          · rintro ⟨rfl, rfl⟩
            exact Or.inr ⟨raw, fault, rfl, hparse, rfl, rfl⟩
          · rintro (h | ⟨raw', fault', heq, hbad, rfl, rfl⟩)
            · cases h
            · cases heq
              cases hparse.symm.trans hbad
              exact ⟨rfl, rfl⟩
  | failed own =>
      refine failure_inj.trans ⟨?_, ?_⟩
      · rintro ⟨rfl, rfl⟩
        exact Or.inl .failed
      · rintro (h | ⟨raw, fault, heq, -⟩)
        · cases h
          exact ⟨rfl, rfl⟩
        · cases heq
  | brokeDown message =>
      refine failure_inj.trans ⟨?_, ?_⟩
      · rintro ⟨rfl, rfl⟩
        exact Or.inl .brokeDown
      · rintro (h | ⟨raw, fault, heq, -⟩)
        · cases h
          exact ⟨rfl, rfl⟩
        · cases heq

end Reply

namespace Runtime

variable (R : Runtime κ) (id : UInt64) (c : κ)

/-- Every action ends in a reply that is a result or a failure. -/
theorem formed_reply (action : Action) : (R.reply id c action).1.Formed := by
  cases action with
  | init payload => exact .failure id .notReady _
  | unify payload => exact Reply.formed_ofCall ..
  | validate payload => exact Reply.formed_ofCall ..
  | format payload => exact Reply.formed_ofCall ..
  | parse payload => exact Reply.formed_ofCall ..
  | getSymbols payload => exact Reply.formed_ofCall ..
  | exportAs payload => exact Reply.formed_ofCall ..

/-- Apart from symbols, an action fails exactly as its call does. -/
theorem fails_iff (action : Action) {outcome : CallOutcome Json}
    (hcall : R.call c action = some outcome)
    (hother : ∀ payload, action ≠ .getSymbols payload) (code : FailureCode) (text : String) :
    R.Fails c action code text ↔ outcome.Fails code text := by
  constructor
  · rintro (⟨made, fails⟩ | ⟨made, unread⟩)
    · obtain rfl := Option.some.inj (hcall.symm.trans made)
      exact fails
    · exact absurd rfl (hother _)
  · exact fun fails => .call hcall fails

/-- **A CALLED ACTION FAILS** exactly if its call gives a reason. -/
theorem reply_eq_failure_iff {action : Action} (hcompute : action.required ≠ .idle)
    (code : FailureCode) (text : String) :
    (R.reply id c action).1 = .failure id code text ↔ R.Fails c action code text := by
  cases action with
  | init payload => exact absurd rfl hcompute
  | unify payload =>
      rw [R.fails_iff c (.unify payload) rfl (fun _ h => nomatch h)]
      exact Reply.ofCall_eq_failure_iff id .str _ code text
  | validate payload =>
      rw [R.fails_iff c (.validate payload) rfl (fun _ h => nomatch h)]
      exact Reply.ofCall_eq_failure_iff id .bool _ code text
  | format payload =>
      rw [R.fails_iff c (.format payload) rfl (fun _ h => nomatch h)]
      exact Reply.ofCall_eq_failure_iff id .str _ code text
  | parse payload =>
      rw [R.fails_iff c (.parse payload) rfl (fun _ h => nomatch h)]
      exact Reply.ofCall_eq_failure_iff id .str _ code text
  | exportAs payload =>
      rw [R.fails_iff c (.exportAs payload) rfl (fun _ h => nomatch h)]
      exact Reply.ofCall_eq_failure_iff id .str _ code text
  | getSymbols payload =>
      refine (Reply.ofCall_symbols_eq_failure_iff id _ code text).trans ⟨?_, ?_⟩
      · rintro (h | ⟨raw, fault, hanswer, hbad, rfl, rfl⟩)
        · exact .call rfl ((CallOutcome.fails_map_iff Json.str _ code text).mpr h)
        · refine .unreadable ?_ hbad
          simp only [call]
          rw [hanswer]
          rfl
      · rintro (⟨made, fails⟩ | ⟨made, unread⟩)
        · obtain rfl := Option.some.inj made
          exact Or.inl ((CallOutcome.fails_map_iff Json.str _ code text).mp fails)
        · refine Or.inr ⟨_, _, ?_, unread, rfl, rfl⟩
          -- only a text is answered as a text
          have hmap := Option.some.inj made
          cases hout : (R.getSymbols payload c).1 with
          | answered raw =>
              rw [hout] at hmap
              cases hmap
              rfl
          | failed own => rw [hout] at hmap; exact nomatch hmap
          | brokeDown message => rw [hout] at hmap; exact nomatch hmap

end Runtime

/-! ## Why a frame has no result -/

namespace Receipt

variable {B : Backend σ κ} {frame : Json} {r : Receipt B frame} {m : Message}
  {events : List HostEvent} {place : Nat} {reply : Reply}

/-- After some events, a capability serves a request: the request came in time, and its
    slot held this capability, which is in this state now. -/
def Serves (r : Receipt B frame) (m : Message) (events : List HostEvent) (c : κ) : Prop :=
  m.action.required ≤ r.host.phase.readiness
  ∧ ∃ installed, r.host.phase.slot m.action.required = some installed
    ∧ (r.after events).phase.loader.product? installed.handle = some c

theorem Serves.compute {c : κ} (h : r.Serves m events c) : m.action.required ≠ .idle := by
  intro hidle
  obtain ⟨-, installed, hslot, -⟩ := h
  rw [hidle] at hslot
  exact nomatch hslot

/-- A frame is served by one capability at most. -/
theorem Serves.unique {c c' : κ} (h : r.Serves m events c) (h' : r.Serves m events c') :
    c = c' := by
  obtain ⟨-, installed, hslot, hc⟩ := h
  obtain ⟨-, installed', hslot', hc'⟩ := h'
  obtain rfl := Option.some.inj (hslot.symm.trans hslot')
  exact Option.some.inj (hc.symm.trans hc')

/-- Why a frame gets a code and a text, at the moment at which its handler ends. -/
inductive Cause (r : Receipt B frame) (events : List HostEvent) : FailureCode → String → Prop
  /-- It has a usable id, but is no request. -/
  | malformed {id fault} (rejected : Message.ofFrame frame = .error ⟨some id, fault⟩) :
      Cause r events .protocolInvalid fault.message
  /-- It is an `init`, and the attempt to load its reader has failed. -/
  | unloaded {id payload attempt error}
      (asked : Message.ofFrame frame = .ok ⟨id, .init payload⟩)
      (takes : r.Takes payload events attempt)
      (failed : (r.after events).phase.loader.outcome? attempt = some (.error error)) :
      Cause r events .loadFailed error.message
  /-- It came too early. -/
  | early {request} (asked : Message.ofFrame frame = .ok request)
      (early : r.host.phase.readiness < request.action.required) :
      Cause r events .notReady (Phase.tooEarly r.host.phase.readiness request.action)
  /-- It was admitted, and the capability that serves it does not give a result. -/
  | unserved {request c code text} (asked : Message.ofFrame frame = .ok request)
      (serves : r.Serves request events c) (fails : B.runtime.Fails c request.action code text) :
      Cause r events code text

/-- What is told of a reply to a frame: it is well formed, under the id of the frame, and
    it is a failure exactly for a cause. -/
structure Told (r : Receipt B frame) (events : List HostEvent) (id : UInt64) (reply : Reply) :
    Prop where
  own : reply.id = id
  formed : reply.Formed
  failure_iff : ∀ code text, reply = .failure id code text ↔ r.Cause events code text

/-- A frame that is no request waits to be refused. -/
theorem handler_rejected (r : Receipt B frame) {id : UInt64} {fault : FrameFault}
    (hm : Message.ofFrame frame = .error ⟨some id, fault⟩)
    (hf : r.fate events = .inFlight place) :
    (r.after events).handlers[place]? = some ⟨id, .refuse (.invalid fault.message)⟩ := by
  refine Host.fate_inFlight ?_ (fun _ => nofun) hf
  have hhandler : Host.handlerOf r.host.phase frame
      = some ⟨id, .refuse (.invalid fault.message)⟩ := by
    simp only [Host.handlerOf]
    rw [hm]
  rw [r.step_receive, hhandler]
  exact List.getElem?_concat_length

/-- A frame that is no request. -/
theorem told_rejected {id : UInt64} {fault : FrameFault}
    (hm : Message.ofFrame frame = .error ⟨some id, fault⟩)
    (hf : r.fate events = .inFlight place)
    (hreply : (r.after events).reply? B (.poll place) = some reply) : r.Told events id reply := by
  have here := r.handler_rejected hm hf
  have hstep := Host.step_poll_refuse B (r.runs here) here
  obtain rfl : _ = reply :=
    Option.some.inj ((Host.reply?_of_outbox (congrArg Host.outbox hstep)).symm.trans hreply)
  refine ⟨rfl, .failure id .protocolInvalid _, fun code text => Reply.failure_inj.trans ⟨?_, ?_⟩⟩
  · rintro ⟨rfl, rfl⟩
    exact .malformed hm
  · intro hcause
    cases hcause with
    | malformed rejected =>
        cases hm.symm.trans rejected
        exact ⟨rfl, rfl⟩
    | unloaded asked takes failed => exact nomatch hm.symm.trans asked
    | early asked early => exact nomatch hm.symm.trans asked
    | unserved asked serves fails => exact nomatch hm.symm.trans asked

/-- An `init`. -/
theorem told_init {id : UInt64} {payload : InitPayload}
    (hm : Message.ofFrame frame = .ok ⟨id, .init payload⟩)
    (hf : r.fate events = .inFlight place)
    (hreply : (r.after events).reply? B (.poll place) = some reply) : r.Told events id reply := by
  obtain ⟨t, htakes, hconcludes⟩ := r.concludes (m := ⟨id, .init payload⟩) hm hf hreply
  -- the only cause there can be is that this attempt has failed
  have hcause : ∀ code text, r.Cause events code text ↔ code = .loadFailed
      ∧ ∃ error : LoadError, (r.after events).phase.loader.outcome? t = some (.error error)
        ∧ text = error.message := by
    intro code text
    constructor
    · intro hcause
      cases hcause with
      | malformed rejected => exact nomatch hm.symm.trans rejected
      | unloaded asked takes failed =>
          cases hm.symm.trans asked
          exact ⟨rfl, _, takes.unique htakes ▸ failed, rfl⟩
      | early asked early =>
          cases hm.symm.trans asked
          exact absurd early (Nat.not_lt_zero _)
      | unserved asked serves fails =>
          cases hm.symm.trans asked
          exact absurd rfl serves.compute
    · rintro ⟨rfl, error, hout, rfl⟩
      exact .unloaded hm htakes hout
  cases hconcludes with
  | @refused error failed =>
      refine ⟨rfl, .failure id .loadFailed _, fun code text => ?_⟩
      rw [hcause]
      refine Reply.failure_inj.trans ⟨?_, ?_⟩
      · rintro ⟨rfl, rfl⟩
        exact ⟨rfl, error, failed, rfl⟩
      · rintro ⟨rfl, error', hout, rfl⟩
        cases failed.symm.trans hout
        exact ⟨rfl, rfl⟩
  | through loaded raised reached =>
      refine ⟨rfl, .ok id _, fun code text => ?_⟩
      rw [hcause]
      refine ⟨fun h => absurd h (Reply.ok_ne_failure _ _ _ _), ?_⟩
      rintro ⟨-, error, hout, -⟩
      exact nomatch loaded.symm.trans hout

/-- A request of the module. -/
theorem told_compute (hm : Message.ofFrame frame = .ok m) (hcompute : m.action.required ≠ .idle)
    (hf : r.fate events = .inFlight place)
    (hreply : (r.after events).reply? B (.poll place) = some reply) :
    r.Told events m.id reply := by
  obtain ⟨reply', hreply', hjudged⟩ := r.poll_judged hm hcompute hf
  obtain rfl : reply' = reply := Option.some.inj (hreply'.symm.trans hreply)
  rcases hjudged with hrefused | ⟨installed, c, hserved⟩
  · rw [hrefused.reply_eq]
    refine ⟨rfl, .failure m.id .notReady _, fun code text => Reply.failure_inj.trans ⟨?_, ?_⟩⟩
    · rintro ⟨rfl, rfl⟩
      exact .early hm hrefused.early
    · intro hcause
      cases hcause with
      | malformed rejected => exact nomatch hm.symm.trans rejected
      | unloaded asked takes failed =>
          cases hm.symm.trans asked
          exact absurd rfl hcompute
      | early asked early =>
          cases hm.symm.trans asked
          exact ⟨rfl, rfl⟩
      | unserved asked serves fails =>
          cases hm.symm.trans asked
          exact absurd serves.1 (Nat.not_le.mpr hrefused.early)
  · rw [hserved.reply_eq]
    have hserves : r.Serves m events c :=
      ⟨hserved.reached, installed, hserved.picked, hserved.present⟩
    refine ⟨Host.id_reply .., B.runtime.formed_reply m.id c m.action, fun code text => ?_⟩
    rw [B.runtime.reply_eq_failure_iff m.id c hcompute]
    constructor
    · exact fun fails => .unserved hm hserves fails
    · intro hcause
      cases hcause with
      | malformed rejected => exact nomatch hm.symm.trans rejected
      | unloaded asked takes failed =>
          cases hm.symm.trans asked
          exact absurd rfl hcompute
      | early asked early =>
          cases hm.symm.trans asked
          exact absurd hserved.reached (Nat.not_le.mpr early)
      | unserved asked serves fails =>
          cases hm.symm.trans asked
          exact serves.unique hserves ▸ fails

/-- A request that requires nothing is an `init`, under the id of its frame. -/
theorem init_of_idle {id : UInt64} (hid : Message.idOf frame = some id)
    (hm : Message.ofFrame frame = .ok m) (hidle : m.action.required = .idle) :
    ∃ payload, Message.ofFrame frame = .ok ⟨id, .init payload⟩ := by
  obtain ⟨own, action⟩ := m
  obtain ⟨payload, rfl⟩ := Action.init_of_idle hidle
  obtain rfl : own = id := Option.some.inj ((Message.idOf_of_ok hm).symm.trans hid)
  exact ⟨payload, hm⟩

/-- **A REPLY IS TOLD**: what a frame with a usable id ends with is well formed, and a
    failure exactly for a cause. -/
theorem reply_told (r : Receipt B frame) {id : UInt64} (hid : Message.idOf frame = some id)
    (hf : r.fate events = .inFlight place)
    (hreply : (r.after events).reply? B (.poll place) = some reply) : r.Told events id reply := by
  cases hm : Message.ofFrame frame with
  | error e =>
      obtain ⟨own, fault⟩ := e
      obtain rfl : own = some id := (Message.idOf_of_error hm).symm.trans hid
      exact told_rejected hm hf hreply
  | ok m =>
      obtain rfl : m.id = id := Option.some.inj ((Message.idOf_of_ok hm).symm.trans hid)
      by_cases hidle : m.action.required = .idle
      · obtain ⟨payload, hinit⟩ := init_of_idle hid hm hidle
        exact told_init hinit hf hreply
      · exact told_compute hm hidle hf hreply

/-- Only an `init` has to wait: any other frame is answered when its handler is polled. -/
theorem replies_when_polled (r : Receipt B frame) {id : UInt64}
    (hid : Message.idOf frame = some id)
    (hno : ∀ payload, Message.ofFrame frame ≠ .ok ⟨id, .init payload⟩)
    (hf : r.fate events = .inFlight place) :
    ∃ reply, (r.after events).reply? B (.poll place) = some reply := by
  cases hm : Message.ofFrame frame with
  | error e =>
      obtain ⟨own, fault⟩ := e
      obtain rfl : own = some id := (Message.idOf_of_error hm).symm.trans hid
      have here := r.handler_rejected hm hf
      have hstep := Host.step_poll_refuse B (r.runs here) here
      exact ⟨_, Host.reply?_of_outbox (congrArg Host.outbox hstep)⟩
  | ok m =>
      have hcompute : m.action.required ≠ .idle := by
        intro hidle
        obtain ⟨payload, hinit⟩ := init_of_idle hid hm hidle
        exact hno payload hinit
      obtain ⟨reply, hreply, -⟩ := r.poll_judged hm hcompute hf
      exact ⟨reply, hreply⟩

/-! ## A frame with a cause stays by itself -/

/-- The handler of a frame with a cause will not change the controller; of calls it is
    assumed that they leave capabilities as they are. -/
theorem Cause.contains {code : FailureCode} {text : String} (h : r.Cause events code text)
    (hf : r.fate events = .inFlight place)
    (hsteady : code = .engineError ∨ code = .runtimeFault → B.runtime.Steady) :
    ∃ handler, (r.after events).handlers[place]? = some handler
      ∧ (r.after events).phase.Contains B handler.work := by
  cases h with
  | malformed rejected => exact ⟨_, r.handler_rejected rejected hf, .refuse⟩
  | @early request asked early =>
      have hcompute : request.action.required ≠ .idle := by
        intro hidle
        rw [hidle] at early
        exact Nat.not_lt_zero _ early
      refine ⟨_, r.handler_inFlight asked hcompute hf, ?_⟩
      rw [Host.workFor_early early]
      exact .refuse
  | @unserved request c code text asked serves fails =>
      obtain ⟨hreached, installed, hslot, -⟩ := id serves
      refine ⟨_, r.handler_inFlight asked serves.compute hf, ?_⟩
      rw [Host.workFor_reached serves.compute hreached hslot]
      exact .compute (hsteady fails.code)
  | @unloaded id payload attempt error asked takes failed =>
      rcases r.awaits (m := ⟨id, .init payload⟩) asked hf with here | ⟨k, t, here, hawaits⟩
      · -- it has begun already, so it will not begin
        obtain ⟨earlier, start, later, rfl, hbegins, -⟩ := takes
        have hagain : r.Begins payload (earlier ++ .poll start :: later) place :=
          ⟨hf, by rw [here]; rfl⟩
        exact absurd hagain hbegins.not_again
      · obtain rfl := takes.unique hawaits.takes
        obtain ⟨request, hrequest, -, hfollows⟩ := hawaits.bound
        refine ⟨_, here, .await ⟨request, hrequest, ?_⟩⟩
        intro waited hstage
        rw [hstage] at hfollows
        cases hfollows with
        | waiting => exact ⟨error, failed⟩

end Receipt

namespace Host

variable {B : Backend σ κ} {h h' : Host σ κ} {n : Nat} {reply : Reply}

/-- A reply is all there is to see of the end of a handler: the host goes on, with the same
    traffic and the other handlers, and in the controller at most the state of a capability
    differs. -/
structure Quiet (h : Host σ κ) (n : Nat) (reply : Reply) (h' : Host σ κ) : Prop where
  runs : h'.stopped = false
  inbox : h'.inbox = h.inbox
  accepting : h'.accepting = h.accepting
  listening : h'.listening = h.listening
  handlers : h'.handlers = h.handlers.eraseIdx n
  outbox : h'.outbox = h.outbox ++ [reply]
  untouched : Phase.Untouched h.phase h'.phase

/-- **THE REPLY IS ALL**: a poll that puts a reply into the outbox ends its handler and does no
    more. -/
theorem Move.quiet (hmove : Move B h (.poll n) h')
    (hreply : h'.outbox[h.outbox.length]? = some reply) : Quiet h n reply h' := by
  have hlast : ∀ own : Reply, (h.outbox ++ [own])[h.outbox.length]? = some reply → own = reply := by
    intro own hown
    rw [List.getElem?_concat_length] at hown
    exact Option.some.inj hown
  have hnone : h.outbox[h.outbox.length]? = none := List.getElem?_eq_none (Nat.le_refl _)
  have huntouched : Phase.Untouched h.phase h.phase :=
    ⟨rfl, rfl, rfl, rfl, rfl, rfl, rfl, rfl, rfl, rfl⟩
  cases hmove with
  | refuse runs here =>
      obtain rfl := hlast _ hreply
      exact ⟨Bool.eq_false_iff.mpr runs, rfl, rfl, rfl, rfl, rfl, huntouched⟩
  | serve runs here made =>
      obtain rfl := hlast _ hreply
      exact ⟨Bool.eq_false_iff.mpr runs, rfl, rfl, rfl, rfl, rfl, Phase.untouched_call ..⟩
  | answer runs here ended =>
      obtain rfl := hlast _ hreply
      exact ⟨Bool.eq_false_iff.mpr runs, rfl, rfl, rfl, rfl, rfl, huntouched⟩
  | stay unadmitted untaken => exact nomatch hnone.symm.trans hreply
  | begin runs here => exact nomatch hnone.symm.trans hreply

/-- **REPLIES TELL THEIR CAUSE**.  In every run of a host:

    * a reply ends the handler of a frame, under the id of that frame; it is a result, or
      a failure with a text and a code, and it is the failure exactly if that is the code
      and text of a cause;
    * this holds of every frame that is received, and every frame but an `init` is
      answered as soon as its handler is polled;
    * a result is written without error and code, a failure without result;
    * writing a reply stops no host and changes nothing but the state of the capability
      that was called;
    * a frame with a cause, left out from then on, leaves the replies to all others as
      they are. -/
theorem replies_tell_their_cause (B : Backend σ κ) (store : σ) (events : List HostEvent) :
    let h := (empty store : Host σ κ).run B events
    (∀ reply ∈ h.outbox, ∃ (frame : Json) (r : Receipt B frame) (between : List HostEvent)
        (place : Nat) (later : List HostEvent),
      r.store = store ∧ events = r.before ++ .receive :: (between ++ .poll place :: later)
      ∧ r.fate between = .inFlight place ∧ Message.idOf frame = some reply.id
      ∧ r.Told between reply.id reply) ∧
    (∀ (frame : Json) (r : Receipt B frame) between place id,
      Message.idOf frame = some id → r.fate between = .inFlight place →
      (∀ reply, (r.after between).reply? B (.poll place) = some reply → r.Told between id reply)
      ∧ ((∀ payload, Message.ofFrame frame ≠ .ok ⟨id, .init payload⟩) →
          ∃ reply, (r.after between).reply? B (.poll place) = some reply)) ∧
    ((∀ id result, (Reply.ok id result).toJson
        = .ofPairs [("id", .ofNat id.toNat), ("success", .bool true), ("result", result)])
      ∧ ∀ id code text, (Reply.failure id code text).toJson
        = .ofPairs [("id", .ofNat id.toNat), ("success", .bool false), ("error", .str text),
          ("code", .str code.text)]) ∧
    (∀ n reply, h.reply? B (.poll n) = some reply → Quiet h n reply (h.step B (.poll n))) ∧
    ∀ (frame : Json) (r : Receipt B frame) between place code text,
      r.Cause between code text → r.fate between = .inFlight place →
      (code = .engineError ∨ code = .runtimeFault → B.runtime.Steady) →
      ∃ handler, (r.after between).handlers[place]? = some handler ∧
        ∀ result more, ((r.after between).fate B place more).Lacks
          ((r.after between).run B more).outbox
          (((r.after between).without place handler.work result).run B
            ((r.after between).besides B (.inFlight place) more)).outbox := by
  intro h
  refine ⟨?_, ?_, ⟨fun _ _ => rfl, fun _ _ _ => rfl⟩, ?_, ?_⟩
  · intro reply hmem
    obtain ⟨frame, r, more, later, rfl, hevents, hfate, hid⟩ := reply_origin B store events hmem
    obtain ⟨between, place, rest, rfl, hin, hreply⟩ := fate_ended hfate
    refine ⟨frame, r, between, place, rest ++ later, rfl, ?_, hin, hid, r.reply_told hid hin hreply⟩
    rw [hevents, List.append_assoc, List.cons_append]
  · intro frame r between place id hid hin
    exact ⟨fun reply hreply => r.reply_told hid hin hreply,
      fun hno => r.replies_when_polled hid hno hin⟩
  · intro n reply hreply
    exact (move_step B h (.poll n)).quiet hreply
  · intro frame r between place code text hcause hin hsteady
    obtain ⟨handler, here, hcontains⟩ := hcause.contains hin hsteady
    have hafter := r.after_eq between
    have hw : (r.after between).Winding := hafter ▸ winding_run B r.store _
    have hapart : (r.after between).Apart := hafter ▸ apart_run B r.store _
    exact ⟨handler, here, fun result more => lacks_run_without hw hapart here hcontains result more⟩

/-- Frames that go wrong in five ways, behind an `init` that has brought a reader. -/
def mishaps : List HostEvent :=
  Receipt.readerComes ++ [.poll 0,
    .deliver (.obj [("action", .str "nothing"), ("id", .int 2)]), .receive, .poll 0,
    .deliver (.obj [("action", .str "unify"), ("id", .int 3),
      ("payload", .obj [("entryPoints", .arr []), ("overlay", .obj []), ("tags", .arr [])])]),
    .receive, .poll 0,
    .deliver (.obj [("action", .str "parse"), ("id", .int 4),
      ("payload", .obj [("code", .str "no label")])]), .receive, .poll 0,
    .deliver (.obj [("action", .str "parse"), ("id", .int 5),
      ("payload", .obj [("code", .str "@panic")])]), .receive, .poll 0,
    .deliver (.obj [("action", .str "init"), ("id", .int 6),
      ("payload", .obj [("version", .str "v2"), ("wasmPath", .str "https://x.y/e")])]),
    .receive, .poll 0, .background (.load (.look 1)),
    .background (.load (.fetched 1 (.error "gone"))), .background (.resume 1), .poll 0]

example : ((empty MemoryStore.empty).run StandIn.backend mishaps).outbox.map Reply.code
    = [none, some "Protocol.Invalid", some "Capability.NotReady", some "Engine.Error",
      some "Runtime.Fault", some "Load.Failed"] := rfl

end Host
end PhaseHost
