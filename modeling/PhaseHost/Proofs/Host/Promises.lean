import PhaseHost.Proofs.Host.Requests

/-! # What an answered `init` promises

    A client that has got the reply to its `init` relies on it: what the reply says to be
    in place is in place, and stays.

    The reply reports the readiness of one moment, the one at which the request was PUT
    THROUGH, which may be long before the reply is written.  At that moment readiness and
    slots agree, and since neither goes back, whatever is received after the reply, or
    after any request that found the engine in place, comes in time.  Later requests of
    the controller cannot take any of this back, however they end. -/

namespace PhaseHost

variable {σ κ : Type}

namespace Host

variable {B : Backend σ κ}

/-- Readiness does not decrease in a run, and no filled slot becomes empty. -/
theorem grows_run (h : Host σ κ) (events : List HostEvent) :
    Phase.Grows h.phase (h.run B events).phase := by
  induction events using List.reverseRecOn with
  | nil => exact .refl _
  | append_singleton events event ih =>
      rw [run_concat]
      exact ih.trans (move_step B _ event).driven.grows

end Host

namespace Receipt

variable {B : Backend σ κ} {frame frame' : Json} {r : Receipt B frame} {m : Message}
  {payload : InitPayload} {events : List HostEvent} {place : Nat} {reply : Reply}
  {readiness : Readiness}

/-! ## The moment that is reported -/

/-- An event puts request `k` through, with the readiness of that moment. -/
structure PutsThrough (r : Receipt B frame) (earlier : List HostEvent) (event : HostEvent)
    (k : Nat) (readiness : Readiness) : Prop where
  pending : ((r.after earlier).phase.requests[k]?).bind Request.result? = none
  ended : ((r.after (earlier ++ [event])).phase.requests[k]?).bind Request.result?
    = some (.ok readiness)
  readiness_eq : (r.after (earlier ++ [event])).phase.readiness = readiness

/-- Request `k` is the one that the handler of an `init` has made, and if it was put
    through, then at some moment. -/
structure Pursues (r : Receipt B frame) (payload : InitPayload) (events : List HostEvent)
    (k : Nat) : Prop where
  awaits : ∃ t, r.Awaits payload events k t
  through : ∀ readiness,
    ((r.after events).phase.requests[k]?).bind Request.result? = some (.ok readiness) →
      ∃ earlier event later, events = earlier ++ event :: later
        ∧ r.PutsThrough earlier event k readiness

theorem Begins.pursues {start : Nat} (h : r.Begins payload events start) :
    r.Pursues payload (events ++ [.poll start]) (r.after events).phase.requests.length := by
  refine ⟨h.awaits, ?_⟩
  intro readiness hdone
  obtain ⟨id, here, hafter⟩ := h.step
  -- a request that has just been made waits
  have hwaits : ((r.after (events ++ [.poll start])).phase.requests[
      (r.after events).phase.requests.length]?).bind Request.result? = none := by
    rw [hafter]
    show (((_ ++ [_] : List Request))[_]?).bind _ = none
    rw [List.getElem?_concat_length]
    rfl
  exact nomatch hwaits.symm.trans hdone

theorem Pursues.concat {k : Nat} (h : r.Pursues payload events k) (event : HostEvent) :
    r.Pursues payload (events ++ [event]) k := by
  obtain ⟨t, hawaits⟩ := h.awaits
  refine ⟨⟨t, hawaits.concat event⟩, ?_⟩
  intro readiness hdone
  obtain ⟨request, here, -⟩ := hawaits.bound
  have hdriven := (Host.move_step B (r.after events) event).driven
  obtain ⟨request', here', hgoes⟩ := hdriven.request_goes here
  have hdone' : request'.result? = some (.ok readiness) := by
    rw [r.after_concat, here'] at hdone
    exact hdone
  cases hgoes with
  | stays =>
      have hbefore : ((r.after events).phase.requests[k]?).bind Request.result?
          = some (.ok readiness) := by
        rw [here]
        exact hdone'
      obtain ⟨earlier, own, later, rfl, hthrough⟩ := h.through readiness hbefore
      exact ⟨earlier, own, later ++ [event], by rw [List.append_assoc, List.cons_append], hthrough⟩
  | refused failed => exact nomatch Option.some.inj hdone'
  | through loaded raised =>
      -- this is the event that puts it through
      obtain rfl := Except.ok.inj (Option.some.inj hdone')
      refine ⟨events, event, [], rfl, ?_, hdone, ?_⟩
      · rw [here]
        rfl
      · rw [r.after_concat]

/-- A reply to an `init` that is no failure reports the readiness of the moment at which
    its request was put through. -/
theorem reports (r : Receipt B frame) (hm : Message.ofFrame frame = .ok ⟨m.id, .init payload⟩)
    (hf : r.fate events = .inFlight place)
    (hreply : (r.after events).reply? B (.poll place) = some reply)
    (hsuccess : reply.success = true) :
    ∃ readiness k, reply = .ok m.id (InitOutcome.ofReadiness readiness).toJson
      ∧ readiness ≠ .idle ∧ readiness ≤ (r.after events).phase.readiness
      ∧ r.Pursues payload events k
      ∧ ∃ earlier event later, events = earlier ++ event :: later
          ∧ r.PutsThrough earlier event k readiness := by
  have hhandler := r.init_inFlight hm (fun _ _ hbegins => hbegins.pursues)
    (fun _ event _ hpursues => hpursues.concat event) hf
  rcases hhandler with here | ⟨k, here, hpursues⟩
  · have hstep := Host.step_poll_begin B (r.runs here) here
    have hsilent : ((r.after events).step B (.poll place)).outbox = (r.after events).outbox := by
      rw [hstep]
    exact nomatch (Host.reply?_of_silent hsilent).symm.trans hreply
  · obtain ⟨own, result, hown, hresult, rfl⟩ := Host.reply?_await here hreply
    obtain ⟨t, -, request, hrequest', hasks, hfollows⟩ := hpursues.awaits
    obtain rfl := Option.some.inj (hown.symm.trans hrequest')
    cases result with
    | error e => exact nomatch hsuccess
    | ok readiness =>
        obtain ⟨version, sources, stage⟩ := own
        obtain rfl : stage = .done (.ok readiness) := by
          cases stage with
          | waiting t => exact nomatch hresult
          | done result => rw [Option.some.inj hresult]
        cases hfollows with
        | through loaded raised reached =>
            refine ⟨readiness, k, rfl, raised, reached, hpursues, hpursues.through readiness ?_⟩
            rw [hown]
            rfl

/-! ## What is received later -/

/-- A frame is received LATER than another one and some events after it, in one run. -/
structure Later (r' : Receipt B frame') (r : Receipt B frame) (events : List HostEvent) :
    Prop where
  store : r'.store = r.store
  before : r.before ++ .receive :: events <+: r'.before

/-- What is received later finds at least as much in place. -/
theorem Later.grows {r' : Receipt B frame'} (h : r'.Later r events) :
    Phase.Grows (r.after events).phase r'.host.phase := by
  obtain ⟨more, hmore⟩ := h.before
  have hhost : r'.host = (r.after events).run B more := by
    rw [r.after_eq, ← Host.run_append, hmore, ← h.store]
    rfl
  rw [hhost]
  exact Host.grows_run _ more

/-- A frame is IN TIME if it is never answered that it came too early. -/
def InTime (r : Receipt B frame) : Prop :=
  ∀ events reply, r.fate events = .ended reply → reply.code ≠ some FailureCode.notReady.text

/-- What is required of a request is in place when it is received, so it is in time. -/
theorem inTime_of_reached (r : Receipt B frame) (hm : Message.ofFrame frame = .ok m)
    (hcompute : m.action.required ≠ .idle)
    (hreached : m.action.required ≤ r.host.phase.readiness) : r.InTime := by
  intro events reply hf
  obtain ⟨_, _, _, -, -, hjudged⟩ := r.judged hm hcompute hf
  rcases hjudged with hrefused | ⟨installed, c, hserved⟩
  · exact absurd hrefused.early (Nat.not_lt.mpr hreached)
  · exact hserved.ready

/-- A state that is reached lets in time whatever requires no more. -/
theorem Later.inTime {r' : Receipt B frame'} (h : r'.Later r events)
    (hm : Message.ofFrame frame' = .ok m) (hcompute : m.action.required ≠ .idle)
    (hreached : m.action.required ≤ (r.after events).phase.readiness) : r'.InTime :=
  r'.inTime_of_reached hm hcompute (Readiness.le_trans hreached h.grows.readiness)

/-- What the reply to an `init` reports, and what it promises of all that is received later. -/
structure Promises (r : Receipt B frame) (payload : InitPayload) (events : List HostEvent)
    (place : Nat) (reply : Reply) (readiness : Readiness) : Prop where
  raised : readiness = .readerOnly ∨ readiness = .full
  result : reply.result = some (.ofPairs [("capability", .str readiness.name),
    ("isFullEngine", .bool (readiness = .full))])
  /-- It was so when its request was put through, and the engine was there exactly if it
      says so. -/
  moment : ∃ k t, r.Awaits payload events k t
    ∧ ∃ earlier event later, events = earlier ++ event :: later
      ∧ r.PutsThrough earlier event k readiness
      ∧ (readiness = .full ↔ (r.after (earlier ++ [event])).phase.engine ≠ none)
  /-- The engine is still there when the reply is written. -/
  engine : readiness = .full → (r.after (events ++ [.poll place])).phase.engine ≠ none
  reader_in_time : ∀ (frame' : Json) (r' : Receipt B frame') (m : Message),
    r'.Later r (events ++ [.poll place]) → Message.ofFrame frame' = .ok m →
    m.action.required = .readerOnly → r'.InTime
  all_in_time : readiness = .full → ∀ (frame' : Json) (r' : Receipt B frame') (m : Message),
    r'.Later r (events ++ [.poll place]) → Message.ofFrame frame' = .ok m →
    m.action.required ≠ .idle → r'.InTime

/-- The controller is sound all along. -/
theorem sound_after (r : Receipt B frame) (events : List HostEvent) :
    (r.after events).phase.Sound := by
  rw [r.after_eq]
  exact Host.sound_run (Phase.sound_empty r.store) _

/-- A reply to an `init` that is no failure keeps what it promises. -/
theorem promises (r : Receipt B frame) (hm : Message.ofFrame frame = .ok ⟨m.id, .init payload⟩)
    (hf : r.fate events = .inFlight place)
    (hreply : (r.after events).reply? B (.poll place) = some reply)
    (hsuccess : reply.success = true) :
    ∃ readiness, r.Promises payload events place reply readiness := by
  obtain ⟨readiness, k, rfl, hraised, hreached, hpursues, earlier, event, later, hevents,
    hthrough⟩ := r.reports hm hf hreply hsuccess
  obtain ⟨t, hawaits⟩ := hpursues.awaits
  -- readiness does not go back while the reply is written
  have hreached' : readiness ≤ (r.after (events ++ [.poll place])).phase.readiness := by
    rw [r.after_concat]
    exact Readiness.le_trans hreached (Host.move_step B _ _).driven.grows.readiness
  have hraised' : readiness = .readerOnly ∨ readiness = .full := by
    cases readiness with
    | idle => exact absurd rfl hraised
    | readerOnly => exact Or.inl rfl
    | full => exact Or.inr rfl
  refine ⟨readiness, hraised', rfl, ⟨k, t, hawaits, earlier, event, later, hevents, hthrough, ?_⟩,
    ?_, ?_, ?_⟩
  · rw [← hthrough.readiness_eq]
    exact (r.sound_after _).full_iff
  · rintro rfl
    exact (r.sound_after _).full_iff.mp (Readiness.eq_full hreached')
  · intro frame' r' m' hlater hm' hrequired
    have hcompute : m'.action.required ≠ .idle := by
      rw [hrequired]
      exact nofun
    refine hlater.inTime hm' hcompute (Readiness.le_trans ?_ hreached')
    rw [hrequired]
    rcases hraised' with rfl | rfl <;> decide
  · rintro rfl frame' r' m' hlater hm' hcompute
    exact hlater.inTime hm' hcompute (Readiness.le_trans (Readiness.le_full _) hreached')

/-- **WHAT AN ANSWERED `init` PROMISES**.  In every run of a host, whatever messages, loads
    and further requests come in between:

    * a reply to an `init` that is no failure reports the reader or the whole engine, the
      latter exactly with its flag and with the engine in place, both when the request was
      put through and when the reply is written;
    * what is received after it and needs no engine is in time, and if it has reported the
      engine, everything is;
    * everything is in time, too, that is received after a request that needs the engine
      and was admitted. -/
theorem answered_init_promises (r : Receipt B frame) :
    (∀ id payload events place reply, Message.ofFrame frame = .ok ⟨id, .init payload⟩ →
      r.fate events = .inFlight place →
      (r.after events).reply? B (.poll place) = some reply → reply.success = true →
      ∃ readiness, r.Promises payload events place reply readiness) ∧
    ∀ m, Message.ofFrame frame = .ok m → m.action.required = .full →
      (∀ failure, r.host.phase.gate m.action ≠ .error failure) →
      ∀ (frame' : Json) (r' : Receipt B frame') (m' : Message), r'.Later r [] →
        Message.ofFrame frame' = .ok m' → m'.action.required ≠ .idle → r'.InTime := by
  refine ⟨?_, ?_⟩
  · intro id payload events place reply hm hf hreply hsuccess
    exact r.promises (m := ⟨id, .init payload⟩) hm hf hreply hsuccess
  · intro m hm hfull hadmitted frame' r' m' hlater hm' hcompute
    have hreached : m.action.required ≤ r.host.phase.readiness := by
      by_contra hearly
      exact hadmitted _ (if_pos (Nat.not_le.mp hearly))
    refine hlater.inTime hm' hcompute ?_
    rw [show (r.after []).phase = r.host.phase from r.phase_receive]
    exact Readiness.le_trans (Readiness.le_full _) (hfull ▸ hreached)

/-- A first request is received. -/
def firstRequest : Receipt StandIn.backend initFrame where
  store := MemoryStore.empty
  before := [.deliver initFrame]
  next := rfl

/-- Its reply is written late: by then the engine is in place as well. -/
def lateReply : List HostEvent :=
  readerArrives ++ engineComes.dropLast

/-- A frame is received behind the reply. -/
def behindReply : Receipt StandIn.backend formatFrame where
  store := MemoryStore.empty
  before := readerComes ++ engineComes ++ [.deliver formatFrame]
  next := rfl

/-- The reply reports the reader alone, as it was when the request was put through.  What
    needs no more is in time behind it. -/
theorem late_reply_promises_reader :
    let reply : Reply := .ok 1 (InitOutcome.ofReadiness .readerOnly).toJson
    Message.ofFrame initFrame = .ok ⟨1, .init ⟨"https://x.y/e", "v1", false, none⟩⟩ ∧
    firstRequest.fate lateReply = .inFlight 0 ∧
    (firstRequest.after lateReply).reply? StandIn.backend (.poll 0) = some reply ∧
    (firstRequest.after lateReply).phase.readiness = .full ∧
    firstRequest.Promises ⟨"https://x.y/e", "v1", false, none⟩ lateReply 0 reply .readerOnly ∧
    behindReply.InTime := by
  intro reply
  have hm : Message.ofFrame initFrame = .ok ⟨1, .init ⟨"https://x.y/e", "v1", false, none⟩⟩ := rfl
  have hf : firstRequest.fate lateReply = .inFlight 0 := rfl
  have hreply : (firstRequest.after lateReply).reply? StandIn.backend (.poll 0) = some reply := rfl
  obtain ⟨hpromises, -⟩ := answered_init_promises firstRequest
  obtain ⟨readiness, hpromise⟩ := hpromises _ _ _ _ _ hm hf hreply rfl
  -- the name in the reply tells which readiness is meant
  obtain rfl : readiness = .readerOnly := by
    have hname := hpromise.result
    rcases hpromise.raised with rfl | rfl
    · rfl
    · exact absurd hname (by decide)
  have hlater : behindReply.Later firstRequest (lateReply ++ [.poll 0]) :=
    ⟨rfl, [.deliver formatFrame], rfl⟩
  exact ⟨hm, hf, hreply, rfl, hpromise,
    hpromise.reader_in_time _ _ ⟨7, .format ⟨"a:1"⟩⟩ hlater rfl rfl⟩

end Receipt
end PhaseHost
