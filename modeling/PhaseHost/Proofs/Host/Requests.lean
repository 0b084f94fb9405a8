import PhaseHost.Proofs.Host.Origins
import PhaseHost.Proofs.Phase.Links

/-! # What a request comes to

    A request of the controller takes one attempt to load its reader, when it is made,
    and ends as that attempt does: it is refused with the error of the attempt, or put
    through with the readiness of that moment.

    `RequestStage.Follows` says how far a request may have come that has taken an
    attempt.  Whatever a host does keeps it, since outcomes stay and readiness does not
    go back.

    The handler of an `init` makes one request, so it is known which attempt the frame
    has taken, and the reply tells how that attempt has ended. -/

namespace PhaseHost

variable {σ κ : Type}

namespace Phase

variable {B : Backend σ κ} {p q : Phase σ κ} {event : PhaseEvent}

/-! ## Attempts go on -/

/-- An attempt stays an attempt for the same, with the same outcome once it has one. -/
theorem Driven.keeps (hd : Driven B p q) {t : Handle} {a : Attempt κ}
    (here : p.loader.attempts[t]? = some a) :
    ∃ a', q.loader.attempts[t]? = some a' ∧ a.Keeps a' := by
  cases hd with
  | rest => exact ⟨a, here, .refl a⟩
  | request version sources =>
      exact Loader.keeps_act B (.load ⟨.reader, version⟩ sources.reader) here
  | @call handle c made id action =>
      refine ⟨_, (List.getElem?_modify ..).trans (by rw [here]; rfl), ?_⟩
      -- a call changes at most what an attempt has made
      dsimp only
      split
      · exact ⟨rfl, rfl, fun _ h => h⟩
      · exact .refl a
  | step event => exact (move_step B p event).keeps here

/-- An outcome stays. -/
theorem Driven.outcome? (hd : Driven B p q) {t : Handle} {outcome : Except LoadError Handle}
    (h : p.loader.outcome? t = some outcome) : q.loader.outcome? t = some outcome := by
  obtain ⟨a, here, hout⟩ := Option.bind_eq_some_iff.mp h
  obtain ⟨a', here', hkeeps⟩ := hd.keeps here
  exact Option.bind_eq_some_iff.mpr ⟨a', here', hkeeps.outcome outcome hout⟩

/-- Nothing a host does takes anything back from its controller. -/
theorem Driven.grows (hd : Driven B p q) : Grows p q := by
  cases hd with
  | rest => exact .refl p
  | request version sources => exact ⟨Readiness.le_refl _, id, id⟩
  | call made id action => exact ⟨Readiness.le_refl _, fun h => h, fun h => h⟩
  | step event => exact (move_step B p event).grows

end Phase

/-- How far a request may have come that has taken an attempt. -/
inductive RequestStage.Follows (p : Phase σ κ) (attempt : Handle) : RequestStage → Prop
  | waiting : Follows p attempt (.waiting attempt)
  | refused {error} (failed : p.loader.outcome? attempt = some (.error error)) :
      Follows p attempt (.done (.error error))
  | through {handle readiness} (loaded : p.loader.outcome? attempt = some (.ok handle))
      (raised : readiness ≠ .idle) (reached : readiness ≤ p.readiness) :
      Follows p attempt (.done (.ok readiness))

namespace Phase

variable {B : Backend σ κ} {p q : Phase σ κ} {payload : InitPayload} {k : Nat} {t : Handle}

/-- Request `k` asks for what a payload names, and has taken an attempt. -/
def Bound (p : Phase σ κ) (k : Nat) (payload : InitPayload) (t : Handle) : Prop :=
  ∃ request, p.requests[k]? = some request ∧ request.AsksFor payload
    ∧ request.stage.Follows p t

/-- A request is bound to the attempt that it has made or joined. -/
theorem bound_request (p : Phase σ κ) (payload : InitPayload) :
    (p.request payload.version payload.sources).Bound p.requests.length payload
      (p.loader.load ⟨.reader, payload.version⟩ payload.sources.reader).1 :=
  ⟨_, getElem?_concat_iff.mpr (Or.inr ⟨rfl, rfl⟩), ⟨rfl, rfl⟩, .waiting⟩

/-- How far a request may have come is told by its attempt ever after. -/
theorem Driven.follows (hd : Driven B p q) {stage : RequestStage} (h : stage.Follows p t) :
    stage.Follows q t := by
  cases h with
  | waiting => exact .waiting
  | refused failed => exact .refused (hd.outcome? failed)
  | through loaded raised reached =>
      exact .through (hd.outcome? loaded) raised (Readiness.le_trans reached hd.grows.readiness)

/-- A request stays bound to its attempt. -/
theorem Bound.driven (h : p.Bound k payload t) (hd : Driven B p q) : q.Bound k payload t := by
  obtain ⟨request, here, hasks, hfollows⟩ := h
  obtain ⟨request', here', hgoes⟩ := hd.request_goes here
  refine ⟨request', here', hgoes.asksFor hasks, ?_⟩
  cases hgoes with
  | stays => exact hd.follows hfollows
  | through loaded raised =>
      cases hfollows with
      | waiting =>
          refine .through (hd.outcome? loaded) ?_ (Readiness.le_refl _)
          exact raised ▸ Readiness.advance_ne_idle _ nofun
  | refused failed =>
      cases hfollows with
      | waiting => exact .refused (hd.outcome? failed)

end Phase

namespace Receipt

variable {B : Backend σ κ} {frame : Json} {r : Receipt B frame} {m : Message}
  {payload : InitPayload} {events earlier earlier' later later' : List HostEvent}
  {start start' place : Nat} {t t' : Handle}

/-! ## The attempt of an `init` -/

/-- A frame begins once: from then on its handler awaits. -/
theorem Begins.not_again (h : r.Begins payload earlier start) :
    ¬ r.Begins payload (earlier ++ .poll start :: later) start' := by
  intro hagain
  obtain ⟨id, here, hafter⟩ := h.step
  have hsilent : ((r.after earlier).step B (.poll start)).outbox = (r.after earlier).outbox := by
    rw [← r.after_concat, hafter]
  have hrunning : r.fate (earlier ++ [.poll start]) = .inFlight start := by
    refine (Host.fate_append h.running).trans (Host.fate_cons_inFlight ?_)
    exact Host.follow_of_silent (Host.reply?_of_silent hsilent)
  have hawaits : (r.after (earlier ++ [.poll start])).handlers[start]?
      = some ⟨id, .await (r.after earlier).phase.requests.length⟩ := by
    rw [hafter]
    exact List.getElem?_set_self (List.getElem?_eq_some_iff.mp here).1
  have hlater : (r.after (earlier ++ [.poll start])).fate B start later = .inFlight start' := by
    refine (Host.fate_append hrunning).symm.trans ?_
    rw [List.append_assoc]
    exact hagain.running
  have hstill := Host.fate_inFlight hawaits (fun _ => nofun) hlater
  have hbegin := hagain.here
  rw [List.append_cons, show r.after ((earlier ++ [.poll start]) ++ later)
      = (r.after (earlier ++ [.poll start])).run B later from Host.run_append .., hstill] at hbegin
  exact nomatch Option.some.inj hbegin

/-- A request is begun once. -/
theorem Begins.unique (h : r.Begins payload earlier start) (h' : r.Begins payload earlier' start')
    (heq : earlier ++ .poll start :: later = earlier' ++ .poll start' :: later') :
    earlier = earlier' := by
  rcases List.append_eq_append_iff.mp heq with ⟨between, hmore, hrest⟩ | ⟨between, hmore, hrest⟩
  · cases between with
    | nil => exact (hmore.trans (List.append_nil _)).symm
    | cons event between =>
        obtain ⟨rfl, -⟩ := List.cons.inj hrest
        subst hmore
        exact absurd h' h.not_again
  · cases between with
    | nil => exact hmore.trans (List.append_nil _)
    | cons event between =>
        obtain ⟨rfl, -⟩ := List.cons.inj hrest
        subst hmore
        exact absurd h h'.not_again

/-- After some events, the handler of the frame has begun its request, which has taken an
    attempt to load its reader. -/
def Takes (r : Receipt B frame) (payload : InitPayload) (events : List HostEvent)
    (t : Handle) : Prop :=
  ∃ earlier start later, events = earlier ++ .poll start :: later
    ∧ r.Begins payload earlier start
    ∧ t = ((r.after earlier).phase.loader.load ⟨.reader, payload.version⟩
        payload.sources.reader).1

/-- A frame takes one attempt. -/
theorem Takes.unique (h : r.Takes payload events t) (h' : r.Takes payload events t') : t = t' := by
  obtain ⟨earlier, start, later, rfl, hbegins, rfl⟩ := h
  obtain ⟨earlier', start', later', heq, hbegins', rfl⟩ := h'
  obtain rfl := hbegins.unique hbegins' heq
  rfl

/-- What the handler of a frame has taken stays taken. -/
theorem Takes.append (h : r.Takes payload events t) (more : List HostEvent) :
    r.Takes payload (events ++ more) t := by
  obtain ⟨earlier, start, later, rfl, hbegins, ht⟩ := h
  exact ⟨earlier, start, later ++ more, by rw [List.append_assoc, List.cons_append], hbegins, ht⟩

/-- After some events, request `k` is the one that the handler of the frame has made, and
    it has taken an attempt. -/
structure Awaits (r : Receipt B frame) (payload : InitPayload) (events : List HostEvent)
    (k : Nat) (t : Handle) : Prop where
  takes : r.Takes payload events t
  bound : (r.after events).phase.Bound k payload t

/-- Once it has begun, a handler awaits the newest request. -/
theorem Begins.awaits (h : r.Begins payload events start) :
    ∃ t, r.Awaits payload (events ++ [.poll start]) (r.after events).phase.requests.length t := by
  obtain ⟨id, here, hafter⟩ := h.step
  refine ⟨_, ⟨events, start, [], rfl, h, rfl⟩, ?_⟩
  rw [hafter]
  exact Phase.bound_request _ payload

/-- It awaits that request ever after. -/
theorem Awaits.concat {k : Nat} (h : r.Awaits payload events k t) (event : HostEvent) :
    r.Awaits payload (events ++ [event]) k t := by
  refine ⟨h.takes.append [event], ?_⟩
  rw [r.after_concat]
  exact h.bound.driven (Host.move_step B _ event).driven

/-- The handler of an `init` in flight has not begun, or it awaits its request. -/
theorem awaits (r : Receipt B frame) (hm : Message.ofFrame frame = .ok ⟨m.id, .init payload⟩)
    (hf : r.fate events = .inFlight place) :
    (r.after events).handlers[place]? = some ⟨m.id, .begin payload⟩
    ∨ ∃ k t, (r.after events).handlers[place]? = some ⟨m.id, .await k⟩
        ∧ r.Awaits payload events k t := by
  refine (r.init_inFlight hm (P := fun events k => ∃ t, r.Awaits payload events k t)
    (fun _ _ hbegins => hbegins.awaits) ?_ hf).imp_right ?_
  · rintro events event k ⟨t, h⟩
    exact ⟨t, h.concat event⟩
  · rintro ⟨k, here, t, h⟩
    exact ⟨k, t, here, h⟩

/-- How the request of an `init` ends, with the attempt that it has taken: refused as the
    attempt has failed, or put through. -/
inductive Concludes (r : Receipt B frame) (id : UInt64) (events : List HostEvent) (t : Handle) :
    Reply → Prop
  | refused {error} (failed : (r.after events).phase.loader.outcome? t = some (.error error)) :
      Concludes r id events t (.failure id .loadFailed error.message)
  | through {handle readiness}
      (loaded : (r.after events).phase.loader.outcome? t = some (.ok handle))
      (raised : readiness ≠ .idle) (reached : readiness ≤ (r.after events).phase.readiness) :
      Concludes r id events t (.ok id (InitOutcome.ofReadiness readiness).toJson)

/-- **AN `init` ENDS AS ITS ATTEMPT**: its reply tells how the attempt has ended that its
    request has taken. -/
theorem concludes (r : Receipt B frame)
    (hm : Message.ofFrame frame = .ok ⟨m.id, .init payload⟩)
    (hf : r.fate events = .inFlight place) {reply : Reply}
    (hreply : (r.after events).reply? B (.poll place) = some reply) :
    ∃ t, r.Takes payload events t ∧ r.Concludes m.id events t reply := by
  rcases r.awaits hm hf with here | ⟨k, t, here, hawaits⟩
  · -- the first step of the handler gives no reply
    have hstep := Host.step_poll_begin B (r.runs here) here
    have hsilent : ((r.after events).step B (.poll place)).outbox = (r.after events).outbox := by
      rw [hstep]
    have hnone := Host.reply?_of_silent hsilent
    exact nomatch hnone.symm.trans hreply
  · obtain ⟨request, result, hrequest, hresult, rfl⟩ := Host.reply?_await here hreply
    obtain ⟨request', hrequest', hasks, hfollows⟩ := hawaits.bound
    obtain rfl := Option.some.inj (hrequest.symm.trans hrequest')
    refine ⟨t, hawaits.takes, ?_⟩
    obtain ⟨version, sources, stage⟩ := request
    cases hfollows with
    | waiting => exact nomatch hresult
    | refused failed =>
        obtain rfl := Option.some.inj hresult
        exact .refused failed
    | through loaded raised reached =>
        obtain rfl := Option.some.inj hresult
        exact .through loaded raised reached

end Receipt
end PhaseHost
