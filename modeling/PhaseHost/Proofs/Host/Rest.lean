import PhaseHost.Proofs.Host.Causes
import PhaseHost.Proofs.Host.Waiting
import PhaseHost.Proofs.Phase.Wanted

/-! # A host at rest

    A host RESTS when nothing that can happen by itself makes a difference to it.  What
    the outside holds back does not count: whether a fetch is held is told by a predicate
    on attempts, and of the others it is known that they could end.

    Whatever is not waiting for a fetch can go on, and going on always shows
    (`Loader.look_moves` and the like, and a poll that gives a reply).  So at rest every
    wait ends, by the links of `Host.Linked`, at an attempt that is blocked in a fetch. -/

namespace PhaseHost

variable {σ κ : Type}

namespace Loader

variable {B : Backend σ κ} {l : Loader σ κ} {n : Handle} {key : CacheKey}

/-- An attempt for a key is BLOCKED: it waits for a fetch that is held back. -/
structure Blocked (held : Handle → Prop) (l : Loader σ κ) (key : CacheKey) (n : Handle) : Prop where
  key?_eq : l.key? n = some key
  stage?_eq : l.stage? n = some .fetching
  held : held n

theorem Blocked.unsettled {held : Handle → Prop} (hb : l.Blocked held key n) :
    l.Unsettled key n := by
  obtain ⟨a, ha, hkey⟩ := Option.map_eq_some_iff.mp hb.key?_eq
  have hstage := hb.stage?_eq
  rw [stage?_of_here ha] at hstage
  refine ⟨a, ha, hkey, ?_⟩
  simp only [Attempt.outcome?, Option.some.inj hstage]

end Loader

namespace Phase

variable {p : Phase σ κ} {n : Nat} {version location : String} {t : Handle}

/-! ## Who waits can go on once the attempt has ended -/

theorem resume_moves {sources : ModuleSources} {outcome : Except LoadError Handle}
    (waits : p.requests[n]? = some ⟨version, sources, .waiting t⟩)
    (ended : p.loader.outcome? t = some outcome) : p.resume n ≠ p := by
  have hdone : ∃ result, ((p.resume n).requests[n]?).map Request.stage = some (.done result) := by
    simp only [resume, waits, ended]
    cases outcome with
    | ok handle =>
        refine ⟨.ok (p.readiness.advance .readerOnly), ?_⟩
        dsimp only
        rw [commit_requests, List.getElem?_modify_eq, waits]
        rfl
    | error e =>
        refine ⟨.error e, ?_⟩
        show ((p.requests.modify n _)[n]?).map Request.stage = _
        rw [List.getElem?_modify_eq, waits]
        rfl
  obtain ⟨result, hdone⟩ := hdone
  intro heq
  rw [heq, waits] at hdone
  cases Option.some.inj hdone

/-- The load of an engine that is moved to another stage is not where it was. -/
theorem ne_of_moveEngine {p₀ : Phase σ κ} {stage stage' : EngineStage}
    (here : p.engineStage? n = some stage) (hne : stage' ≠ stage) :
    p₀.moveEngine n stage' ≠ p := by
  rintro rfl
  rw [engineStage?_moveEngine, if_pos rfl] at here
  obtain ⟨_, -, heq⟩ := Option.map_eq_some_iff.mp here
  exact hne heq

theorem startEngine_moves {request : Nat}
    (ready : p.engineLoads[n]? = some ⟨version, location, request, .ready⟩) :
    p.startEngine n ≠ p := by
  simp only [startEngine, ready]
  exact ne_of_moveEngine (congrArg (Option.map EngineLoad.stage) ready) (by rintro ⟨⟩)

theorem resumeEngine_moves {request : Nat} {outcome : Except LoadError Handle}
    (waits : p.engineLoads[n]? = some ⟨version, location, request, .waiting t⟩)
    (ended : p.loader.outcome? t = some outcome) : p.resumeEngine n ≠ p := by
  have here : p.engineStage? n = some (.waiting t) :=
    congrArg (Option.map EngineLoad.stage) waits
  simp only [resumeEngine, waits, ended]
  cases outcome with
  | error e => exact ne_of_moveEngine here (by rintro ⟨⟩)
  | ok handle =>
      simp only [install]
      split
      · exact ne_of_moveEngine here (by rintro ⟨⟩)
      · exact ne_of_moveEngine here (by rintro ⟨⟩)

end Phase

namespace Host

variable {B : Backend σ κ} {h : Host σ κ} {held : Handle → Prop} {key : CacheKey} {t : Handle}

/-! ## What rests -/

/-- A host RESTS: nothing that can happen by itself makes a difference to it, where an
    attempt's fetch can end, in one way at least, unless it is held. -/
structure Rests (B : Backend σ κ) (held : Handle → Prop) (h : Host σ κ) : Prop where
  receive : h.step B .receive = h
  poll : ∀ n, h.step B (.poll n) = h
  stop : h.step B .stop = h
  background : ∀ event, (∀ n result, event ≠ .load (.fetched n result)) →
    h.step B (.background event) = h
  fetched : ∀ n, n < h.phase.loader.attempts.length → ¬ held n →
    ∃ result, h.step B (.background (.load (.fetched n result))) = h

/-- A poll at rest gives no reply. -/
theorem Rests.silent (hr : h.Rests B held) (n : Nat) : h.reply? B (.poll n) = none :=
  reply?_of_silent (congrArg outbox (hr.poll n))

/-- At rest, an attempt that has not ended is blocked. -/
theorem Rests.blocked (hr : h.Rests B held) (hun : h.phase.loader.Unsettled key t) :
    h.phase.loader.Blocked held key t := by
  obtain ⟨a, ha, rfl, hout⟩ := hun
  have here := Loader.stage?_of_here ha
  have hstill : ∀ event : LoaderEvent, (∀ n result, event ≠ .fetched n result) →
      h.phase.loader.step B event = h.phase.loader := by
    intro event hno
    have hsame := hr.background (.load event)
      (fun n result heq => hno n result (PhaseEvent.load.inj heq))
    exact congrArg (fun h : Host σ κ => h.phase.loader) hsame
  have hfetching : a.stage = .fetching := by
    cases hstage : a.stage with
    | fetching => rfl
    | looking =>
        rw [hstage] at here
        exact absurd (hstill (.look t) (fun _ _ heq => by cases heq)) (Loader.look_moves here)
    | trying bytes =>
        rw [hstage] at here
        exact absurd (hstill (.make t) (fun _ _ heq => by cases heq))
          (Loader.make_moves_trying here)
    | making bytes =>
        rw [hstage] at here
        exact absurd (hstill (.make t) (fun _ _ heq => by cases heq))
          (Loader.make_moves_making here)
    | keeping bytes =>
        rw [hstage] at here
        exact absurd (hstill (.keep t) (fun _ _ heq => by cases heq)) (Loader.keep_moves here)
    | settled outcome =>
        simp only [Attempt.outcome?, hstage] at hout
        cases hout
  rw [hfetching] at here
  refine ⟨congrArg (Option.map _) ha, here, ?_⟩
  by_contra hfree
  obtain ⟨result, hsame⟩ := hr.fetched t (List.getElem?_eq_some_iff.mp ha).1 hfree
  exact Loader.fetched_moves here result (congrArg (fun h : Host σ κ => h.phase.loader) hsame)

/-- At rest, what is waited for is blocked. -/
theorem Rests.waits_blocked (hr : h.Rests B held) (hl : h.Linked) (hw : h.phase.Waits key t) :
    h.phase.loader.Blocked held key t := by
  have hout : h.phase.loader.outcome? t = none := by
    cases hout : h.phase.loader.outcome? t with
    | none => rfl
    | some outcome =>
        cases hw with
        | @request n _ _ _ waits =>
            have hsame := hr.background (.resume n) (fun _ _ => nofun)
            exact absurd (congrArg Host.phase hsame) (Phase.resume_moves waits hout)
        | @engine n _ _ _ _ waits =>
            have hsame := hr.background (.resumeEngine n) (fun _ _ => nofun)
            exact absurd (congrArg Host.phase hsame) (Phase.resumeEngine_moves waits hout)
  exact hr.blocked (Loader.unsettled_of_key? (hl.phase.own key t hw) hout)

/-- At rest, the load of an engine has ended, or it waits. -/
theorem Rests.engine (hr : h.Rests B held) {n : Nat} {e : EngineLoad}
    (here : h.phase.engineLoads[n]? = some e) :
    e.stage.isOver = true ∨ ∃ t, h.phase.Waits (Variant.key ⟨.engine, e.version⟩) t := by
  obtain ⟨version, location, request, stage⟩ := e
  cases stage with
  | ready =>
      have hsame := hr.background (.startEngine n) (fun _ _ => nofun)
      exact absurd (congrArg Host.phase hsame) (Phase.startEngine_moves here)
  | waiting t => exact Or.inr ⟨t, .engine here⟩
  | installed => exact Or.inl rfl
  | dropped => exact Or.inl rfl
  | failed error => exact Or.inl rfl

/-- At rest, everything that was delivered has been received. -/
theorem Rests.inbox (hr : h.Rests B held) (hw : h.Winding) : h.inbox = [] := by
  cases hlistens : h.listening with
  | false => exact (hw.heard hlistens).2
  | true =>
      have hsame := congrArg Host.inbox hr.receive
      rw [hw.step_receive, if_pos hlistens] at hsame
      cases hinbox : h.inbox with
      | nil => rfl
      | cons frame rest =>
          simp only [Host.receive, hinbox] at hsame
          exact absurd hsame.symm (List.cons_ne_self frame rest)

/-- At rest, a host whose inbox is closed and that has nothing left to do has stopped. -/
theorem Rests.stopped (hr : h.Rests B held) (hw : h.Winding) (hclosed : h.accepting = false)
    (hidle : h.handlers = []) : h.stopped = true := by
  have hdeaf : h.listening = false := by
    by_contra hlistens
    have hlistens := eq_true_of_ne_false hlistens
    have hsame := congrArg Host.listening hr.receive
    rw [hw.step_receive, if_pos hlistens] at hsame
    simp only [Host.receive, hr.inbox hw] at hsame
    rw [if_neg (Bool.eq_false_iff.mp hclosed), hlistens] at hsame
    cases hsame
  have hdone : h.isDone = true := by
    simp only [isDone, hdeaf, hidle]
    rfl
  have hsame : (if h.isDone then { h with stopped := true } else h) = h := hr.stop
  rw [if_pos hdone] at hsame
  exact (congrArg Host.stopped hsame).symm

end Host

namespace Receipt

variable {B : Backend σ κ} {frame : Json} {r : Receipt B frame} {events : List HostEvent}
  {place : Nat} {held : Handle → Prop}

/-- **WHAT IS UNANSWERED AT REST** is an `init`, and the attempt that it has taken to load
    its reader is blocked. -/
theorem unanswered (r : Receipt B frame) {id : UInt64} (hid : Message.idOf frame = some id)
    (hf : r.fate events = .inFlight place) (hr : (r.after events).Rests B held) :
    ∃ payload t, Message.ofFrame frame = .ok ⟨id, .init payload⟩ ∧ r.Takes payload events t
      ∧ (r.after events).phase.loader.Blocked held
          (Variant.key ⟨.reader, payload.version⟩) t := by
  have hl : (r.after events).Linked := r.after_eq events ▸ Host.linked_run B r.store _
  have hinit : ∃ payload, Message.ofFrame frame = .ok ⟨id, .init payload⟩ := by
    by_contra hno
    obtain ⟨reply, hreply⟩ := r.replies_when_polled hid (not_exists.mp hno) hf
    exact nomatch (hr.silent place).symm.trans hreply
  obtain ⟨payload, hm⟩ := hinit
  rcases r.awaits (m := ⟨id, .init payload⟩) hm hf with here | ⟨k, t, here, hawaits⟩
  · -- a handler that has not begun can begin
    have hstep := Host.step_poll_begin B (r.runs here) here
    rw [hr.poll place] at hstep
    have hset := congrArg (fun h : Host σ κ => h.handlers[place]?) hstep
    dsimp only at hset
    rw [List.getElem?_set_self (List.getElem?_eq_some_iff.mp here).1, here] at hset
    exact nomatch congrArg Handler.work (Option.some.inj hset)
  · refine ⟨payload, t, hm, hawaits.takes, ?_⟩
    obtain ⟨⟨version, sources, stage⟩, hrequest, ⟨hversion, -⟩, hfollows⟩ := hawaits.bound
    have hwaits : stage = .waiting t := by
      cases stage with
      | waiting t' => cases hfollows; rfl
      | done result =>
          have hreply := Host.reply?_of_ended (B := B) (r.runs here) here
            (show _ = some result by rw [hrequest]; rfl)
          exact nomatch (hr.silent place).symm.trans hreply
    subst hwaits
    obtain rfl : version = payload.version := hversion
    exact hr.waits_blocked hl (.request hrequest)

end Receipt

namespace Host

variable {B : Backend σ κ} {held : Handle → Prop}

/-- At rest with nothing blocked, no handler is in flight. -/
theorem handlers_of_rests (B : Backend σ κ) (store : σ) (events : List HostEvent)
    (hr : ((empty store).run B events).Rests B held)
    (hfree : ∀ key t, ¬ ((empty store).run B events).phase.loader.Blocked held key t) :
    ((empty store).run B events).handlers = [] := by
  rw [List.eq_nil_iff_forall_not_mem]
  intro handler hmem
  obtain ⟨n, here⟩ := List.mem_iff_getElem?.mp hmem
  obtain ⟨frame, r, more, rfl, rfl, hf, hid⟩ := handler_origin B store events here
  rw [← r.after_eq] at hr hfree
  obtain ⟨payload, t, -, -, hblocked⟩ := r.unanswered hid hf hr
  exact hfree _ t hblocked

end Host
end PhaseHost
