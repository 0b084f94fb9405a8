import PhaseHost.Proofs.Host.Requests

/-! # Who waits for whom

    Work is suspended in three tables: a handler awaits a request of the controller, a
    request waits for the attempt that loads its reader, and the load of an engine for
    the attempt that loads the engine.

    `Host.Linked` says that the three hang together:

    * who waits for an attempt waits for one of its own key;
    * an attempt that has not ended is waited for, so the loader works for nobody who has
      gone away;
    * a request that waits is awaited by a handler.

    An attempt is made together with the one who waits for it, and that one goes on only
    when the attempt has ended.  This is why every event keeps the links. -/

namespace PhaseHost

variable {σ κ : Type}

namespace Loader

variable {B : Backend σ κ} {l l' : Loader σ κ} {key : CacheKey} {t : Handle}

/-! ## Calls -/

/-- The attempts of two loaders have come equally far. -/
structure Alike (l l' : Loader σ κ) : Prop where
  progress : ∀ n : Handle,
    (l'.attempts[n]?).map Attempt.progress = (l.attempts[n]?).map Attempt.progress
  inFlight : l'.inFlight = l.inFlight
  fetches : l'.fetches = l.fetches

theorem Alike.symm (h : Alike l l') : Alike l' l :=
  ⟨fun n => (h.progress n).symm, h.inFlight.symm, h.fetches.symm⟩

/-- A call changes at most what an attempt has made. -/
theorem alike_replaceProduct (l : Loader σ κ) (handle : Handle) (c : κ) :
    Alike l (l.replaceProduct handle c) := by
  refine ⟨fun n => ?_, rfl, rfl⟩
  have hsame : (l.replaceProduct handle c).attempts.map Attempt.progress
      = l.attempts.map Attempt.progress :=
    map_modify_eq (fun a : Attempt κ => { a with product := some c }) (fun _ => rfl) ..
  rw [← List.getElem?_map, ← List.getElem?_map, hsame]

/-- An attempt of the one has its like in the other. -/
theorem Alike.here (h : Alike l l') {n : Handle} {a : Attempt κ} (ha : l.attempts[n]? = some a) :
    ∃ a', l'.attempts[n]? = some a' ∧ a'.variant = a.variant ∧ a'.stage = a.stage := by
  have hn := h.progress n
  rw [ha] at hn
  obtain ⟨a', ha', hprogress⟩ := Option.map_eq_some_iff.mp hn
  exact ⟨a', ha', congrArg Prod.fst hprogress, congrArg (fun x => x.2.2) hprogress⟩

/-- What has not ended in the one has not ended in the other. -/
theorem Alike.unsettled (h : Alike l l') (ht : l.Unsettled key t) : l'.Unsettled key t := by
  obtain ⟨a, ha, hkey, hout⟩ := ht
  obtain ⟨a', ha', hvariant, hstage⟩ := h.here ha
  refine ⟨a', ha', hvariant ▸ hkey, ?_⟩
  simp only [Attempt.outcome?] at hout ⊢
  rw [hstage]
  exact hout

/-- The table of attempts in flight is a matter of how far they have come. -/
theorem Flight.alike (hl : l.Flight) (h : Alike l l') : l'.Flight where
  keyed := h.inFlight ▸ hl.keyed
  listed key n := by
    rw [h.inFlight, hl.listed]
    exact ⟨h.unsettled, h.symm.unsettled⟩
  once := h.fetches ▸ hl.once
  started n hn := by
    obtain ⟨a, ha, hafter⟩ := hl.started n (h.fetches ▸ hn)
    obtain ⟨a', ha', -, hstage⟩ := h.here ha
    exact ⟨a', ha', hstage ▸ hafter⟩
  noted n a' ha' hfetching := by
    obtain ⟨a, ha, -, hstage⟩ := h.symm.here ha'
    rw [h.fetches]
    exact hl.noted n a ha (hstage ▸ hfetching)

end Loader

namespace Phase

variable {B : Backend σ κ} {p q : Phase σ κ} {event : PhaseEvent} {key : CacheKey} {t : Handle}

/-! ## What is kept -/

/-- Who waits is linked to the attempts: each to one of its own key, and each attempt that
    has not ended to somebody. -/
structure Linked (p : Phase σ κ) : Prop where
  flight : p.loader.Flight
  own : ∀ key t, p.Waits key t → p.loader.key? t = some key
  carried : ∀ key t, p.loader.Unsettled key t → p.Waits key t

/-- Where nobody waits all are linked. -/
theorem linked_empty (store : σ) : (empty store : Phase σ κ).Linked where
  flight := Loader.flight_empty store
  own key t h := by
    cases h with
    | request waits => exact nomatch waits
    | engine waits => exact nomatch waits
  carried key t h := by
    obtain ⟨a, ha, -⟩ := h
    exact nomatch ha

/-- Whatever a host does to its controller leaves the table of attempts right. -/
theorem Driven.flight (hd : Driven B p q) (hp : p.loader.Flight) : q.loader.Flight := by
  cases hd with
  | rest => exact hp
  | request version sources => exact hp.load _ _
  | @call handle c made id action => exact hp.alike (Loader.alike_replaceProduct ..)
  | step event => exact (move_step B p event).flight hp

/-- Who waits for an attempt that has not ended waits on. -/
theorem Driven.waits_on (hd : Driven B p q) (h : p.Waits key t)
    (hout : p.loader.outcome? t = none) : q.Waits key t := by
  cases h with
  | request waits =>
      obtain ⟨r', here', hgoes⟩ := hd.request_goes waits
      cases hgoes with
      | stays => exact .request here'
      | through loaded raised => exact nomatch hout.symm.trans loaded
      | refused failed => exact nomatch hout.symm.trans failed
  | engine waits =>
      cases hd with
      | rest => exact .engine waits
      | request version sources => exact .engine waits
      | call made id action => exact .engine waits
      | step event => exact .engine ((move_step B p event).engine_on waits hout)

/-- Who waits has waited before, or has just asked for an attempt of the key. -/
theorem Driven.waits_from (hd : Driven B p q) (hp : p.loader.Flight) (h : q.Waits key t) :
    p.Waits key t ∨ q.loader.key? t = some key := by
  cases h with
  | @request n version sources _ waits =>
      cases hd with
      | rest => exact Or.inl (.request waits)
      | call made id action => exact Or.inl (.request waits)
      | request own sources' =>
          rcases (move_step B p (.request own sources')).request_from waits with hold | ⟨heq, rfl⟩
          · exact Or.inl (.request hold)
          · obtain ⟨rfl, rfl⟩ := PhaseEvent.request.inj heq
            exact Or.inr (hp.key?_load _ _)
      | step event =>
          rcases (move_step B p event).request_from waits with hold | ⟨rfl, rfl⟩
          · exact Or.inl (.request hold)
          · exact Or.inr (hp.key?_load _ _)
  | @engine n version location request _ waits =>
      cases hd with
      | rest => exact Or.inl (.engine waits)
      | request own sources => exact Or.inl (.engine waits)
      | call made id action => exact Or.inl (.engine waits)
      | step event => exact ((move_step B p event).engine_from hp waits).imp_left .engine

/-- An attempt that has not ended had not ended before, or is waited for from the beginning. -/
theorem Driven.unsettled_from (hd : Driven B p q) (hp : p.loader.Flight)
    (h : q.loader.Unsettled key t) : p.loader.Unsettled key t ∨ q.Waits key t := by
  have hrequest : ∀ (version : String) (sources : ModuleSources),
      (p.request version sources).loader.Unsettled key t →
      p.loader.Unsettled key t ∨ (p.request version sources).Waits key t := by
    intro version sources hun
    refine (hp.unsettled_load hun).imp_right ?_
    rintro ⟨rfl, rfl⟩
    exact .request List.getElem?_concat_length
  cases hd with
  | rest => exact Or.inl h
  | request version sources => exact hrequest version sources h
  | call made id action => exact Or.inl ((Loader.alike_replaceProduct ..).symm.unsettled h)
  | step event =>
      have hmove := move_step B p event
      generalize p.step B event = q at hmove h
      cases hmove with
      | request version sources => exact hrequest version sources h
      | @begin n version location request ready =>
          refine (hp.unsettled_load h).imp_right ?_
          rintro ⟨rfl, rfl⟩
          refine @Waits.engine _ _ _ n version location request _ ?_
          rw [moveEngine_engineLoads, if_pos rfl]
          exact congrArg (Option.map _) ready
      | load event => exact Or.inl (Loader.unsettled_of_step h)
      | commit there loaded => rw [commit_loader] at h; exact Or.inl h
      | stay idle => exact Or.inl h
      | refuse there failed => exact Or.inl h
      | install there loaded wanted => exact Or.inl h
      | drop there loaded unwanted => exact Or.inl h
      | fail there failed => exact Or.inl h

/-- Whatever a host does to its controller leaves the waiting linked. -/
theorem Driven.linked (hd : Driven B p q) (h : p.Linked) : q.Linked where
  flight := hd.flight h.flight
  own key t hwaits := by
    rcases hd.waits_from h.flight hwaits with hbefore | hnew
    · obtain ⟨a, ha, rfl⟩ := Option.map_eq_some_iff.mp (h.own key t hbefore)
      obtain ⟨a', ha', hkeeps⟩ := hd.keeps ha
      exact Option.map_eq_some_iff.mpr ⟨a', ha', hkeeps.variant ▸ rfl⟩
    · exact hnew
  carried key t hun := by
    rcases hd.unsettled_from h.flight hun with hbefore | hnew
    · exact hd.waits_on (h.carried key t hbefore) (Loader.outcome?_of_unsettled hbefore)
    · exact hnew

end Phase

namespace Host

variable {B : Backend σ κ} {h h' : Host σ κ} {event : HostEvent}

/-! ## Awaiting requests -/

/-- A handler in flight awaits a request. -/
def Awaited (h : Host σ κ) (k : Nat) : Prop :=
  ∃ (n : Nat) (id : UInt64), h.handlers[n]? = some ⟨id, .await k⟩

/-- The three tables hang together. -/
structure Linked (h : Host σ κ) : Prop where
  phase : h.phase.Linked
  awaited : ∀ k version sources t,
    h.phase.requests[k]? = some ⟨version, sources, .waiting t⟩ → h.Awaited k

/-- A request that waits after a move has waited before, or its handler has just made it. -/
theorem Move.request_from (hmove : Move B h event h')
    (hno : ∀ version sources, event ≠ .background (.request version sources)) {k : Nat}
    {version : String} {sources : ModuleSources} {t : Handle}
    (waits : h'.phase.requests[k]? = some ⟨version, sources, .waiting t⟩) :
    h.phase.requests[k]? = some ⟨version, sources, .waiting t⟩ ∨ h'.Awaited k := by
  cases hmove with
  | @begin n id payload runs here =>
      refine (getElem?_concat_iff.mp waits).imp_right ?_
      rintro ⟨rfl, -⟩
      exact ⟨n, id, List.getElem?_set_self (List.getElem?_eq_some_iff.mp here).1⟩
  | background event =>
      refine ((Phase.move_step B h.phase event).request_from waits).imp_right ?_
      rintro ⟨rfl, -⟩
      exact absurd rfl (hno version sources)
  | stay unadmitted untaken => exact Or.inl waits
  | deliver takes => exact Or.inl waits
  | close => exact Or.inl waits
  | receive listens next => exact Or.inl waits
  | hangUp dry closed => exact Or.inl waits
  | refuse runs here => exact Or.inl waits
  | serve runs here made => exact Or.inl waits
  | answer runs here ended => exact Or.inl waits
  | stop done => exact Or.inl waits

/-- A handler awaits its request until the request has ended. -/
theorem Awaited.step {k : Nat} (ha : h.Awaited k) {version : String} {sources : ModuleSources}
    {t : Handle} (waits : h.phase.requests[k]? = some ⟨version, sources, .waiting t⟩)
    (event : HostEvent) : (h.step B event).Awaited k := by
  obtain ⟨n, id, here⟩ := ha
  cases hfollow : h.follow B n event with
  | inFlight m => exact ⟨m, id, follow_inFlight here (fun _ => nofun) hfollow⟩
  | ended reply =>
      obtain ⟨rfl, hreply⟩ := follow_ended hfollow
      obtain ⟨request, result, hrequest, hresult, -⟩ := reply?_await here hreply
      obtain rfl := Option.some.inj (waits.symm.trans hrequest)
      exact nomatch hresult

/-- One event of a host keeps its tables together. -/
theorem Linked.step (hl : h.Linked) (B : Backend σ κ) (event : HostEvent) :
    (h.step B event).Linked := by
  refine ⟨(move_step B h event).driven.linked hl.phase, ?_⟩
  intro k version sources t waits
  by_cases hno : ∀ version sources, event ≠ .background (.request version sources)
  · rcases (move_step B h event).request_from hno waits with hold | hnew
    · exact (hl.awaited k version sources t hold).step hold event
    · exact hnew
  · -- a host takes requests from its handlers only
    obtain ⟨own, hown⟩ := not_forall.mp hno
    obtain ⟨sources', heq⟩ := not_forall_not.mp hown
    subst heq
    exact hl.awaited k version sources t waits

/-- The tables of a host hang together all along. -/
theorem linked_run (B : Backend σ κ) (store : σ) (events : List HostEvent) :
    ((empty store : Host σ κ).run B events).Linked := by
  induction events using List.reverseRecOn with
  | nil => exact ⟨Phase.linked_empty store, fun _ _ _ _ waits => nomatch waits⟩
  | append_singleton events event ih =>
      rw [run_concat]
      exact ih.step B event

end Host
end PhaseHost
