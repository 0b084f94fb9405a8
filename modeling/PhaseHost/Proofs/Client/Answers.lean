import PhaseHost.Proofs.Client.Ledger

/-! # Which reply settles which call

    Whatever comes in on the reply channel, a call is settled by the one reply that
    carried its number while the number was listed.  The two directions are kept
    apart.

    * An answer is HEEDED: the call under its number has its outcome, or would have
      it if its caller had waited and its frame could be handed over.
    * An outcome is OWED to an answer, or to a channel that is gone.

    Requests are counted on the way: the host gets every number at most once. -/

namespace PhaseHost.Client

variable {c c' : Client} {event : ClientEvent} {note : Option ClientNote} {n : Nat}
  {call call' : ClientCall} {id : UInt64}

/-! ## Requests -/

/-- The frames that were sent are those of the requests, and each is the request of a call. -/
structure Handed (c : Client) (requests : List Message) : Prop where
  sent : c.sent = requests.map Message.toFrame
  reached : ∀ m ∈ requests, c.Reached m 3

/-- A frame is sent for a call that is in the table, and for nobody else. -/
theorem Move.sends (hmove : Move c event note c') :
    (note.bind ClientNote.request? = none ∧ c'.sent = c.sent)
    ∨ ∃ (n : Nat) (action : Action) (id : UInt64) (early : Option Outcome),
        c.calls[n]? = some ⟨action, some id, .parked early⟩
        ∧ note.bind ClientNote.request? = some ⟨id, action⟩
        ∧ c'.sent = c.sent ++ [Message.toFrame ⟨id, action⟩]
        ∧ c'.Reached ⟨id, action⟩ 3 := by
  cases hmove with
  | @hand n action id here listens =>
      have hn : n < c.calls.length := (List.getElem?_eq_some_iff.mp here).1
      exact Or.inr ⟨n, action, id, none, here, rfl, rfl,
        n, _, List.getElem?_set_self hn, rfl, rfl, Nat.le_refl 3⟩
  | @handTold n action id outcome here listens =>
      have hn : n < c.calls.length := (List.getElem?_eq_some_iff.mp here).1
      exact Or.inr ⟨n, action, id, some outcome, here, rfl, rfl,
        n, _, List.getElem?_set_self hn, rfl, rfl, Nat.le_refl 3⟩
  | enlist here unshut =>
      refine Or.inl ⟨rfl, ?_⟩
      show (c.release _ _).sent = _
      rw [release_rest]
  | miss here gone =>
      refine Or.inl ⟨rfl, ?_⟩
      show (c.release _ _).sent = _
      rw [release_rest]
  | answer oldest answers =>
      refine Or.inl ⟨rfl, ?_⟩
      rw [release_rest]
  | stay => exact Or.inl ⟨rfl, rfl⟩
  | call action => exact Or.inl ⟨rfl, rfl⟩
  | take fresh => exact Or.inl ⟨rfl, rfl⟩
  | turnAway here shut => exact Or.inl ⟨rfl, rfl⟩
  | abandon here waits => exact Or.inl ⟨rfl, rfl⟩
  | arrive comes => exact Or.inl ⟨rfl, rfl⟩
  | pass oldest unanswered => exact Or.inl ⟨rfl, rfl⟩
  | closeReplies => exact Or.inl ⟨rfl, rfl⟩
  | drain closing dry unshut => exact Or.inl ⟨rfl, rfl⟩
  | hangUp => exact Or.inl ⟨rfl, rfl⟩

/-- One move keeps frames and requests in step. -/
theorem Handed.move {requests : List Message} (h : c.Handed requests) (hsound : c.Sound)
    (hmove : Move c event note c') :
    c'.Handed (requests ++ (note.bind ClientNote.request?).toList) := by
  have hold : ∀ m ∈ requests, c'.Reached m 3 := by
    intro m hm
    exact (h.reached m hm).move hsound hmove
  rcases hmove.sends with ⟨hnote, hsent⟩ | ⟨n, action, id, early, here, hnote, hsent, hnew⟩
  · rw [hnote, Option.toList_none, List.append_nil]
    exact ⟨hsent.trans h.sent, hold⟩
  · rw [hnote, Option.toList_some]
    refine ⟨?_, ?_⟩
    · rw [hsent, h.sent, List.map_append, List.map_singleton]
    · intro m hm
      rcases List.mem_append.mp hm with hm | hm
      · exact hold m hm
      · obtain rfl := List.mem_singleton.mp hm
        exact hnew

/-- What was sent is what was noted of requests. -/
theorem handed_run (events : List ClientEvent) :
    (empty.run events).Handed (empty.requests events) := by
  induction events using List.reverseRecOn with
  | nil => exact ⟨rfl, nofun⟩
  | append_singleton events event ih =>
      rw [requests, filterMap_log_concat, run_concat]
      exact ih.move (sound_run events) (move_step _ event)

/-- No two requests have the same number. -/
theorem requests_nodup {events : List ClientEvent}
    (few : (empty.run events).calls.length < 2 ^ 64) :
    ((empty.requests events).map Message.id).Nodup := by
  induction events using List.reverseRecOn with
  | nil => exact List.nodup_nil
  | append_singleton events event ih =>
      have few' := few_of_concat few
      rw [requests, filterMap_log_concat, List.map_append]
      refine (ih few').append ?_ ?_
      · cases ((empty.run events).note? event).bind ClientNote.request? with
        | none => exact List.nodup_nil
        | some m => exact List.nodup_singleton m.id
      · intro id hold hnew
        rcases (move_step (empty.run events) event).sends with
          ⟨hnote, -⟩ | ⟨n, action, id', early, here, hnote, -, -⟩
        · rw [hnote] at hnew
          exact nomatch hnew
        · -- the call that hands its frame over has not handed one over before
          rw [hnote] at hnew
          obtain rfl : id = id' := List.mem_singleton.mp hnew
          obtain ⟨m, hm, hid⟩ := List.mem_map.mp hold
          have hreached := (handed_run events).reached m hm
          exact hreached.lt_of_ne (ids_nodup few') here (Nat.lt_succ_self 2)
            (congrArg some hid.symm)

/-! ## Outcomes -/

/-- A call has an outcome, or it would if its caller had waited and its frame could
    be handed over. -/
def Heeds (c : Client) (call : ClientCall) (outcome : Outcome) : Prop :=
  call.stage = .settled outcome ∨ call.stage = .parked (some outcome)
    ∨ call.stage = .abandoned
    ∨ (c.hostListens = false ∧ call.stage = .settled (.error .disconnected))

/-- A call that was told an outcome heeds it. -/
theorem heeds_of_told? {outcome : Outcome} (h : call.stage.told? = some outcome) :
    c.Heeds call outcome := by
  obtain ⟨action, id, stage⟩ := call
  cases stage with
  | settled told =>
      obtain rfl : told = outcome := Option.some.inj h
      exact Or.inl rfl
  | parked early =>
      obtain rfl : early = some outcome := h
      exact Or.inr (Or.inl rfl)
  | fresh => exact nomatch h
  | numbered => exact nomatch h
  | waiting => exact nomatch h
  | abandoned => exact nomatch h

/-- What a call heeds it heeds for good. -/
theorem Heeds.goes {outcome : Outcome} (h : c.Heeds call outcome) (hmove : Move c event note c')
    (hgoes : Goes c note n call call') : c'.Heeds call' outcome := by
  have htold : call.stage.told? = some outcome → c'.Heeds call' outcome := by
    intro ht
    rcases hgoes.told ht with ht' | hs | ⟨hfalse, hs⟩
    · exact heeds_of_told? ht'
    · exact Or.inr (Or.inr (Or.inl hs))
    · exact Or.inr (Or.inr (Or.inr ⟨hmove.gone.2 hfalse, hs⟩))
  rcases h with hs | hs | hs | ⟨hfalse, hs⟩
  · exact htold (by rw [hs]; rfl)
  · exact htold (by rw [hs]; rfl)
  · rw [hgoes.abandoned hs]
    exact Or.inr (Or.inr (Or.inl hs))
  · have hout := hgoes.keeps.outcome _ (ClientCall.outcome?_eq_some_iff.mpr hs)
    exact Or.inr (Or.inr (Or.inr
      ⟨hmove.gone.2 hfalse, ClientCall.outcome?_eq_some_iff.mp hout⟩))

/-- Every answer is heeded by the call under its number. -/
def Heeded (c : Client) (answers : List Reply) : Prop :=
  ∀ r ∈ answers, ∃ (n : Nat) (call : ClientCall),
    c.calls[n]? = some call ∧ call.id = some r.id ∧ c.Heeds call r.outcome

/-- One move leaves no answer unheeded. -/
theorem Heeded.move {answers : List Reply} (h : c.Heeded answers) (hsound : c.Sound)
    (hmove : Move c event note c') :
    c'.Heeded (answers ++ (note.bind ClientNote.answer?).toList) := by
  intro r hr
  rcases List.mem_append.mp hr with hr | hr
  · obtain ⟨n, call, here, hid, hheeds⟩ := h r hr
    obtain ⟨call', here', hgoes⟩ := hmove.goes hsound here
    exact ⟨n, call', here', hgoes.keeps.id _ hid, hheeds.goes hmove hgoes⟩
  · cases hmove with
    | @answer frame rest r' oldest answers =>
        obtain rfl : r = r' := List.mem_singleton.mp hr
        obtain ⟨-, n, hmem⟩ := answerIn?_eq_some_iff.mp answers
        obtain ⟨call, here, hid, hstage⟩ := hsound.tabled.listed _ n hmem
        have htabled : Tabled ({ c with arrived := rest } : Client).calls
          ({ c with arrived := rest } : Client).pending := hsound.tabled
        have hreleased := released htabled r.id r.outcome
        refine ⟨n, _, hreleased.told n call here hmem, by rw [ClientCall.deliver_id, hid], ?_⟩
        rcases ClientCall.told?_deliver r.outcome hstage with htold | hs
        · exact heeds_of_told? htold
        · exact Or.inr (Or.inr (Or.inl hs))
    | stay => exact nomatch hr
    | call action => exact nomatch hr
    | take fresh => exact nomatch hr
    | turnAway here shut => exact nomatch hr
    | enlist here unshut => exact nomatch hr
    | hand here listens => exact nomatch hr
    | handTold here listens => exact nomatch hr
    | miss here gone => exact nomatch hr
    | abandon here waits => exact nomatch hr
    | arrive comes => exact nomatch hr
    | pass oldest unanswered => exact nomatch hr
    | closeReplies => exact nomatch hr
    | drain closing dry unshut => exact nomatch hr
    | hangUp => exact nomatch hr

/-- Every answer of a run is heeded by its call. -/
theorem heeded_run (events : List ClientEvent) :
    (empty.run events).Heeded (empty.answers events) := by
  induction events using List.reverseRecOn with
  | nil => exact nofun
  | append_singleton events event ih =>
      rw [answers, filterMap_log_concat, run_concat]
      exact ih.move (sound_run events) (move_step _ event)

/-- Every outcome is owed to the answer under the number of its call, or to a channel
    that is gone. -/
def Owed (c : Client) (answers : List Reply) : Prop :=
  ∀ (n : Nat) (call : ClientCall) (outcome : Outcome),
    c.calls[n]? = some call → call.stage.told? = some outcome →
    (∃ r ∈ answers, call.id = some r.id ∧ r.outcome = outcome)
    ∨ (outcome = .error .disconnected ∧ (c.repliesOpen = false ∨ c.hostListens = false))

/-- One move brings no outcome that is owed to nothing. -/
theorem Owed.move {answers : List Reply} (h : c.Owed answers) (hsound : c.Sound)
    (hids : (c.calls.filterMap ClientCall.id).Nodup) (hmove : Move c event note c') :
    c'.Owed (answers ++ (note.bind ClientNote.answer?).toList) := by
  intro n call' outcome here' htold
  rcases hmove.goes_from hsound here' with ⟨-, action, rfl⟩ | ⟨call, here, hgoes⟩
  · exact nomatch htold
  rcases hgoes.told_from htold with hold | ⟨frame, r, hnote, hid, rfl⟩ | ⟨rfl, hcause⟩
  · refine (h n call outcome here hold).imp ?_ (And.imp_right (Or.imp hmove.gone.1 hmove.gone.2))
    rintro ⟨r, hr, hid, hout⟩
    exact ⟨r, List.mem_append_left _ hr, hgoes.keeps.id _ hid, hout⟩
  · refine Or.inl ⟨r, List.mem_append_right _ ?_, hgoes.keeps.id _ hid, rfl⟩
    rw [hnote]
    exact List.mem_singleton_self r
  · refine Or.inr ⟨rfl, Or.imp hmove.gone.1 hmove.gone.2 ?_⟩
    rcases hcause with hshut | hclosing | hdeaf | ⟨m, other, id, hne, there, hother, hown⟩
    · exact Or.inl (hsound.shut hshut).2.1
    · exact Or.inl hclosing
    · exact Or.inr hdeaf
    · exact absurd (index_unique hids there here hother hown) hne

/-- Every outcome of a run is owed to an answer or to a channel that is gone. -/
theorem owed_run {events : List ClientEvent}
    (few : (empty.run events).calls.length < 2 ^ 64) :
    (empty.run events).Owed (empty.answers events) := by
  induction events using List.reverseRecOn with
  | nil =>
      intro n call outcome here
      exact nomatch here
  | append_singleton events event ih =>
      have few' := few_of_concat few
      rw [answers, filterMap_log_concat, run_concat]
      exact (ih few').move (sound_run events) (ids_nodup few') (move_step _ event)

/-! ## One reply -/

/-- A reply whose number is listed ends its own entry and settles its own call. -/
theorem settle_of_listed {frame : Json} {rest : List Json} {r : Reply}
    (h : c.Sound) (oldest : c.arrived = frame :: rest) (hr : Reply.ofJson frame = .ok r)
    (hmem : (r.id, n) ∈ c.pending) :
    c.step .settle = { c with
      arrived := rest
      calls := c.calls.modify n (ClientCall.deliver r.outcome)
      pending := c.pending.filter (fun p => p.1 ≠ r.id) } := by
  have hfind := h.tabled.keyed.find?_iff.mpr hmem
  show c.settle = _
  simp only [settle, oldest, hr, release, hfind]
  rfl

/-- Any other frame is dropped. -/
theorem settle_of_unlisted {frame : Json} {rest : List Json}
    (oldest : c.arrived = frame :: rest)
    (hno : ∀ r n, Reply.ofJson frame = .ok r → (r.id, n) ∉ c.pending) :
    c.step .settle = { c with arrived := rest } := by
  show c.settle = _
  simp only [settle, oldest]
  cases hr : Reply.ofJson frame with
  | error e => rfl
  | ok r =>
      have hfind := Keyed.find?_eq_none (fun n => hno r n hr)
      simp only [release, hfind]

/-- A call whose caller waits is listed exactly as long as it has no outcome. -/
theorem Sound.listed_iff (h : c.Sound) (here : c.calls[n]? = some call)
    (hid : call.id = some id) (waits : call.stage ≠ .abandoned) :
    (id, n) ∈ c.pending ↔ call.stage = .parked none ∨ call.stage = .waiting := by
  constructor
  · intro hmem
    have hstage := h.tabled.mayBeListed here hmem
    obtain ⟨action, id', stage⟩ := call
    cases stage with
    | parked early =>
        cases early with
        | none => exact Or.inl rfl
        | some outcome => exact nomatch hstage
    | waiting => exact Or.inr rfl
    | abandoned => exact absurd rfl waits
    | fresh => exact nomatch hstage
    | numbered => exact nomatch hstage
    | settled outcome => exact nomatch hstage
  · intro hstage
    have hopen : call.stage.isOpen = true := by
      rcases hstage with hs | hs <;> rw [hs] <;> rfl
    obtain ⟨id', hid', hmem⟩ := h.tabled.kept n call here hopen
    obtain rfl := Option.some.inj (hid.symm.trans hid')
    exact hmem

/-- As long as both channels are open, the table holds what was entered and not answered. -/
theorem Ledger.pending_iff {entries : List Message} {answers : List Reply}
    (h : c.Ledger entries answers) (hreplies : c.repliesOpen = true)
    (hlistens : c.hostListens = true) :
    id ∈ c.pending.map Prod.fst
      ↔ id ∈ entries.map Message.id ∧ id ∉ answers.map Reply.id := by
  constructor
  · intro hmem
    obtain ⟨⟨id', n⟩, hlisted, rfl⟩ := List.mem_map.mp hmem
    refine ⟨List.mem_map.mpr (h.listed id' n hlisted), ?_⟩
    intro hans
    obtain ⟨r, hr, hid⟩ := List.mem_map.mp hans
    have hno := (h.answered r hr).2 n
    rw [hid] at hno
    exact hno hlisted
  · rintro ⟨hentry, hno⟩
    obtain ⟨m, hm, rfl⟩ := List.mem_map.mp hentry
    rcases h.kept hreplies hlistens m hm with ⟨n, hmem⟩ | hans
    · exact List.mem_map.mpr ⟨_, hmem, rfl⟩
    · exact absurd hans hno

/-- **EVERY CALL HAS ITS OWN REPLY**, whatever comes in.

    With fewer than `2 ^ 64` calls, in any order of steps and with any frames on the
    reply channel: numbers count up from one and no two requests share one; an outcome
    stays; a number is answered at most once, by a reply that was looked at while the
    number was listed, and the call under it has the outcome of that reply and, while
    both channels are there, no other; a frame that is no such reply changes nothing
    else; and what is listed is what was entered and not answered. -/
theorem every_call_has_its_reply (events : List ClientEvent)
    (few : (empty.run events).calls.length < 2 ^ 64) :
    let c := empty.run events
    let requests := empty.requests events
    let answers := empty.answers events
    -- the numbers
    ((empty.numbers events).map UInt64.toNat = List.range' 1 (empty.numbers events).length
      ∧ c.sent = requests.map Message.toFrame
      ∧ (requests.map Message.id).Nodup
      ∧ ∀ m ∈ requests, ∃ (n : Nat) (call : ClientCall),
          c.calls[n]? = some call ∧ call.id = some m.id ∧ call.action = m.action)
    -- the outcomes
    ∧ ((∀ n outcome more, c.outcome? n = some outcome →
          (c.run more).outcome? n = some outcome)
      ∧ (answers.map Reply.id).Nodup
      ∧ (∀ r ∈ answers, ∃ (n : Nat) (call : ClientCall),
          c.calls[n]? = some call ∧ call.id = some r.id
          ∧ (call.stage = .settled r.outcome ∨ call.stage = .parked (some r.outcome)
            ∨ call.stage = .abandoned
            ∨ (c.hostListens = false ∧ call.stage = .settled (.error .disconnected))))
      ∧ ∀ (n : Nat) (call : ClientCall) (outcome : Outcome), c.calls[n]? = some call →
          call.stage = .settled outcome ∨ call.stage = .parked (some outcome) →
          (∃ r ∈ answers, call.id = some r.id ∧ r.outcome = outcome)
          ∨ (outcome = .error .disconnected
            ∧ (c.repliesOpen = false ∨ c.hostListens = false)))
    -- the oldest reply
    ∧ (∀ frame rest, c.arrived = frame :: rest →
        (∀ r n, Reply.ofJson frame = .ok r → (r.id, n) ∈ c.pending →
          c.step .settle = { c with
            arrived := rest
            calls := c.calls.modify n (ClientCall.deliver r.outcome)
            pending := c.pending.filter (fun p => p.1 ≠ r.id) })
        ∧ ((∀ r n, Reply.ofJson frame = .ok r → (r.id, n) ∉ c.pending) →
          c.step .settle = { c with arrived := rest }))
    -- the table
    ∧ ((c.pending.map Prod.fst).Nodup
      ∧ (∀ id n, (id, n) ∈ c.pending → ∃ call, c.calls[n]? = some call ∧ call.id = some id)
      ∧ (∀ (n : Nat) (call : ClientCall) id, c.calls[n]? = some call → call.id = some id →
          call.stage ≠ .abandoned →
          ((id, n) ∈ c.pending ↔ call.stage = .parked none ∨ call.stage = .waiting))
      ∧ (c.repliesOpen = true → c.hostListens = true →
          ∀ id, id ∈ c.pending.map Prod.fst
            ↔ id ∈ (empty.entries events).map Message.id ∧ id ∉ answers.map Reply.id)) := by
  intro c requests answers
  have hsound : c.Sound := sound_run events
  have hledger : c.Ledger (empty.entries events) answers := ledger_run few
  have hhanded : c.Handed requests := handed_run events
  refine ⟨⟨numbers_eq few, hhanded.sent, requests_nodup few, ?_⟩,
    ⟨?_, hledger.once, heeded_run events, ?_⟩, ?_, ⟨hsound.tabled.keyed, ?_, ?_, ?_⟩⟩
  · intro m hm
    obtain ⟨n, call, here, hid, haction, -⟩ := hhanded.reached m hm
    exact ⟨n, call, here, hid, haction⟩
  · intro n outcome more hout
    exact outcome?_run hsound hout more
  · intro n call outcome here hstage
    refine owed_run few n call outcome here ?_
    rcases hstage with hs | hs <;> rw [hs] <;> rfl
  · intro frame rest oldest
    exact ⟨fun r n hr hmem => settle_of_listed hsound oldest hr hmem,
      fun hno => settle_of_unlisted oldest hno⟩
  · intro id n hmem
    obtain ⟨call, here, hid, -⟩ := hsound.tabled.listed id n hmem
    exact ⟨call, here, hid⟩
  · intro n call id here hid waits
    exact hsound.listed_iff here hid waits
  · intro hreplies hlistens id
    exact hledger.pending_iff hreplies hlistens

/-- A reply to a call that has no number yet, a frame that is no reply, replies in the
    order in which they should not come, and a second reply to one call. -/
def disorder : List ClientEvent :=
  [.arrive (Reply.ok 2 (.str "early")).toJson, .settle,
    .call (.parse ⟨"a"⟩), .call (.format ⟨"b"⟩), .take 0, .take 1, .park 1, .hand 1,
    .arrive (.str "no reply"), .arrive (Reply.ok 2 (.str "B")).toJson, .settle, .settle,
    .park 0, .hand 0,
    .arrive (Reply.ok 2 (.str "again")).toJson,
    .arrive (Reply.failure 1 .engineError "A").toJson, .settle, .settle]

theorem disorder_settled :
    (empty.run disorder).calls.length < 2 ^ 64
      ∧ (empty.run disorder).outcome? 0 = some (.error (.remote (some "Engine.Error") "A"))
      ∧ (∀ more, ((empty.run disorder).run more).outcome? 1 = some (.ok (.str "B")))
      ∧ (empty.answers disorder).map Reply.id = [2, 1]
      ∧ ((empty.requests disorder).map Message.id).Nodup := by
  have few : (empty.run disorder).calls.length < 2 ^ 64 := by decide
  obtain ⟨⟨-, -, hnodup, -⟩, ⟨hstays, -, -, -⟩, -, -⟩ := every_call_has_its_reply disorder few
  refine ⟨few, by decide, ?_, by decide, hnodup⟩
  intro more
  exact hstays 1 _ more (by decide)

end PhaseHost.Client
