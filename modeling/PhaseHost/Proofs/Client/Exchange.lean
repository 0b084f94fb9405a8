import PhaseHost.Proofs.Client.Closing

/-! # One call from end to end

    A client that is connected sends one frame for a call, whatever else it is doing.  A
    client that makes one call only is answered by what comes back under the number of
    that call, or by nothing: its call ends in either case. -/

namespace PhaseHost

/-- The frame that comes back is a reply under a number. -/
def Reply.AnsweredBy (frame? : Option Json) (id : UInt64) (r : Reply) : Prop :=
  ∃ frame, frame? = some frame ∧ Reply.ofJson frame = .ok r ∧ r.id = id

theorem Reply.AnsweredBy.unique {frame? : Option Json} {id : UInt64} {r r' : Reply}
    (h : Reply.AnsweredBy frame? id r) (h' : Reply.AnsweredBy frame? id r') : r = r' := by
  obtain ⟨frame, hframe, hr, -⟩ := h
  obtain ⟨frame', hframe', hr', -⟩ := h'
  obtain rfl : frame = frame' := Option.some.inj (hframe.symm.trans hframe')
  exact Except.ok.inj (hr.symm.trans hr')

namespace Client

variable {action : Action} {answer : Json → Option Json}

/-- A call of a client that is connected sends one frame. -/
theorem sent_start (c : Client) (action : Action) (listens : c.hostListens = true)
    (unshut : c.closed = false) :
    ((c.call action).start c.calls.length).sent
      = c.sent ++ [Message.toFrame ⟨c.nextId, action⟩] := by
  have hfresh : (c.call action).calls[c.calls.length]? = some ⟨action, none, .fresh⟩ :=
    List.getElem?_concat_length
  have htake : (c.call action).take c.calls.length = { c with
      nextId := c.nextId + 1
      calls := (c.call action).calls.set c.calls.length ⟨action, some c.nextId, .numbered⟩ } := by
    simp only [take, hfresh]
    rfl
  generalize hc₁ : (c.call action).take c.calls.length = c₁ at htake
  have hlast : c.calls.length < (c.call action).calls.length := by simp [call]
  have hnumbered : c₁.calls[c.calls.length]? = some ⟨action, some c.nextId, .numbered⟩ := by
    rw [htake]
    exact List.getElem?_set_self hlast
  -- whoever gives way to the call, the call itself is parked
  have hpark : c₁.park c.calls.length = c₁.enlist c.calls.length action c.nextId := by
    refine step_park_unclosed hnumbered ?_
    rw [htake]
    exact unshut
  have hparked : (c₁.enlist c.calls.length action c.nextId).calls[c.calls.length]?
      = some ⟨action, some c.nextId, .parked none⟩ := by
    refine List.getElem?_set_self ?_
    rw [length_release, htake, List.length_set]
    exact hlast
  have hsent : (c₁.enlist c.calls.length action c.nextId).sent = c.sent
      ∧ (c₁.enlist c.calls.length action c.nextId).hostListens = c.hostListens := by
    show (c₁.release _ _).sent = _ ∧ (c₁.release _ _).hostListens = _
    rw [release_rest, htake]
    exact ⟨rfl, rfl⟩
  show ((((c.call action).take c.calls.length).park c.calls.length).hand c.calls.length).sent = _
  rw [hc₁, hpark]
  simp only [hand, hparked, hsent.2, if_pos listens, hsent.1]

theorem start_alone (action : Action) :
    (empty.call action).start 0 = { empty with
      nextId := 2
      calls := [⟨action, some 1, .waiting⟩]
      pending := [(1, 0)]
      sent := [Message.toFrame ⟨1, action⟩] } := rfl

/-- A call that is answered ends with the outcome of the reply. -/
theorem exchange_of_answered {r : Reply}
    (h : Reply.AnsweredBy (answer (Message.toFrame ⟨1, action⟩)) 1 r) :
    exchange action answer = (Message.toFrame ⟨1, action⟩, r.outcome) := by
  obtain ⟨frame, hframe, hr, hid⟩ := h
  simp only [exchange, start_alone, List.headD_cons]
  rw [hframe]
  simp [arrive, pump, step, settle, hr, drain, empty, release, hid]
  rfl

/-- A call that is not answered ends when the channel closes. -/
theorem exchange_of_unanswered
    (h : ∀ r, ¬ Reply.AnsweredBy (answer (Message.toFrame ⟨1, action⟩)) 1 r) :
    exchange action answer = (Message.toFrame ⟨1, action⟩, .error .disconnected) := by
  simp only [exchange, start_alone, List.headD_cons]
  cases hframe : answer (Message.toFrame ⟨1, action⟩) with
  | none => rfl
  | some frame =>
      cases hr : Reply.ofJson frame with
      | error e =>
          simp [arrive, pump, step, settle, hr, drain, empty]
          rfl
      | ok r =>
          have hid : r.id ≠ 1 := fun hid => h r ⟨frame, hframe, hr, hid⟩
          simp [arrive, pump, step, settle, hr, drain, empty, release, Ne.symm hid]
          rfl

/-- A number is requested once at most, and what is requested under it is what its call asks for. -/
theorem requests_of_call {events : List ClientEvent} {n : Nat} {call : ClientCall} {id : UInt64}
    (few : (empty.run events).calls.length < 2 ^ 64)
    (here : (empty.run events).calls[n]? = some call) (hid : call.id = some id) :
    ((empty.requests events).map Message.id).count id ≤ 1
      ∧ ∀ m ∈ empty.requests events, m.id = id → m.action = call.action := by
  refine ⟨List.nodup_iff_count_le_one.mp (requests_nodup few) id, ?_⟩
  intro m hm hmid
  obtain ⟨k, call', here', hid', haction, -⟩ := (handed_run events).reached m hm
  obtain rfl := index_unique (ids_nodup few) here here' hid (hid'.trans (congrArg some hmid))
  obtain rfl := Option.some.inj (here.symm.trans here')
  exact haction.symm

end Client

end PhaseHost
