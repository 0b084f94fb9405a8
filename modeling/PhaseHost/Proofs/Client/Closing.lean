import PhaseHost.Proofs.Client.Answers

/-! # Closing a client

    When no reply can come any more, the pump looks at the replies that are left,
    closes the table, and fails whoever is in it.  Calls are in the middle of their
    steps then, so four kinds of calls have to be seen to.

    * A call that is listed is cut off when the table closes.
    * A call that has its number finds the table closed.
    * A call that is listed and finds the host gone ends itself.
    * A call that has been told its outcome keeps it.

    That nobody waits for ever is a statement about what is still to be done: once
    the pump has done its part and a call has taken its own steps, in whatever order
    with everything else, the call has ended. -/

namespace PhaseHost.Client

variable {c c' : Client} {event : ClientEvent} {note : Option ClientNote} {n : Nat}
  {call call' : ClientCall} {id : UInt64} {action : Action}

/-! ## The queue of replies -/

/-- Replies go into the queue behind and are looked at in front. -/
theorem Move.queue (hmove : Move c event note c') :
    c.arrived ++ (note.bind ClientNote.admitted?).toList
      = (note.bind ClientNote.heard?).toList ++ c'.arrived := by
  cases hmove with
  | arrive comes => rfl
  | answer oldest answers =>
      rw [release_rest, oldest]
      exact List.append_nil _
  | pass oldest unanswered =>
      rw [oldest]
      exact List.append_nil _
  | enlist here unshut =>
      show c.arrived ++ [] = (c.release _ _).arrived
      rw [release_rest, List.append_nil]
  | miss here gone =>
      show c.arrived ++ [] = (c.release _ _).arrived
      rw [release_rest, List.append_nil]
  | stay => exact List.append_nil _
  | call action => exact List.append_nil _
  | take fresh => exact List.append_nil _
  | turnAway here shut => exact List.append_nil _
  | hand here listens => exact List.append_nil _
  | handTold here listens => exact List.append_nil _
  | abandon here waits => exact List.append_nil _
  | closeReplies => exact List.append_nil _
  | drain closing dry unshut => exact List.append_nil _
  | hangUp => exact List.append_nil _

/-- What was admitted was heard or waits in the queue, in order. -/
theorem queue_run (events : List ClientEvent) :
    empty.admitted events = empty.heard events ++ (empty.run events).arrived := by
  induction events using List.reverseRecOn with
  | nil => rfl
  | append_singleton events event ih =>
      have hqueue := (move_step (empty.run events) event).queue
      rw [admitted, heard, filterMap_log_concat, filterMap_log_concat, run_concat]
      change empty.admitted events ++ _ = (empty.heard events ++ _) ++ _
      rw [ih, List.append_assoc, hqueue, List.append_assoc]

/-- Settling takes the first reply off the queue. -/
theorem arrived_settle (c : Client) : (c.step .settle).arrived = c.arrived.tail := by
  show c.settle.arrived = _
  simp only [settle]
  split
  next dry => rw [dry]; rfl
  next frame rest oldest =>
    rw [oldest]
    split
    · rw [release_rest]
      rfl
    · rfl

/-- Nothing is admitted once the replies have closed. -/
theorem Move.admits_nothing (hmove : Move c event note c') (closing : c.repliesOpen = false) :
    note.bind ClientNote.admitted? = none := by
  cases hmove with
  | arrive comes => exact nomatch closing.symm.trans comes
  | stay => rfl
  | call action => rfl
  | take fresh => rfl
  | turnAway here shut => rfl
  | enlist here unshut => rfl
  | hand here listens => rfl
  | handTold here listens => rfl
  | miss here gone => rfl
  | abandon here waits => rfl
  | answer oldest answers => rfl
  | pass oldest unanswered => rfl
  | closeReplies => rfl
  | drain closing dry unshut => rfl
  | hangUp => rfl

/-- A queue that takes no more replies in does not grow. -/
theorem arrived_le_step (closing : c.repliesOpen = false) (event : ClientEvent) :
    (c.step event).arrived.length ≤ c.arrived.length := by
  have hmove := move_step c event
  have hqueue := congrArg List.length hmove.queue
  rw [hmove.admits_nothing closing, List.length_append, List.length_append] at hqueue
  simp only [Option.toList_none, List.length_nil] at hqueue
  omega

/-! ## The closed table -/

/-- A client that is closed stays so. -/
theorem Move.closed (hmove : Move c event note c') (hclosed : c.closed = true) :
    c'.closed = true := by
  cases hmove with
  | enlist here unshut => exact nomatch unshut.symm.trans hclosed
  | miss here gone =>
      show (c.release _ _).closed = true
      rw [release_rest]
      exact hclosed
  | answer oldest answers =>
      rw [release_rest]
      exact hclosed
  | drain closing dry unshut => rfl
  | stay => exact hclosed
  | call action => exact hclosed
  | take fresh => exact hclosed
  | turnAway here shut => exact hclosed
  | hand here listens => exact hclosed
  | handTold here listens => exact hclosed
  | abandon here waits => exact hclosed
  | arrive comes => exact hclosed
  | pass oldest unanswered => exact hclosed
  | closeReplies => exact hclosed
  | hangUp => exact hclosed

/-- A sound client stays so in every run. -/
theorem Sound.run (h : c.Sound) (events : List ClientEvent) : (c.run events).Sound := by
  induction events generalizing c with
  | nil => exact h
  | cons event rest ih => exact ih (h.move (move_step c event))

theorem closed_run (hclosed : c.closed = true) (events : List ClientEvent) :
    (c.run events).closed = true := by
  induction events generalizing c with
  | nil => exact hclosed
  | cons event rest ih => exact ih ((move_step c event).closed hclosed)

/-- Nobody waits for a closed table. -/
theorem Sound.isOpen_of_closed (h : c.Sound) (hclosed : c.closed = true)
    (here : c.calls[n]? = some call) : call.stage.isOpen = false := by
  refine Bool.eq_false_iff.mpr ?_
  intro hopen
  obtain ⟨id, -, hmem⟩ := h.tabled.kept n call here hopen
  rw [(h.shut hclosed).1] at hmem
  exact nomatch hmem

/-! ## Cutting off -/

/-- A call is told that the host is gone, or it has nobody to tell. -/
def CutOff (call : ClientCall) : Prop :=
  call.stage.told? = some (.error .disconnected) ∨ call.stage = .abandoned

/-- A call that is cut off stays so. -/
theorem CutOff.goes (h : CutOff call) (hgoes : Goes c note n call call') : CutOff call' := by
  rcases h with htold | hs
  · rcases hgoes.told htold with htold' | hs' | ⟨-, hs'⟩
    · exact Or.inl htold'
    · exact Or.inr hs'
    · exact Or.inl (by rw [hs']; rfl)
  · rw [hgoes.abandoned hs]
    exact Or.inr hs

/-- A call that is cut off stays so in every run. -/
theorem CutOff.run (h : CutOff call) (hsound : c.Sound) (here : c.calls[n]? = some call)
    (events : List ClientEvent) :
    ∃ call', (c.run events).calls[n]? = some call' ∧ CutOff call' := by
  induction events generalizing c call with
  | nil => exact ⟨call, here, h⟩
  | cons event rest ih =>
      have hmove := move_step c event
      obtain ⟨call', here', hgoes⟩ := hmove.goes hsound here
      exact ih (h.goes hgoes) (hsound.move hmove) here'

/-- Everybody who is listed when the table closes is cut off. -/
theorem cutOff_drain (h : c.Sound) (closing : c.repliesOpen = false) (dry : c.arrived = [])
    (unshut : c.closed = false) (hmem : (id, n) ∈ c.pending) :
    ∃ call, (c.step .drain).calls[n]? = some call ∧ 2 ≤ call.stage.rank ∧ CutOff call := by
  obtain ⟨call, here, -, hstage⟩ := h.tabled.listed id n hmem
  have hdo : ¬ (c.repliesOpen ∨ ¬ c.arrived.isEmpty ∨ c.closed) := by
    rw [closing, dry, unshut]
    decide
  refine ⟨call.deliver (.error .disconnected), ?_, ?_, ClientCall.told?_deliver _ hstage⟩
  case refine_2 =>
    rw [ClientCall.rank_deliver]
    exact CallStage.rank_of_mayBeListed hstage
  show c.drain.calls[n]? = _
  rw [drain, if_neg hdo]
  show (List.foldl _ c.calls c.pending)[n]? = _
  rw [Tabled.getElem?_deliverAll, here, Option.map_some,
    if_pos (List.mem_map.mpr ⟨_, hmem, rfl⟩)]

/-! ## A call's own steps -/

/-- A fresh call takes the next number. -/
theorem step_take (here : c.calls[n]? = some ⟨action, none, .fresh⟩) :
    (c.step (.take n)).calls = c.calls.set n ⟨action, some c.nextId, .numbered⟩ := by
  show (c.take n).calls = _
  simp only [take, here]

/-- A closed table turns a call away. -/
theorem step_park_closed (here : c.calls[n]? = some ⟨action, some id, .numbered⟩)
    (hclosed : c.closed = true) :
    c.step (.park n) = { c with
      calls := c.calls.set n ⟨action, some id, .settled (.error .disconnected)⟩ } := by
  show c.park n = _
  simp only [park, here, if_pos hclosed]
  exact finish_eq here _

/-- A numbered call goes on the list as long as the client is open. -/
theorem step_park_unclosed (here : c.calls[n]? = some ⟨action, some id, .numbered⟩)
    (hclosed : c.closed = false) : c.step (.park n) = c.enlist n action id := by
  show c.park n = _
  simp only [park, here, hclosed, Bool.false_eq_true, if_neg, not_false_eq_true]

/-- A parked call is handed over as long as the host listens. -/
theorem step_hand_listens {early : Option Outcome}
    (here : c.calls[n]? = some ⟨action, some id, .parked early⟩) (listens : c.hostListens = true) :
    ∃ stage, (c.step (.hand n)).calls = c.calls.set n ⟨action, some id, stage⟩
      ∧ stage.rank = 3 := by
  show ∃ stage, (c.hand n).calls = _ ∧ _
  simp only [hand, here, if_pos listens]
  cases early with
  | none => exact ⟨.waiting, rfl, rfl⟩
  | some outcome => exact ⟨.settled outcome, rfl, rfl⟩

/-- A host that is gone ends a call. -/
theorem step_hand_gone {early : Option Outcome}
    (here : c.calls[n]? = some ⟨action, some id, .parked early⟩) (gone : c.hostListens = false) :
    c.step (.hand n) = (c.release id (.error .disconnected)).finish n (.error .disconnected) := by
  show c.hand n = _
  simp only [hand, here, gone, Bool.false_eq_true, if_neg, not_false_eq_true]

theorem finish_self (here : c.calls[n]? = some call) (outcome : Outcome) :
    (c.finish n outcome).calls[n]? = some { call with stage := .settled outcome } := by
  rw [finish_eq here]
  exact List.getElem?_set_self (List.getElem?_eq_some_iff.mp here).1

/-- A call ends when it finds the host gone; of the table only its own number is freed. -/
theorem hand_gone {early : Option Outcome} (h : c.Sound)
    (here : c.calls[n]? = some ⟨action, some id, .parked early⟩) (gone : c.hostListens = false) :
    (c.step (.hand n)).outcome? n = some (.error .disconnected)
      ∧ (c.step (.hand n)).sent = c.sent
      ∧ (∀ p, p ∈ (c.step (.hand n)).pending ↔ p ∈ c.pending ∧ p.1 ≠ id)
      ∧ ∀ m, m ≠ n → (id, m) ∉ c.pending → (c.step (.hand n)).calls[m]? = c.calls[m]? := by
  have hreleased := released h.tabled id (.error .disconnected)
  obtain ⟨early', here'⟩ := hreleased.parked here
  rw [step_hand_gone here gone]
  refine ⟨?_, ?_, hreleased.mem_iff, ?_⟩
  · rw [outcome?, finish_self here']
    rfl
  · show (c.release id _).sent = _
    rw [release_rest]
  · intro m hm hno
    rw [finish_eq here']
    exact (List.getElem?_set_ne (Ne.symm hm)).trans (hreleased.others m hno)

/-- The steps that a call of some rank has before it. -/
def toGo (n : Nat) : Nat → List ClientEvent
  | 0 => [.take n, .park n, .hand n]
  | 1 => [.park n, .hand n]
  | 2 => [.hand n]
  | _ => []

/-- Taking a number brings a fresh call on. -/
theorem rank_take (h : c.Sound) (here : c.calls[n]? = some call) (hs : call.stage.rank = 0) :
    ∃ call', (c.step (.take n)).calls[n]? = some call' ∧ 1 ≤ call'.stage.rank := by
  obtain ⟨action, id, stage⟩ := call
  cases stage with
  | fresh =>
      obtain rfl : id = none := h.tabled.coherent n _ here
      rw [step_take here]
      exact ⟨_, List.getElem?_set_self (List.getElem?_eq_some_iff.mp here).1, Nat.le_refl 1⟩
  | numbered => exact nomatch hs
  | parked early => exact nomatch hs
  | waiting => exact nomatch hs
  | settled outcome => exact nomatch hs
  | abandoned => exact nomatch hs

/-- Parking brings a numbered call on. -/
theorem rank_park (h : c.Sound) (here : c.calls[n]? = some call) (hs : call.stage.rank = 1) :
    ∃ call', (c.step (.park n)).calls[n]? = some call' ∧ 2 ≤ call'.stage.rank := by
  have hn : n < c.calls.length := (List.getElem?_eq_some_iff.mp here).1
  obtain ⟨action, id, stage⟩ := call
  cases stage with
  | numbered =>
      obtain ⟨id, rfl⟩ := Option.isSome_iff_exists.mp (h.tabled.coherent n _ here)
      cases hclosed : c.closed with
      | true =>
          rw [step_park_closed here hclosed]
          exact ⟨_, List.getElem?_set_self hn, Nat.le_succ 2⟩
      | false =>
          rw [step_park_unclosed here hclosed]
          have hn' : n < (c.release id (.error .disconnected)).calls.length := by
            rw [length_release]
            exact hn
          exact ⟨_, List.getElem?_set_self hn', Nat.le_refl 2⟩
  | fresh => exact nomatch hs
  | parked early => exact nomatch hs
  | waiting => exact nomatch hs
  | settled outcome => exact nomatch hs
  | abandoned => exact nomatch hs

/-- Handing over brings a parked call on. -/
theorem rank_hand (h : c.Sound) (here : c.calls[n]? = some call) (hs : call.stage.rank = 2) :
    ∃ call', (c.step (.hand n)).calls[n]? = some call' ∧ 3 ≤ call'.stage.rank := by
  obtain ⟨action, id, stage⟩ := call
  cases stage with
  | parked early =>
      obtain ⟨id, rfl⟩ := Option.isSome_iff_exists.mp (h.tabled.coherent n _ here)
      cases hlistens : c.hostListens with
      | true =>
          obtain ⟨stage, hcalls, hrank⟩ := step_hand_listens here hlistens
          rw [hcalls]
          exact ⟨_, List.getElem?_set_self (List.getElem?_eq_some_iff.mp here).1,
            Nat.le_of_eq hrank.symm⟩
      | false =>
          obtain ⟨early', here'⟩ := (released h.tabled id (.error .disconnected)).parked here
          rw [step_hand_gone here hlistens]
          exact ⟨_, finish_self here' _, Nat.le_refl 3⟩
  | fresh => exact nomatch hs
  | numbered => exact nomatch hs
  | waiting => exact nomatch hs
  | settled outcome => exact nomatch hs
  | abandoned => exact nomatch hs

/-- A call that takes the step before it goes one further. -/
theorem rank_step (h : c.Sound) (here : c.calls[n]? = some call) {rest : List ClientEvent}
    (hnext : toGo n call.stage.rank = event :: rest) :
    rest = toGo n (call.stage.rank + 1) ∧ ∃ call', (c.step event).calls[n]? = some call'
      ∧ call.stage.rank + 1 ≤ call'.stage.rank := by
  have hrank := call.stage.rank_le
  generalize hr : call.stage.rank = rank at hnext hrank ⊢
  match rank, hrank with
  | 0, _ =>
      obtain ⟨rfl, rfl⟩ := List.cons.inj hnext
      exact ⟨rfl, rank_take h here hr⟩
  | 1, _ =>
      obtain ⟨rfl, rfl⟩ := List.cons.inj hnext
      exact ⟨rfl, rank_park h here hr⟩
  | 2, _ =>
      obtain ⟨rfl, rfl⟩ := List.cons.inj hnext
      exact ⟨rfl, rank_hand h here hr⟩
  | 3, _ => exact nomatch hnext

/-- A call that has less before it can do with the same steps. -/
theorem toGo_sublist (n : Nat) {rank rank' : Nat} (hle : rank ≤ rank') :
    (toGo n rank').Sublist (toGo n rank) := by
  induction hle with
  | refl => exact .refl _
  | @step m hle ih =>
      refine List.Sublist.trans ?_ ih
      match m with
      | 0 => exact List.sublist_cons_self _ _
      | 1 => exact List.sublist_cons_self _ _
      | 2 => exact List.sublist_cons_self _ _
      | _ + 3 => exact .refl _

/-- A call that takes its steps has handed its frame over in the end, or has ended. -/
theorem rank_run (h : c.Sound) (here : c.calls[n]? = some call) {more : List ClientEvent}
    (hsteps : (toGo n call.stage.rank).Sublist more) :
    ∃ call', (c.run more).calls[n]? = some call' ∧ call'.stage.rank = 3 := by
  induction more generalizing c call with
  | nil =>
      refine ⟨call, here, ?_⟩
      have hnone := List.sublist_nil.mp hsteps
      have hrank := call.stage.rank_le
      generalize call.stage.rank = rank at hnone hrank ⊢
      match rank, hrank with
      | 0, _ => exact nomatch hnone
      | 1, _ => exact nomatch hnone
      | 2, _ => exact nomatch hnone
      | 3, _ => rfl
  | cons event more ih =>
      have hmove := move_step c event
      rcases List.sublist_cons_iff.mp hsteps with hlater | ⟨rest, hnow, hrest⟩
      · obtain ⟨call', here', hgoes⟩ := hmove.goes h here
        exact ih (h.move hmove) here' ((toGo_sublist n hgoes.rank_le).trans hlater)
      · obtain ⟨rfl, call', here', hrank⟩ := rank_step h here hnow
        exact ih (h.move hmove) here' ((toGo_sublist n hrank).trans hrest)

/-! ## The pump's steps -/

/-- The pump closes the table once it has looked at the replies that are left. -/
theorem closed_of_pump (closing : c.repliesOpen = false) {k : Nat}
    (hqueue : c.arrived.length ≤ k) {more : List ClientEvent}
    (hsteps : (List.replicate k ClientEvent.settle ++ [ClientEvent.drain]).Sublist more) :
    (c.run more).closed = true := by
  induction more generalizing c k with
  | nil =>
      have hnone := congrArg List.length (List.sublist_nil.mp hsteps)
      rw [List.length_append] at hnone
      exact nomatch hnone
  | cons event more ih =>
      have closing' := (move_step c event).gone.1 closing
      rcases List.sublist_cons_iff.mp hsteps with hlater | ⟨rest, hnow, hrest⟩
      · exact ih closing' (Nat.le_trans (arrived_le_step closing event) hqueue) hlater
      · cases k with
        | zero =>
            obtain ⟨rfl, -⟩ := List.cons.inj hnow
            have dry : c.arrived = [] := List.eq_nil_of_length_eq_zero (Nat.le_zero.mp hqueue)
            refine closed_run ?_ more
            show c.drain.closed = true
            simp only [drain, closing, dry]
            split
            next hkeep => simpa using hkeep
            next => rfl
        | succ k =>
            obtain ⟨rfl, rfl⟩ := List.cons.inj hnow
            refine ih closing' ?_ hrest
            rw [arrived_settle, List.length_tail]
            omega

/-! ## Nobody waits for ever -/

/-- A call that has handed its frame over and is cut off has ended. -/
theorem CutOff.ended (h : CutOff call) (hrank : call.stage.rank = 3) :
    call.stage = .abandoned ∨ call.stage = .settled (.error .disconnected) := by
  obtain ⟨action, id, stage⟩ := call
  rcases h with htold | hs
  · cases stage with
    | settled outcome =>
        obtain rfl : outcome = .error .disconnected := Option.some.inj htold
        exact Or.inr rfl
    | fresh => exact nomatch hrank
    | numbered => exact nomatch hrank
    | parked early => exact nomatch hrank
    | waiting => exact nomatch htold
    | abandoned => exact nomatch htold
  · exact Or.inl hs

/-- A call that was listed when the table closed ends as soon as it has nothing more to do. -/
theorem drained_run (h : c.Sound) (closing : c.repliesOpen = false) (dry : c.arrived = [])
    (unshut : c.closed = false) (hmem : (id, n) ∈ c.pending) (more : List ClientEvent) :
    ∃ call, ((c.step .drain).run more).calls[n]? = some call
      ∧ (call.stage = .abandoned ∨ call.stage = .settled (.error .disconnected)
        ∨ (call.stage = .parked (some (.error .disconnected)) ∧ .hand n ∉ more)) := by
  have hsound := h.move (move_step c .drain)
  obtain ⟨call, here, hrank, hcut⟩ := cutOff_drain h closing dry unshut hmem
  obtain ⟨call', here', hcut'⟩ := hcut.run hsound here more
  refine ⟨call', here', ?_⟩
  have hend : (toGo n call.stage.rank).Sublist more → call'.stage.rank = 3 := by
    intro hsteps
    obtain ⟨call'', here'', hrank''⟩ := rank_run hsound here hsteps
    obtain rfl := Option.some.inj (here'.symm.trans here'')
    exact hrank''
  by_cases hhand : .hand n ∈ more
  · have hsteps := (toGo_sublist n hrank).trans (List.singleton_sublist.mpr hhand)
    exact (hcut'.ended (hend hsteps)).imp_right Or.inl
  · rcases hcut' with htold | hs
    · obtain ⟨action, id', stage⟩ := call'
      cases stage with
      | parked early =>
          obtain rfl : early = some (.error .disconnected) := htold
          exact Or.inr (Or.inr ⟨rfl, hhand⟩)
      | settled outcome =>
          obtain rfl : outcome = .error .disconnected := Option.some.inj htold
          exact Or.inr (Or.inl rfl)
      | fresh => exact nomatch htold
      | numbered => exact nomatch htold
      | waiting => exact nomatch htold
      | abandoned => exact nomatch htold
    · exact Or.inl hs

/-- A call that finds the table closed has ended and sends nothing. -/
theorem turned_away (h : c.Sound) (here : c.calls[n]? = some ⟨action, some id, .numbered⟩)
    (hclosed : c.closed = true) (more : List ClientEvent) :
    ((c.step (.park n)).run more).outcome? n = some (.error .disconnected)
      ∧ ((c.step (.park n)).run more).step (.hand n) = (c.step (.park n)).run more := by
  have hsound := h.move (move_step c (.park n))
  have hout : (c.step (.park n)).outcome? n = some (.error .disconnected) := by
    rw [step_park_closed here hclosed, outcome?,
      List.getElem?_set_self (List.getElem?_eq_some_iff.mp here).1]
    rfl
  have hout' := outcome?_run hsound hout more
  refine ⟨hout', ?_⟩
  obtain ⟨⟨action', id', stage⟩, here', hsettled⟩ := Option.bind_eq_some_iff.mp hout'
  obtain rfl : stage = .settled (.error .disconnected) :=
    ClientCall.outcome?_eq_some_iff.mp hsettled
  show ((c.step (.park n)).run more).hand n = _
  simp only [hand, here']

/-- Once the table is closed, a call that has taken its own steps has ended. -/
theorem ended_of_closed (h : c.Sound) (hclosed : c.closed = true)
    (here : c.calls[n]? = some call) (hrank : call.stage.rank = 3) :
    call.stage = .abandoned ∨ ∃ outcome, call.stage = .settled outcome := by
  have hopen := h.isOpen_of_closed hclosed here
  obtain ⟨action, id, stage⟩ := call
  cases stage with
  | abandoned => exact Or.inl rfl
  | settled outcome => exact Or.inr ⟨outcome, rfl⟩
  | waiting => exact nomatch hopen
  | fresh => exact nomatch hrank
  | numbered => exact nomatch hrank
  | parked early => exact nomatch hrank

/-- **CLOSING LEAVES NOBODY WAITING**, however it falls among the steps of calls.

    The pump closes the table only when it has looked at every reply that came in, and
    then the table stays empty.  Whoever was listed ends as disconnected; whoever comes
    later is turned away and sends nothing; whoever finds the host gone is disconnected
    and frees no number but its own.  When no reply can come any more, the pump's steps
    and the call's own steps bring every call to its end, and an end is final. -/
theorem closing_leaves_nobody_waiting (events : List ClientEvent) :
    let c := empty.run events
    let gone : Outcome := .error .disconnected
    -- replies before the closing
    (empty.admitted events = empty.heard events ++ c.arrived
      ∧ (∀ r ∈ empty.answers events, ∃ (n : Nat) (call : ClientCall),
          c.calls[n]? = some call ∧ call.id = some r.id ∧ c.Heeds call r.outcome)
      ∧ (c.repliesOpen = true ∨ c.arrived ≠ [] → c.step .drain = c)
      ∧ (c.closed = true → c.repliesOpen = false ∧ c.arrived = []))
    -- the closing
    ∧ (∀ id n, c.repliesOpen = false → c.arrived = [] → c.closed = false →
        (id, n) ∈ c.pending →
        ∀ more, ∃ call, ((c.step .drain).run more).calls[n]? = some call
          ∧ (call.stage = .abandoned ∨ call.stage = .settled gone
            ∨ (call.stage = .parked (some gone) ∧ .hand n ∉ more)))
    -- after the closing
    ∧ (c.closed = true → ∀ more, (c.run more).closed = true ∧ (c.run more).pending = []
        ∧ ∀ (n : Nat) (call : ClientCall), (c.run more).calls[n]? = some call →
            call.stage ≠ .parked none ∧ call.stage ≠ .waiting)
    ∧ (∀ (n : Nat) action id, c.calls[n]? = some ⟨action, some id, .numbered⟩ →
        c.closed = true →
        (c.step (.park n)).sent = c.sent ∧ (c.step (.park n)).pending = []
        ∧ ∀ more, ((c.step (.park n)).run more).outcome? n = some gone
            ∧ ((c.step (.park n)).run more).step (.hand n) = (c.step (.park n)).run more)
    -- a host that is gone
    ∧ (∀ (n : Nat) action id early, c.calls[n]? = some ⟨action, some id, .parked early⟩ →
        c.hostListens = false →
        (c.step (.hand n)).outcome? n = some gone
        ∧ (c.step (.hand n)).sent = c.sent
        ∧ (∀ p, p ∈ (c.step (.hand n)).pending ↔ p ∈ c.pending ∧ p.1 ≠ id)
        ∧ (∀ m, m ≠ n → (id, m) ∉ c.pending → (c.step (.hand n)).calls[m]? = c.calls[m]?)
        ∧ (c.calls.length < 2 ^ 64 → ∀ m, (id, m) ∈ c.pending → m = n))
    -- every call comes to its end
    ∧ (∀ (n : Nat) (call : ClientCall) more, c.calls[n]? = some call → c.repliesOpen = false →
        (List.replicate c.arrived.length ClientEvent.settle ++ [ClientEvent.drain]).Sublist more →
        [ClientEvent.take n, .park n, .hand n].Sublist more →
        ∃ call', (c.run more).calls[n]? = some call'
          ∧ (call'.stage = .abandoned ∨ ∃ outcome, call'.stage = .settled outcome))
    -- and to one end only
    ∧ (∀ n outcome, c.outcome? n = some outcome →
        (∀ id, (id, n) ∉ c.pending) ∧ ∀ more, (c.run more).outcome? n = some outcome) := by
  intro c gone
  have hsound : c.Sound := sound_run events
  refine ⟨⟨queue_run events, heeded_run events, ?_, ?_⟩, ?_, ?_, ?_, ?_, ?_, ?_⟩
  · intro hkeep
    show c.drain = c
    refine if_pos ?_
    rcases hkeep with hreplies | harrived
    · exact Or.inl hreplies
    · refine Or.inr (Or.inl ?_)
      rwa [List.isEmpty_iff]
  · intro hclosed
    exact (hsound.shut hclosed).2
  · intro id n closing dry unshut hmem more
    exact drained_run hsound closing dry unshut hmem more
  · intro hclosed more
    have hsound' := hsound.run more
    have hclosed' := closed_run hclosed more
    refine ⟨hclosed', (hsound'.shut hclosed').1, ?_⟩
    intro n call here
    have hopen := hsound'.isOpen_of_closed hclosed' here
    refine ⟨fun hs => ?_, fun hs => ?_⟩ <;>
      · rw [hs] at hopen
        exact nomatch hopen
  · intro n action id here hclosed
    refine ⟨?_, ?_, turned_away hsound here hclosed⟩
    · rw [step_park_closed here hclosed]
    · rw [step_park_closed here hclosed]
      exact (hsound.shut hclosed).1
  · intro n action id early here hdeaf
    obtain ⟨hout, hsent, hpending, hothers⟩ := hand_gone hsound here hdeaf
    refine ⟨hout, hsent, hpending, hothers, ?_⟩
    intro few m hmem
    obtain ⟨call, there, hid, -⟩ := hsound.tabled.listed id m hmem
    exact index_unique (ids_nodup few) there here hid rfl
  · intro n call more here closing hpump hown
    have hsteps := (toGo_sublist n (Nat.zero_le call.stage.rank)).trans hown
    obtain ⟨call', here', hrank⟩ := rank_run hsound here hsteps
    have hclosed := closed_of_pump closing (Nat.le_refl _) hpump
    exact ⟨call', here', ended_of_closed (hsound.run more) hclosed here' hrank⟩
  · intro n outcome hout
    refine ⟨?_, outcome?_run hsound hout⟩
    intro id hmem
    obtain ⟨call, here, hsettled⟩ := Option.bind_eq_some_iff.mp hout
    have hlisted := hsound.tabled.mayBeListed here hmem
    rw [ClientCall.outcome?_eq_some_iff.mp hsettled] at hlisted
    exact nomatch hlisted

end PhaseHost.Client
