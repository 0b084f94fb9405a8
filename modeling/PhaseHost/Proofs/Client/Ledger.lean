import PhaseHost.Proofs.Client.Numbers

/-! # The ledger of a client

    The log of a run says which calls were listed and which replies were answers.
    The LEDGER compares the two with the table: an entry that was made is either
    in the table still or has been answered, as long as both channels are there,
    and it is answered once.

    All of this needs calls to be known by their numbers.  The argument is always
    the same.  A call only goes forward through its stages, so whatever was noted
    of a number shows in the stage that the call of this number has REACHED, and
    a call that is about to have it noted has not reached it yet. -/

namespace PhaseHost

/-- How far a stage is: numbered, listed, handed over. -/
def CallStage.rank : CallStage → Nat
  | .fresh => 0
  | .numbered => 1
  | .parked _ => 2
  | .waiting => 3
  | .settled _ => 3
  | .abandoned => 3

theorem CallStage.rank_le (stage : CallStage) : stage.rank ≤ 3 := by
  cases stage with
  | fresh => decide
  | numbered => decide
  | parked early => exact Nat.le_succ 2
  | waiting => exact Nat.le_refl 3
  | settled outcome => exact Nat.le_refl 3
  | abandoned => exact Nat.le_refl 3

theorem ClientCall.rank_deliver (outcome : Outcome) (call : ClientCall) :
    (call.deliver outcome).stage.rank = call.stage.rank := by
  rcases deliver_cases outcome call with ⟨hs, h⟩ | ⟨hs, h⟩ | ⟨-, h⟩ <;> rw [h]
  · rw [hs]
    rfl
  · rw [hs]
    rfl

theorem CallStage.rank_of_mayBeListed {stage : CallStage} (h : stage.mayBeListed = true) :
    2 ≤ stage.rank := by
  cases stage with
  | fresh => exact nomatch h
  | numbered => exact nomatch h
  | parked early => exact Nat.le_refl 2
  | waiting => exact Nat.le_succ 2
  | settled outcome => exact nomatch h
  | abandoned => exact Nat.le_succ 2

namespace Client

variable {c c' : Client} {event : ClientEvent} {note : Option ClientNote} {n m : Nat}
  {call call' : ClientCall} {id : UInt64}

/-- A call does not go back. -/
theorem Goes.rank_le (h : Goes c note n call call') : call.stage.rank ≤ call'.stage.rank := by
  cases h with
  | rest => exact Nat.le_refl _
  | number => exact Nat.le_succ 0
  | turnAway shut => exact Nat.le_add_right 1 2
  | enlist unshut => exact Nat.le_succ 1
  | hand => exact Nat.le_succ 2
  | handTold => exact Nat.le_succ 2
  | miss gone => exact Nat.le_succ 2
  | abandon waits =>
      exact CallStage.rank_le call.stage
  | answered answers own => exact Nat.le_of_eq (ClientCall.rank_deliver _ call).symm
  | drained closing => exact Nat.le_of_eq (ClientCall.rank_deliver _ call).symm
  | displaced own elsewhere there same => exact Nat.le_of_eq (ClientCall.rank_deliver _ call).symm

/-- The call of a message has come to a stage of some rank. -/
def Reached (c : Client) (m : Message) (rank : Nat) : Prop :=
  ∃ (n : Nat) (call : ClientCall), c.calls[n]? = some call ∧ call.id = some m.id
    ∧ call.action = m.action ∧ rank ≤ call.stage.rank

/-- A stage that was reached has been reached for good. -/
theorem Reached.move {m : Message} {rank : Nat} (h : c.Reached m rank) (hsound : c.Sound)
    (hmove : Move c event note c') : c'.Reached m rank := by
  obtain ⟨n, call, here, hid, haction, hrank⟩ := h
  obtain ⟨call', here', hgoes⟩ := hmove.goes hsound here
  exact ⟨n, call', here', hgoes.keeps.id _ hid, hgoes.keeps.action.trans haction,
    Nat.le_trans hrank hgoes.rank_le⟩

/-- A call that is not that far yet has not had it noted under its number. -/
theorem Reached.lt_of_ne {m : Message} {rank : Nat} (h : c.Reached m rank)
    (hids : (c.calls.filterMap ClientCall.id).Nodup) (here : c.calls[n]? = some call)
    (hrank : call.stage.rank < rank) : call.id ≠ some m.id := by
  intro hid
  obtain ⟨k, call', here', hid', -, hrank'⟩ := h
  obtain rfl := index_unique hids here here' hid hid'
  obtain rfl := Option.some.inj (here.symm.trans here')
  omega

/-! ## What a move does to the table -/

/-- What an event can do to the table, given what is noted of it. -/
inductive Turnover (c : Client) : Option ClientNote → List (UInt64 × Nat) → Prop
  | keep {note : Option ClientNote} (entry : note.bind ClientNote.entry? = none)
      (answer : note.bind ClientNote.answer? = none) : Turnover c note c.pending
  | enter {n : Nat} {action : Action} {id : UInt64}
      (here : c.calls[n]? = some ⟨action, some id, .numbered⟩) :
      Turnover c (some (.listed ⟨id, action⟩))
        ((id, n) :: c.pending.filter (fun p => p.1 ≠ id))
  | answer {n : Nat} {frame : Json} {r : Reply} (there : (r.id, n) ∈ c.pending) :
      Turnover c (some (.heard frame (some r))) (c.pending.filter (fun p => p.1 ≠ r.id))
  | miss (id : UInt64) (gone : c.hostListens = false) :
      Turnover c none (c.pending.filter (fun p => p.1 ≠ id))
  | empty (closing : c.repliesOpen = false) : Turnover c none []

/-- What a move does to the table, read off the note of it. -/
theorem Move.turnover (hmove : Move c event note c') : Turnover c note c'.pending := by
  cases hmove with
  | stay => exact .keep rfl rfl
  | call action => exact .keep rfl rfl
  | take fresh => exact .keep rfl rfl
  | turnAway here shut => exact .keep rfl rfl
  | @enlist n action id here unshut =>
      show Turnover c _ ((id, n) :: (c.release id _).pending)
      rw [pending_release]
      exact .enter here
  | hand here listens => exact .keep rfl rfl
  | handTold here listens => exact .keep rfl rfl
  | @miss n action id early here gone =>
      show Turnover c _ (c.release id _).pending
      rw [pending_release]
      exact .miss id gone
  | abandon here waits => exact .keep rfl rfl
  | arrive comes => exact .keep rfl rfl
  | answer oldest answers =>
      obtain ⟨-, n, hmem⟩ := answerIn?_eq_some_iff.mp answers
      rw [pending_release]
      exact .answer hmem
  | pass oldest unanswered => exact .keep rfl rfl
  | closeReplies => exact .keep rfl rfl
  | drain closing dry unshut => exact .empty closing
  | hangUp => exact .keep rfl rfl

/-- A channel is as it was, or it is closed now. -/
theorem Move.channels (hmove : Move c event note c') :
    (c'.repliesOpen = c.repliesOpen ∨ (event = .closeReplies ∧ c'.repliesOpen = false))
      ∧ (c'.hostListens = c.hostListens ∨ (event = .hangUp ∧ c'.hostListens = false)) := by
  cases hmove with
  | enlist here unshut =>
      show ((c.release _ _).repliesOpen = _ ∨ _) ∧ ((c.release _ _).hostListens = _ ∨ _)
      rw [release_rest]
      exact ⟨Or.inl rfl, Or.inl rfl⟩
  | miss here gone =>
      show ((c.release _ _).repliesOpen = _ ∨ _) ∧ ((c.release _ _).hostListens = _ ∨ _)
      rw [release_rest]
      exact ⟨Or.inl rfl, Or.inl rfl⟩
  | answer oldest answers =>
      rw [release_rest]
      exact ⟨Or.inl rfl, Or.inl rfl⟩
  | closeReplies => exact ⟨Or.inr ⟨rfl, rfl⟩, Or.inl rfl⟩
  | hangUp => exact ⟨Or.inl rfl, Or.inr ⟨rfl, rfl⟩⟩
  | stay => exact ⟨Or.inl rfl, Or.inl rfl⟩
  | call action => exact ⟨Or.inl rfl, Or.inl rfl⟩
  | take fresh => exact ⟨Or.inl rfl, Or.inl rfl⟩
  | turnAway here shut => exact ⟨Or.inl rfl, Or.inl rfl⟩
  | hand here listens => exact ⟨Or.inl rfl, Or.inl rfl⟩
  | handTold here listens => exact ⟨Or.inl rfl, Or.inl rfl⟩
  | abandon here waits => exact ⟨Or.inl rfl, Or.inl rfl⟩
  | arrive comes => exact ⟨Or.inl rfl, Or.inl rfl⟩
  | pass oldest unanswered => exact ⟨Or.inl rfl, Or.inl rfl⟩
  | drain closing dry unshut => exact ⟨Or.inl rfl, Or.inl rfl⟩

/-- Channels do not open again. -/
theorem Move.gone (hmove : Move c event note c') :
    (c.repliesOpen = false → c'.repliesOpen = false)
      ∧ (c.hostListens = false → c'.hostListens = false) := by
  constructor
  · intro hgone
    exact hmove.channels.1.elim (fun hsame => hsame.trans hgone) And.right
  · intro hgone
    exact hmove.channels.2.elim (fun hsame => hsame.trans hgone) And.right

/-- A channel that is open was open before. -/
theorem Move.was_open (hmove : Move c event note c') :
    (c'.repliesOpen = true → c.repliesOpen = true)
      ∧ (c'.hostListens = true → c.hostListens = true) := by
  constructor
  · intro hopen
    exact Bool.of_not_eq_false (fun hgone => Bool.eq_false_iff.mp (hmove.gone.1 hgone) hopen)
  · intro hopen
    exact Bool.of_not_eq_false (fun hgone => Bool.eq_false_iff.mp (hmove.gone.2 hgone) hopen)

/-! ## The ledger -/

/-- What was noted of entries and answers, against the table. -/
structure Ledger (c : Client) (entries : List Message) (answers : List Reply) : Prop where
  entered : ∀ m ∈ entries, c.Reached m 2
  listed : ∀ id n, (id, n) ∈ c.pending → ∃ m ∈ entries, m.id = id
  answered : ∀ r ∈ answers, (∃ m ∈ entries, m.id = r.id) ∧ ∀ n, (r.id, n) ∉ c.pending
  once : (answers.map Reply.id).Nodup
  kept : c.repliesOpen = true → c.hostListens = true → ∀ m ∈ entries,
    (∃ n, (m.id, n) ∈ c.pending) ∨ m.id ∈ answers.map Reply.id

variable {entries : List Message} {answers : List Reply}

/-- A move that makes no entry and hears no answer, and takes entries out of the
    table only if a channel is gone. -/
theorem Ledger.shrink (h : c.Ledger entries answers) (hsound : c.Sound)
    (hmove : Move c event note c') (hsub : ∀ p ∈ c'.pending, p ∈ c.pending)
    (hkept : c'.repliesOpen = true → c'.hostListens = true → c'.pending = c.pending) :
    c'.Ledger entries answers := by
  refine ⟨?_, ?_, ?_, h.once, ?_⟩
  · intro m hm
    exact (h.entered m hm).move hsound hmove
  · intro id n hmem
    exact h.listed id n (hsub _ hmem)
  · intro r hr
    obtain ⟨hentry, hno⟩ := h.answered r hr
    exact ⟨hentry, fun n hmem => hno n (hsub _ hmem)⟩
  · intro hreplies hlistens m hm
    rw [hkept hreplies hlistens]
    exact h.kept (hmove.was_open.1 hreplies) (hmove.was_open.2 hlistens) m hm

/-- A call that enters the table had not entered it before. -/
theorem Ledger.enter (h : c.Ledger entries answers) (hsound : c.Sound)
    (hids : (c.calls.filterMap ClientCall.id).Nodup) {action : Action}
    (here : c.calls[n]? = some ⟨action, some id, .numbered⟩)
    (hmove : Move c event note c') (hin : c'.Reached ⟨id, action⟩ 2)
    (hpending : c'.pending = (id, n) :: c.pending.filter (fun p => p.1 ≠ id)) :
    c'.Ledger (entries ++ [⟨id, action⟩]) answers := by
  have hnew : ∀ m ∈ entries, m.id ≠ id := by
    intro m hm heq
    exact (h.entered m hm).lt_of_ne hids here (Nat.lt_succ_self 1) (by rw [heq])
  refine ⟨?_, ?_, ?_, h.once, ?_⟩
  · intro m hm
    rcases List.mem_append.mp hm with hm | hm
    · exact (h.entered m hm).move hsound hmove
    · obtain rfl := List.mem_singleton.mp hm
      exact hin
  · intro id' n' hmem
    rw [hpending] at hmem
    rcases List.mem_cons.mp hmem with heq | hmem
    · cases heq
      exact ⟨_, List.mem_append_right _ (List.mem_singleton_self _), rfl⟩
    · obtain ⟨m, hm, hid⟩ := h.listed id' n' (List.mem_of_mem_filter hmem)
      exact ⟨m, List.mem_append_left _ hm, hid⟩
  · intro r hr
    obtain ⟨⟨m, hm, hid⟩, hno⟩ := h.answered r hr
    refine ⟨⟨m, List.mem_append_left _ hm, hid⟩, ?_⟩
    intro n' hmem
    rw [hpending] at hmem
    rcases List.mem_cons.mp hmem with heq | hmem
    · -- what was answered is the number of an entry, and this number has none yet
      have hr : r.id = id := congrArg Prod.fst heq
      exact hnew m hm (hid.trans hr)
    · exact hno n' (List.mem_of_mem_filter hmem)
  · intro hreplies hlistens m hm
    rw [hpending]
    rcases List.mem_append.mp hm with hm | hm
    · rcases h.kept (hmove.was_open.1 hreplies) (hmove.was_open.2 hlistens) m hm with
        ⟨n', hmem⟩ | hans
      · exact Or.inl ⟨n', List.mem_cons_of_mem _ (Keyed.mem_filter_ne.mpr ⟨hmem, hnew m hm⟩)⟩
      · exact Or.inr hans
    · obtain rfl := List.mem_singleton.mp hm
      exact Or.inl ⟨n, List.mem_cons_self⟩

/-- A call that is answered was not answered before. -/
theorem Ledger.answer (h : c.Ledger entries answers) (hsound : c.Sound) {r : Reply}
    (there : (r.id, n) ∈ c.pending) (hmove : Move c event note c')
    (hpending : c'.pending = c.pending.filter (fun p => p.1 ≠ r.id)) :
    c'.Ledger entries (answers ++ [r]) := by
  have hmem_iff : ∀ id' n', (id', n') ∈ c'.pending ↔ (id', n') ∈ c.pending ∧ id' ≠ r.id := by
    intro id' n'
    rw [hpending]
    exact Keyed.mem_filter_ne
  refine ⟨?_, ?_, ?_, ?_, ?_⟩
  · intro m hm
    exact (h.entered m hm).move hsound hmove
  · intro id' n' hmem
    exact h.listed id' n' ((hmem_iff id' n').mp hmem).1
  · intro r' hr'
    rcases List.mem_append.mp hr' with hr' | hr'
    · obtain ⟨hentry, hno⟩ := h.answered r' hr'
      exact ⟨hentry, fun n' hmem => hno n' ((hmem_iff _ n').mp hmem).1⟩
    · obtain rfl := List.mem_singleton.mp hr'
      exact ⟨h.listed _ n there, fun n' hmem => ((hmem_iff _ n').mp hmem).2 rfl⟩
  · rw [List.map_append, List.map_singleton]
    refine h.once.append (List.nodup_singleton _) ?_
    intro id' hold hnew
    obtain rfl := List.mem_singleton.mp hnew
    obtain ⟨r', hr', hid⟩ := List.mem_map.mp hold
    have hno := (h.answered r' hr').2 n
    rw [hid] at hno
    exact hno there
  · intro hreplies hlistens m hm
    rw [List.map_append]
    rcases h.kept (hmove.was_open.1 hreplies) (hmove.was_open.2 hlistens) m hm with
      ⟨n', hmem⟩ | hans
    · by_cases heq : m.id = r.id
      · rw [heq]
        exact Or.inr (List.mem_append_right _ (List.mem_singleton_self _))
      · exact Or.inl ⟨n', (hmem_iff m.id n').mpr ⟨hmem, heq⟩⟩
    · exact Or.inr (List.mem_append_left _ hans)

/-- One move keeps the ledger. -/
theorem Ledger.move (h : c.Ledger entries answers) (hsound : c.Sound)
    (hids : (c.calls.filterMap ClientCall.id).Nodup) (hmove : Move c event note c') :
    c'.Ledger (entries ++ (note.bind ClientNote.entry?).toList)
      (answers ++ (note.bind ClientNote.answer?).toList) := by
  have hturn := hmove.turnover
  generalize hpending : c'.pending = pending at hturn
  cases hturn with
  | keep entry answer =>
      rw [entry, answer]
      show c'.Ledger (entries ++ []) (answers ++ [])
      rw [List.append_nil, List.append_nil]
      exact h.shrink hsound hmove (fun p hp => hpending ▸ hp) (fun _ _ => hpending)
  | @enter n action id here =>
      have hreached : c'.Reached ⟨id, action⟩ 2 := by
        have hsound' := hsound.move hmove
        have hmem : (id, n) ∈ c'.pending := by
          rw [hpending]
          exact List.mem_cons_self
        obtain ⟨call', here', hid, hstage⟩ := hsound'.tabled.listed id n hmem
        obtain ⟨call'', here'', hgoes⟩ := hmove.goes hsound here
        obtain rfl := Option.some.inj (here'.symm.trans here'')
        exact ⟨n, call', here', hid, hgoes.keeps.action,
          CallStage.rank_of_mayBeListed hstage⟩
      show c'.Ledger (entries ++ [_]) (answers ++ [])
      rw [List.append_nil]
      exact h.enter hsound hids here hmove hreached hpending
  | @answer n frame r there =>
      show c'.Ledger (entries ++ []) (answers ++ [r])
      rw [List.append_nil]
      exact h.answer hsound there hmove hpending
  | miss id gone =>
      show c'.Ledger (entries ++ []) (answers ++ [])
      rw [List.append_nil, List.append_nil]
      refine h.shrink hsound hmove ?_ ?_
      · intro p hp
        rw [hpending] at hp
        exact List.mem_of_mem_filter hp
      · intro _ hlistens
        rw [hmove.was_open.2 hlistens] at gone
        exact nomatch gone
  | empty closing =>
      show c'.Ledger (entries ++ []) (answers ++ [])
      rw [List.append_nil, List.append_nil]
      refine h.shrink hsound hmove ?_ ?_
      · intro p hp
        rw [hpending] at hp
        exact nomatch hp
      · intro hreplies _
        rw [hmove.was_open.1 hreplies] at closing
        exact nomatch closing

/-- **THE LEDGER AGREES** with the table as long as calls are known by their numbers. -/
theorem ledger_run {events : List ClientEvent}
    (few : (empty.run events).calls.length < 2 ^ 64) :
    (empty.run events).Ledger (empty.entries events) (empty.answers events) := by
  induction events using List.reverseRecOn with
  | nil => exact ⟨nofun, nofun, nofun, List.nodup_nil, nofun⟩
  | append_singleton events event ih =>
      have few' := few_of_concat few
      rw [Client.entries, Client.answers, filterMap_log_concat, filterMap_log_concat, run_concat]
      exact (ih few').move (sound_run events) (ids_nodup few') (move_step _ event)

end Client
end PhaseHost
