import PhaseHost.Proofs.Client.Table

/-! # How a call goes on

    One event can change several calls: whoever is listed under a number that is
    released is handed an outcome, and a closing table hands one to everybody.
    But each single call takes at most one step, and `Client.Goes` lists the steps
    with their causes.  What a call keeps, and what it can be told and by whom, is
    read off that list.

    A call can be TOLD its outcome before it has handed its frame over; it ends
    with that outcome once it has, unless there is nobody to hand it to. -/

namespace PhaseHost

/-- The outcome a call has been handed, whether or not it has ended with it yet. -/
def CallStage.told? : CallStage → Option Outcome
  | .parked early => early
  | .settled outcome => some outcome
  | _ => none

namespace ClientCall

/-- What a call keeps all along: its action, its number and its outcome. -/
structure Keeps (call call' : ClientCall) : Prop where
  action : call'.action = call.action
  id : ∀ id, call.id = some id → call'.id = some id
  outcome : ∀ outcome, call.outcome? = some outcome → call'.outcome? = some outcome

variable {call call' call'' : ClientCall}

/-- A call has an outcome exactly if it is settled. -/
theorem outcome?_eq_some_iff {outcome : Outcome} :
    call.outcome? = some outcome ↔ call.stage = .settled outcome := by
  obtain ⟨action, id, stage⟩ := call
  constructor
  · intro hout
    cases stage with
    | settled told => exact congrArg CallStage.settled (Option.some.inj hout)
    | fresh => exact nomatch hout
    | numbered => exact nomatch hout
    | parked early => exact nomatch hout
    | waiting => exact nomatch hout
    | abandoned => exact nomatch hout
  · rintro rfl
    rfl

theorem Keeps.refl (call : ClientCall) : Keeps call call :=
  ⟨rfl, fun _ h => h, fun _ h => h⟩

theorem Keeps.trans (h : Keeps call call') (h' : Keeps call' call'') : Keeps call call'' :=
  ⟨h'.action.trans h.action, fun id hid => h'.id id (h.id id hid),
    fun outcome ho => h'.outcome outcome (h.outcome outcome ho)⟩

/-- A call that has not ended keeps what it is when only its stage changes. -/
theorem Keeps.stage (hout : call.outcome? = none) (stage : CallStage) :
    Keeps call { call with stage := stage } := by
  refine ⟨rfl, fun _ h => h, ?_⟩
  intro outcome ho
  rw [hout] at ho
  exact nomatch ho

theorem Keeps.deliver (outcome : Outcome) (call : ClientCall) :
    Keeps call (call.deliver outcome) := by
  rcases deliver_cases outcome call with ⟨hs, h⟩ | ⟨hs, h⟩ | ⟨-, h⟩ <;> rw [h]
  · exact .stage (by simp only [outcome?, hs]) _
  · exact .stage (by simp only [outcome?, hs]) _
  · exact .refl call

/-- Whoever may be listed is told the outcome that is handed over, unless the
    caller has gone. -/
theorem told?_deliver (outcome : Outcome) (h : call.stage.mayBeListed = true) :
    (call.deliver outcome).stage.told? = some outcome
      ∨ (call.deliver outcome).stage = .abandoned := by
  obtain ⟨action, id, stage⟩ := call
  cases stage with
  | parked early =>
      cases early with
      | none => exact Or.inl rfl
      | some _ => exact nomatch h
  | waiting => exact Or.inl rfl
  | abandoned => exact Or.inr rfl
  | fresh => exact nomatch h
  | numbered => exact nomatch h
  | settled _ => exact nomatch h

/-- Nobody is told anything but what is handed over. -/
theorem told?_of_deliver {outcome outcome' : Outcome}
    (h : (call.deliver outcome).stage.told? = some outcome') :
    call.stage.told? = some outcome' ∨ outcome' = outcome := by
  rcases deliver_cases outcome call with ⟨-, heq⟩ | ⟨-, heq⟩ | ⟨-, heq⟩ <;> rw [heq] at h
  · exact Or.inr (Option.some.inj h).symm
  · exact Or.inr (Option.some.inj h).symm
  · exact Or.inl h

/-- Whoever has been told an outcome is told nothing else. -/
theorem deliver_of_told? {outcome outcome' : Outcome} (h : call.stage.told? = some outcome) :
    call.deliver outcome' = call := by
  rcases deliver_cases outcome' call with ⟨hs, -⟩ | ⟨hs, -⟩ | ⟨-, heq⟩
  · rw [hs] at h
    exact nomatch h
  · rw [hs] at h
    exact nomatch h
  · exact heq

/-- Nothing is delivered to a call that its caller has left. -/
theorem deliver_of_abandoned (outcome : Outcome) (h : call.stage = .abandoned) :
    call.deliver outcome = call := by
  simp only [deliver, h]

end ClientCall

namespace Client

/-- How an event can change the `n`-th call, given what is noted of it. -/
inductive Goes (c : Client) (note : Option ClientNote) (n : Nat) :
    ClientCall → ClientCall → Prop
  | rest (call) : Goes c note n call call
  | number {action} :
      Goes c note n ⟨action, none, .fresh⟩ ⟨action, some c.nextId, .numbered⟩
  | turnAway {action id} (shut : c.closed = true) :
      Goes c note n ⟨action, some id, .numbered⟩
        ⟨action, some id, .settled (.error .disconnected)⟩
  | enlist {action id} (unshut : c.closed = false) :
      Goes c note n ⟨action, some id, .numbered⟩ ⟨action, some id, .parked none⟩
  | hand {action id} :
      Goes c note n ⟨action, some id, .parked none⟩ ⟨action, some id, .waiting⟩
  | handTold {action id outcome} :
      Goes c note n ⟨action, some id, .parked (some outcome)⟩
        ⟨action, some id, .settled outcome⟩
  | miss {action id early} (gone : c.hostListens = false) :
      Goes c note n ⟨action, some id, .parked early⟩
        ⟨action, some id, .settled (.error .disconnected)⟩
  | abandon {call} (waits : call.outcome? = none) :
      Goes c note n call { call with stage := .abandoned }
  /-- A reply is handed to the call under its number. -/
  | answered {call frame r} (answers : note = some (.heard frame (some r)))
      (own : call.id = some r.id) : Goes c note n call (call.deliver r.outcome)
  /-- The table closes. -/
  | drained {call} (closing : c.repliesOpen = false) :
      Goes c note n call (call.deliver (.error .disconnected))
  /-- Another call of the same number takes the entry, or removes it. -/
  | displaced {call other : ClientCall} {id m} (own : call.id = some id) (elsewhere : m ≠ n)
      (there : c.calls[m]? = some other) (same : other.id = some id) :
      Goes c note n call (call.deliver (.error .disconnected))

variable {c c' : Client} {event : ClientEvent} {note : Option ClientNote} {n m : Nat}
  {call call' : ClientCall}

theorem goes_set {k : Nat} {b b' : ClientCall} (there : c.calls[k]? = some b)
    (hgoes : k = n → Goes c note n b b') (here : c.calls[n]? = some call) :
    ∃ call', (c.calls.set k b')[n]? = some call' ∧ Goes c note n call call' := by
  by_cases hkn : k = n
  · subst hkn
    obtain rfl := Option.some.inj (there.symm.trans here)
    exact ⟨b', List.getElem?_set_self (List.getElem?_eq_some_iff.mp there).1, hgoes rfl⟩
  · exact ⟨call, (List.getElem?_set_ne hkn).trans here, .rest call⟩

/-- The release of a number by one call, as another call sees it. -/
theorem Released.displaces {id : UInt64} {other : ClientCall}
    (h : Released c id (.error .disconnected) c') (hc : Tabled c.calls c.pending)
    (there : c.calls[m]? = some other) (same : other.id = some id)
    (elsewhere : m ≠ n) (here : c.calls[n]? = some call) :
    ∃ call', c'.calls[n]? = some call' ∧ Goes c note n call call' := by
  by_cases hmem : (id, n) ∈ c.pending
  · exact ⟨_, h.told n call here hmem, .displaced (hc.id_eq here hmem) elsewhere there same⟩
  · exact ⟨call, (h.others n hmem).trans here, .rest call⟩

/-- **ONE STEP A CALL**: whatever a move does, each call takes one of the steps. -/
theorem Move.goes (hmove : Move c event note c') (h : c.Sound)
    (here : c.calls[n]? = some call) :
    ∃ call', c'.calls[n]? = some call' ∧ Goes c note n call call' := by
  cases hmove with
  | stay => exact ⟨call, here, .rest call⟩
  | call action => exact ⟨call, getElem?_concat_iff.mpr (Or.inl here), .rest call⟩
  | @take k action id fresh =>
      -- a call that has not begun has no number yet
      obtain rfl : id = none := h.tabled.coherent k _ fresh
      exact goes_set fresh (fun _ => .number) here
  | turnAway there shut => exact goes_set there (fun _ => .turnAway shut) here
  | @enlist k action id there unshut =>
      have hreleased := released h.tabled id (.error .disconnected)
      have hunlisted : (id, k) ∉ c.pending := by
        intro hmem
        exact nomatch h.tabled.mayBeListed there hmem
      have there' := (hreleased.others k hunlisted).trans there
      show ∃ call', ((c.release id _).calls.set k _)[n]? = some call' ∧ _
      by_cases hkn : k = n
      · subst hkn
        obtain rfl := Option.some.inj (there.symm.trans here)
        exact ⟨_, List.getElem?_set_self (List.getElem?_eq_some_iff.mp there').1,
          .enlist unshut⟩
      · rw [List.getElem?_set_ne hkn]
        exact hreleased.displaces h.tabled there rfl hkn here
  | hand there listens => exact goes_set there (fun _ => .hand) here
  | handTold there listens => exact goes_set there (fun _ => .handTold) here
  | @miss k action id early there gone =>
      have hreleased := released h.tabled id (.error .disconnected)
      obtain ⟨early', there'⟩ := hreleased.parked there
      rw [finish_eq there']
      show ∃ call', ((c.release id _).calls.set k _)[n]? = some call' ∧ _
      by_cases hkn : k = n
      · subst hkn
        obtain rfl := Option.some.inj (there.symm.trans here)
        exact ⟨_, List.getElem?_set_self (List.getElem?_eq_some_iff.mp there').1, .miss gone⟩
      · rw [List.getElem?_set_ne hkn]
        exact hreleased.displaces h.tabled there rfl hkn here
  | abandon there waits => exact goes_set there (fun _ => .abandon waits) here
  | arrive comes => exact ⟨call, here, .rest call⟩
  | @answer frame rest r oldest answers =>
      have htabled : Tabled ({ c with arrived := rest } : Client).calls
        ({ c with arrived := rest } : Client).pending := h.tabled
      have hreleased := released htabled r.id r.outcome
      by_cases hmem : (r.id, n) ∈ c.pending
      · exact ⟨_, hreleased.told n call here hmem, .answered rfl (h.tabled.id_eq here hmem)⟩
      · exact ⟨call, (hreleased.others n hmem).trans here, .rest call⟩
  | pass oldest unanswered => exact ⟨call, here, .rest call⟩
  | closeReplies => exact ⟨call, here, .rest call⟩
  | drain closing dry unshut =>
      refine ⟨_, (Tabled.getElem?_deliverAll _ _ _ n).trans (by rw [here]; rfl), ?_⟩
      split
      · exact .drained closing
      · exact .rest call
  | hangUp => exact ⟨call, here, .rest call⟩

/-- A call keeps its action, its number and its outcome. -/
theorem Goes.keeps (h : Goes c note n call call') : call.Keeps call' := by
  cases h with
  | rest => exact .refl call
  | number => exact ⟨rfl, nofun, nofun⟩
  | turnAway shut => exact .stage rfl _
  | enlist unshut => exact .stage rfl _
  | hand => exact .stage rfl _
  | handTold => exact .stage rfl _
  | miss gone => exact .stage rfl _
  | abandon waits => exact .stage waits _
  | answered answers own => exact .deliver _ call
  | drained closing => exact .deliver _ call
  | displaced own elsewhere there same => exact .deliver _ call

/-- A call whose caller has gone stays as it is. -/
theorem Goes.abandoned (h : Goes c note n call call') (hs : call.stage = .abandoned) :
    call' = call := by
  cases h with
  | rest => rfl
  | number => exact nomatch hs
  | turnAway shut => exact nomatch hs
  | enlist unshut => exact nomatch hs
  | hand => exact nomatch hs
  | handTold => exact nomatch hs
  | miss gone => exact nomatch hs
  | abandon waits =>
      rw [← hs]
  | answered answers own => exact ClientCall.deliver_of_abandoned _ hs
  | drained closing => exact ClientCall.deliver_of_abandoned _ hs
  | displaced own elsewhere there same => exact ClientCall.deliver_of_abandoned _ hs

/-- What a call has been told it goes on to end with, unless its caller goes or
    there is nobody to hand its frame to. -/
theorem Goes.told (h : Goes c note n call call') {outcome : Outcome}
    (ht : call.stage.told? = some outcome) :
    call'.stage.told? = some outcome ∨ call'.stage = .abandoned
      ∨ (c.hostListens = false ∧ call'.stage = .settled (.error .disconnected)) := by
  cases h with
  | rest => exact Or.inl ht
  | number => exact nomatch ht
  | turnAway shut => exact nomatch ht
  | enlist unshut => exact nomatch ht
  | hand => exact nomatch ht
  | handTold => exact Or.inl ht
  | miss gone => exact Or.inr (Or.inr ⟨gone, rfl⟩)
  | abandon waits => exact Or.inr (Or.inl rfl)
  | answered answers own => exact Or.inl (by rw [ClientCall.deliver_of_told? ht]; exact ht)
  | drained closing => exact Or.inl (by rw [ClientCall.deliver_of_told? ht]; exact ht)
  | displaced own elsewhere there same =>
      exact Or.inl (by rw [ClientCall.deliver_of_told? ht]; exact ht)

/-- Whoever is told an outcome was told it before, or is told it by the reply that
    is looked at, or is cut off. -/
theorem Goes.told_from (h : Goes c note n call call') {outcome : Outcome}
    (ht : call'.stage.told? = some outcome) :
    call.stage.told? = some outcome
    ∨ (∃ frame r, note = some (.heard frame (some r)) ∧ call.id = some r.id
        ∧ outcome = r.outcome)
    ∨ (outcome = .error .disconnected
        ∧ (c.closed = true ∨ c.repliesOpen = false ∨ c.hostListens = false
          ∨ ∃ m other id, m ≠ n ∧ c.calls[m]? = some other ∧ other.id = some id
            ∧ call.id = some id)) := by
  cases h with
  | rest => exact Or.inl ht
  | number => exact nomatch ht
  | turnAway shut => exact Or.inr (Or.inr ⟨(Option.some.inj ht).symm, Or.inl shut⟩)
  | enlist unshut => exact nomatch ht
  | hand => exact nomatch ht
  | handTold => exact Or.inl ht
  | miss gone =>
      exact Or.inr (Or.inr ⟨(Option.some.inj ht).symm, Or.inr (Or.inr (Or.inl gone))⟩)
  | abandon waits => exact nomatch ht
  | @answered _ frame r answers own =>
      rcases ClientCall.told?_of_deliver ht with hold | hnew
      · exact Or.inl hold
      · exact Or.inr (Or.inl ⟨frame, r, answers, own, hnew⟩)
  | drained closing =>
      rcases ClientCall.told?_of_deliver ht with hold | hnew
      · exact Or.inl hold
      · exact Or.inr (Or.inr ⟨hnew, Or.inr (Or.inl closing)⟩)
  | @displaced _ other id m own elsewhere there same =>
      rcases ClientCall.told?_of_deliver ht with hold | hnew
      · exact Or.inl hold
      · exact Or.inr (Or.inr ⟨hnew, Or.inr (Or.inr (Or.inr
          ⟨m, other, id, elsewhere, there, same, own⟩))⟩)

/-- Whatever happens, calls keep their actions, numbers and outcomes. -/
theorem keeps_run (h : c.Sound) (here : c.calls[n]? = some call) (events : List ClientEvent) :
    ∃ call', (c.run events).calls[n]? = some call' ∧ call.Keeps call' := by
  induction events generalizing c call with
  | nil => exact ⟨call, here, .refl call⟩
  | cons event rest ih =>
      have hmove := move_step c event
      obtain ⟨call', here', hgoes⟩ := hmove.goes h here
      obtain ⟨call'', here'', hkeeps⟩ := ih (h.move hmove) here'
      exact ⟨call'', here'', hgoes.keeps.trans hkeeps⟩

/-- The outcome of the `n`-th call. -/
def outcome? (c : Client) (n : Nat) : Option Outcome :=
  (c.calls[n]?).bind ClientCall.outcome?

/-- An outcome stays. -/
theorem outcome?_run (h : c.Sound) {outcome : Outcome} (ho : c.outcome? n = some outcome)
    (events : List ClientEvent) : (c.run events).outcome? n = some outcome := by
  obtain ⟨call, here, hout⟩ := Option.bind_eq_some_iff.mp ho
  obtain ⟨call', here', hkeeps⟩ := keeps_run h here events
  exact Option.bind_eq_some_iff.mpr ⟨call', here', hkeeps.outcome outcome hout⟩

end Client
end PhaseHost
