import PhaseHost.Proofs.Client.Moves

/-! # The table of a client

    A call that waits for an outcome can only get it through the table, so the
    table must list every call that waits.  And whoever is listed must be able to
    take an outcome, or a second one would be handed to a call that has ended.

    `Tabled` ties the calls of a client to its table in both directions.  It holds
    however many calls there are: a call whose number comes round again is taken
    out of the table with an outcome, like any other.

    A table that is closed is empty and stays so, and then nobody waits. -/

namespace PhaseHost

/-- Whether a call at a stage waits for an outcome from the table. -/
def CallStage.isOpen : CallStage → Bool
  | .parked none => true
  | .waiting => true
  | _ => false

/-- Whether a call at a stage may be listed: it waits, or its caller has gone. -/
def CallStage.mayBeListed : CallStage → Bool
  | .abandoned => true
  | stage => stage.isOpen

namespace ClientCall

/-- A call has its number from the stage on at which it takes it. -/
def Coherent (call : ClientCall) : Prop :=
  match call.stage with
  | .fresh => call.id = none
  | .abandoned => True
  | _ => call.id.isSome = true

variable {call : ClientCall}

/-- An outcome that is handed to a call changes its stage at most. -/
theorem deliver_cases (outcome : Outcome) (call : ClientCall) :
    (call.stage = .parked none
      ∧ call.deliver outcome = { call with stage := .parked (some outcome) })
    ∨ (call.stage = .waiting ∧ call.deliver outcome = { call with stage := .settled outcome })
    ∨ (call.stage.isOpen = false ∧ call.deliver outcome = call) := by
  obtain ⟨action, id, stage⟩ := call
  cases stage with
  | parked early =>
      cases early with
      | none => exact Or.inl ⟨rfl, rfl⟩
      | some _ => exact Or.inr (Or.inr ⟨rfl, rfl⟩)
  | waiting => exact Or.inr (Or.inl ⟨rfl, rfl⟩)
  | fresh => exact Or.inr (Or.inr ⟨rfl, rfl⟩)
  | numbered => exact Or.inr (Or.inr ⟨rfl, rfl⟩)
  | settled _ => exact Or.inr (Or.inr ⟨rfl, rfl⟩)
  | abandoned => exact Or.inr (Or.inr ⟨rfl, rfl⟩)

@[simp] theorem deliver_id (outcome : Outcome) (call : ClientCall) :
    (call.deliver outcome).id = call.id := by
  rcases deliver_cases outcome call with ⟨-, h⟩ | ⟨-, h⟩ | ⟨-, h⟩ <;> rw [h]

/-- A call that has got an outcome waits no more. -/
@[simp] theorem deliver_isOpen (outcome : Outcome) (call : ClientCall) :
    (call.deliver outcome).stage.isOpen = false := by
  rcases deliver_cases outcome call with ⟨-, h⟩ | ⟨-, h⟩ | ⟨hopen, h⟩ <;> rw [h]
  · rfl
  · rfl
  · exact hopen

/-- A call that has been handed an outcome takes no second one. -/
theorem deliver_deliver (outcome outcome' : Outcome) (call : ClientCall) :
    (call.deliver outcome).deliver outcome' = call.deliver outcome := by
  have hopen := deliver_isOpen outcome call
  rcases deliver_cases outcome' (call.deliver outcome) with ⟨h, -⟩ | ⟨h, -⟩ | ⟨-, h⟩
  · rw [h] at hopen
    exact nomatch hopen
  · rw [h] at hopen
    exact nomatch hopen
  · exact h

/-- A call stays in step with its stage when it gets an outcome. -/
theorem Coherent.deliver (h : call.Coherent) (outcome : Outcome) :
    (call.deliver outcome).Coherent := by
  rcases deliver_cases outcome call with ⟨hs, heq⟩ | ⟨hs, heq⟩ | ⟨-, heq⟩ <;> rw [heq]
  · simp only [Coherent, hs] at h
    exact h
  · simp only [Coherent, hs] at h
    exact h
  · exact h

end ClientCall

/-- A table lists the calls that wait, each under its number, and nobody else
    but calls whose callers have gone. -/
structure Tabled (calls : List ClientCall) (table : List (UInt64 × Nat)) : Prop where
  coherent : ∀ (n : Nat) call, calls[n]? = some call → call.Coherent
  keyed : Keyed table
  listed : ∀ id n, (id, n) ∈ table →
    ∃ call, calls[n]? = some call ∧ call.id = some id ∧ call.stage.mayBeListed = true
  kept : ∀ (n : Nat) call, calls[n]? = some call → call.stage.isOpen = true →
    ∃ id, call.id = some id ∧ (id, n) ∈ table

namespace Tabled

variable {calls : List ClientCall} {table : List (UInt64 × Nat)} {n m : Nat} {id : UInt64}
  {call call' : ClientCall}

/-- A call is listed under its own number only. -/
theorem id_eq (h : Tabled calls table) (here : calls[n]? = some call) (hmem : (id, n) ∈ table) :
    call.id = some id := by
  obtain ⟨call', here', hid, -⟩ := h.listed id n hmem
  rw [Option.some.inj (here.symm.trans here')]
  exact hid

/-- Only a call that may be listed is. -/
theorem mayBeListed (h : Tabled calls table) (here : calls[n]? = some call)
    (hmem : (id, n) ∈ table) : call.stage.mayBeListed = true := by
  obtain ⟨call', here', -, hstage⟩ := h.listed id n hmem
  rw [Option.some.inj (here.symm.trans here')]
  exact hstage

/-- What must be seen to when one call is changed. -/
theorem set (h : Tabled calls table) (here : calls[n]? = some call) (hcoh : call'.Coherent)
    (hlisted : ∀ id, (id, n) ∈ table → call'.id = some id ∧ call'.stage.mayBeListed = true)
    (hkept : call'.stage.isOpen = true → ∃ id, call'.id = some id ∧ (id, n) ∈ table) :
    Tabled (calls.set n call') table := by
  have hn : n < calls.length := (List.getElem?_eq_some_iff.mp here).1
  refine ⟨?_, h.keyed, ?_, ?_⟩
  · intro m b hb
    by_cases hnm : n = m
    · subst hnm
      rw [List.getElem?_set_self hn] at hb
      cases hb
      exact hcoh
    · rw [List.getElem?_set_ne hnm] at hb
      exact h.coherent m b hb
  · intro id m hmem
    by_cases hnm : n = m
    · subst hnm
      obtain ⟨hid, hstage⟩ := hlisted id hmem
      exact ⟨call', List.getElem?_set_self hn, hid, hstage⟩
    · rw [List.getElem?_set_ne hnm]
      exact h.listed id m hmem
  · intro m b hb hopen
    by_cases hnm : n = m
    · subst hnm
      rw [List.getElem?_set_self hn] at hb
      cases hb
      exact hkept hopen
    · rw [List.getElem?_set_ne hnm] at hb
      exact h.kept m b hb hopen

/-- A call that is not listed may go on to any stage at which it does not wait. -/
theorem set_unlisted (h : Tabled calls table) (here : calls[n]? = some call)
    (hno : call.stage.mayBeListed = false) (hcoh : call'.Coherent)
    (hshut : call'.stage.isOpen = false) : Tabled (calls.set n call') table := by
  refine h.set here hcoh ?_ ?_
  · intro id hmem
    rw [h.mayBeListed here hmem] at hno
    exact nomatch hno
  · intro hopen
    rw [hshut] at hopen
    exact nomatch hopen

/-- A new call is not listed. -/
theorem concat (h : Tabled calls table) (action : Action) :
    Tabled (calls ++ [⟨action, none, .fresh⟩]) table := by
  refine ⟨?_, h.keyed, ?_, ?_⟩
  · intro m b hb
    rcases getElem?_concat_iff.mp hb with hb | ⟨-, rfl⟩
    · exact h.coherent m b hb
    · exact rfl
  · intro id m hmem
    obtain ⟨b, hb, hid, hstage⟩ := h.listed id m hmem
    exact ⟨b, getElem?_concat_iff.mpr (Or.inl hb), hid, hstage⟩
  · intro m b hb hopen
    rcases getElem?_concat_iff.mp hb with hb | ⟨-, rfl⟩
    · exact h.kept m b hb hopen
    · exact nomatch hopen

/-- Taking an entry out is safe once its call has been handed an outcome. -/
theorem release (h : Tabled calls table) (here : calls[n]? = some call)
    (hmem : (id, n) ∈ table) (outcome : Outcome) :
    Tabled (calls.set n (call.deliver outcome)) (table.filter (fun p => p.1 ≠ id)) := by
  have hn : n < calls.length := (List.getElem?_eq_some_iff.mp here).1
  have hid : call.id = some id := h.id_eq here hmem
  refine ⟨?_, h.keyed.filter _, ?_, ?_⟩
  · intro m b hb
    by_cases hnm : n = m
    · subst hnm
      rw [List.getElem?_set_self hn] at hb
      cases hb
      exact (h.coherent n call here).deliver outcome
    · rw [List.getElem?_set_ne hnm] at hb
      exact h.coherent m b hb
  · intro id' m hmem'
    obtain ⟨hmem', hne⟩ := Keyed.mem_filter_ne.mp hmem'
    have hnm : n ≠ m := by
      rintro rfl
      exact hne (Option.some.inj ((h.id_eq here hmem').symm.trans hid))
    rw [List.getElem?_set_ne hnm]
    exact h.listed id' m hmem'
  · intro m b hb hopen
    by_cases hnm : n = m
    · subst hnm
      rw [List.getElem?_set_self hn] at hb
      cases hb
      rw [ClientCall.deliver_isOpen] at hopen
      exact nomatch hopen
    · rw [List.getElem?_set_ne hnm] at hb
      obtain ⟨id', hid', hmem'⟩ := h.kept m b hb hopen
      refine ⟨id', hid', Keyed.mem_filter_ne.mpr ⟨hmem', ?_⟩⟩
      rintro rfl
      exact hnm (h.keyed.unique hmem hmem')

/-- A call is listed under a number that is free. -/
theorem enlist (h : Tabled calls table) {action : Action}
    (here : calls[n]? = some ⟨action, some id, .numbered⟩) (hfree : ∀ m, (id, m) ∉ table) :
    Tabled (calls.set n ⟨action, some id, .parked none⟩) ((id, n) :: table) := by
  have hn : n < calls.length := (List.getElem?_eq_some_iff.mp here).1
  refine ⟨?_, h.keyed.cons hfree, ?_, ?_⟩
  · intro m b hb
    by_cases hnm : n = m
    · subst hnm
      rw [List.getElem?_set_self hn] at hb
      cases hb
      exact rfl
    · rw [List.getElem?_set_ne hnm] at hb
      exact h.coherent m b hb
  · intro id' m hmem'
    rcases List.mem_cons.mp hmem' with heq | hmem'
    · cases heq
      exact ⟨_, List.getElem?_set_self hn, rfl, rfl⟩
    · have hnm : n ≠ m := by
        rintro rfl
        exact nomatch h.mayBeListed here hmem'
      rw [List.getElem?_set_ne hnm]
      exact h.listed id' m hmem'
  · intro m b hb hopen
    by_cases hnm : n = m
    · subst hnm
      rw [List.getElem?_set_self hn] at hb
      cases hb
      exact ⟨id, rfl, List.mem_cons_self⟩
    · rw [List.getElem?_set_ne hnm] at hb
      obtain ⟨id', hid', hmem'⟩ := h.kept m b hb hopen
      exact ⟨id', hid', List.mem_cons_of_mem _ hmem'⟩

/-- Handing an outcome to everybody listed, in whatever order. -/
theorem getElem?_deliverAll (outcome : Outcome) (entries : List (UInt64 × Nat))
    (calls : List ClientCall) (m : Nat) :
    (entries.foldl (fun calls p => calls.modify p.2 (ClientCall.deliver outcome)) calls)[m]?
      = (calls[m]?).map (fun call =>
          if m ∈ entries.map Prod.snd then call.deliver outcome else call) := by
  induction entries generalizing calls with
  | nil => exact Option.map_id'.symm
  | cons p entries ih =>
      rw [List.foldl_cons, ih, List.getElem?_modify, Option.map_eq_map, Option.map_map]
      refine congrArg (fun f => Option.map f calls[m]?) (funext fun call => ?_)
      rw [Function.comp_apply, List.map_cons]
      by_cases hpm : p.2 = m
      · -- whoever is listed twice is handed the outcome once
        rw [if_pos hpm, if_pos (List.mem_cons.mpr (Or.inl hpm.symm)),
          ClientCall.deliver_deliver, ite_self]
      · rw [if_neg hpm]
        by_cases hm : m ∈ entries.map Prod.snd
        · rw [if_pos hm, if_pos (List.mem_cons_of_mem _ hm)]
        · have hcons : m ∉ p.2 :: entries.map Prod.snd := by
            rw [List.mem_cons, not_or]
            exact ⟨fun heq => hpm heq.symm, hm⟩
          rw [if_neg hm, if_neg hcons]

/-- Once everybody listed has been handed an outcome, the table may be emptied. -/
theorem drain (h : Tabled calls table) (outcome : Outcome) :
    Tabled (table.foldl (fun calls p => calls.modify p.2 (ClientCall.deliver outcome)) calls)
      [] := by
  refine ⟨?_, Keyed.nil, nofun, ?_⟩
  · intro m b hb
    rw [getElem?_deliverAll] at hb
    obtain ⟨call, here, rfl⟩ := Option.map_eq_some_iff.mp hb
    split
    · exact (h.coherent m call here).deliver outcome
    · exact h.coherent m call here
  · intro m b hb hopen
    rw [getElem?_deliverAll] at hb
    obtain ⟨call, here, rfl⟩ := Option.map_eq_some_iff.mp hb
    split at hopen
    · rw [ClientCall.deliver_isOpen] at hopen
      exact nomatch hopen
    next hno =>
      -- a call that waits is listed
      obtain ⟨id, -, hmem⟩ := h.kept m call here hopen
      exact absurd (List.mem_map.mpr ⟨_, hmem, rfl⟩) hno

end Tabled

namespace Client

variable {c c' : Client} {event : ClientEvent} {note : Option ClientNote} {n : Nat} {id : UInt64}

/-- What holds of every client that a run reaches. -/
structure Sound (c : Client) : Prop where
  tabled : Tabled c.calls c.pending
  shut : c.closed = true → c.pending = [] ∧ c.repliesOpen = false ∧ c.arrived = []

theorem sound_empty : empty.Sound where
  tabled := ⟨fun _ _ h => (nomatch h), Keyed.nil, nofun, fun _ _ h => nomatch h⟩
  shut := nofun

/-! ## Taking a number out of the table -/

/-- Releasing a number hands its call the outcome. -/
theorem release_of_listed (h : Tabled c.calls c.pending) {call : ClientCall}
    (here : c.calls[n]? = some call) (hmem : (id, n) ∈ c.pending) (outcome : Outcome) :
    c.release id outcome
      = { c with
          calls := c.calls.set n (call.deliver outcome)
          pending := c.pending.filter (fun p => p.1 ≠ id) } := by
  simp only [release]
  rw [h.keyed.find?_iff.mpr hmem]
  dsimp only [modifyCall]
  rw [modify_eq_set _ here]

/-- Releasing a number that is not listed does nothing. -/
theorem release_of_unlisted (hno : ∀ m, (id, m) ∉ c.pending) (outcome : Outcome) :
    c.release id outcome = c := by
  simp only [release]
  rw [Keyed.find?_eq_none hno]

/-- What the release of a number leaves: the number is free, the other entries are
    as they were, and the calls have at most been handed the outcome. -/
structure Released (c : Client) (id : UInt64) (outcome : Outcome) (c' : Client) : Prop where
  tabled : Tabled c'.calls c'.pending
  mem_iff : ∀ p, p ∈ c'.pending ↔ p ∈ c.pending ∧ p.1 ≠ id
  told : ∀ (m : Nat) call, c.calls[m]? = some call → (id, m) ∈ c.pending →
    c'.calls[m]? = some (call.deliver outcome)
  others : ∀ (m : Nat), (id, m) ∉ c.pending → c'.calls[m]? = c.calls[m]?
  ids : c'.calls.map ClientCall.id = c.calls.map ClientCall.id

/-- **A NUMBER IS RELEASED**, and nothing else changes. -/
theorem released (h : Tabled c.calls c.pending) (id : UInt64) (outcome : Outcome) :
    Released c id outcome (c.release id outcome) := by
  by_cases hex : ∃ m, (id, m) ∈ c.pending
  · obtain ⟨n, hmem⟩ := hex
    obtain ⟨call, here, -, -⟩ := h.listed id n hmem
    have hn : n < c.calls.length := (List.getElem?_eq_some_iff.mp here).1
    rw [release_of_listed h here hmem]
    refine ⟨h.release here hmem outcome, fun p => Keyed.mem_filter_ne, ?_, ?_,
      map_set_eq here (ClientCall.deliver_id outcome call)⟩
    · intro m b hb hm
      obtain rfl := h.keyed.unique hmem hm
      obtain rfl := Option.some.inj (here.symm.trans hb)
      exact List.getElem?_set_self hn
    · intro m hm
      refine List.getElem?_set_ne ?_
      rintro rfl
      exact hm hmem
  · have hno := not_exists.mp hex
    rw [release_of_unlisted hno]
    refine ⟨h, ?_, fun m _ _ hm => absurd hm (hno m), fun _ _ => rfl, rfl⟩
    intro p
    refine ⟨fun hp => ⟨hp, ?_⟩, And.left⟩
    rintro rfl
    exact hno p.2 hp

/-- A number that was released is free. -/
theorem Released.free {outcome : Outcome} (h : Released c id outcome c') (m : Nat) :
    (id, m) ∉ c'.pending :=
  fun hm => ((h.mem_iff _).mp hm).2 rfl

/-- A call that is being handed over stays so when its number is released. -/
theorem Released.parked {outcome : Outcome} (h : Released c id outcome c') {m : Nat}
    {action : Action} {id' : UInt64} {early : Option Outcome}
    (here : c.calls[m]? = some ⟨action, some id', .parked early⟩) :
    ∃ early', c'.calls[m]? = some ⟨action, some id', .parked early'⟩ := by
  by_cases hmem : (id, m) ∈ c.pending
  · rw [h.told m _ here hmem]
    cases early with
    | none => exact ⟨_, rfl⟩
    | some told => exact ⟨_, rfl⟩
  · exact ⟨early, (h.others m hmem).trans here⟩

/-! ## Preservation -/

/-- Listing a numbered call leaves an open client sound. -/
theorem Sound.enlist (h : c.Sound) {action : Action}
    (here : c.calls[n]? = some ⟨action, some id, .numbered⟩) (unshut : c.closed = false) :
    (c.enlist n action id).Sound := by
  have hreleased := released h.tabled id (.error .disconnected)
  -- the call itself is not listed yet, so it is none that gives way
  have hunlisted : (id, n) ∉ c.pending := by
    intro hmem
    exact nomatch h.tabled.mayBeListed here hmem
  have here' := (hreleased.others n hunlisted).trans here
  refine ⟨hreleased.tabled.enlist here' hreleased.free, ?_⟩
  intro hshut
  have hclosed : (c.release id (.error .disconnected)).closed = c.closed := by
    rw [release_rest]
  change (c.release id (.error .disconnected)).closed = true at hshut
  rw [hclosed, unshut] at hshut
  exact nomatch hshut

/-- A call that cannot be handed over leaves the client sound. -/
theorem Sound.miss (h : c.Sound) {action : Action} {early : Option Outcome}
    (here : c.calls[n]? = some ⟨action, some id, .parked early⟩) :
    ((c.release id (.error .disconnected)).finish n (.error .disconnected)).Sound := by
  have hreleased := released h.tabled id (.error .disconnected)
  obtain ⟨early', here'⟩ := hreleased.parked here
  rw [finish_eq here']
  refine ⟨?_, ?_⟩
  · refine hreleased.tabled.set here' rfl ?_ nofun
    intro id' hmem
    -- the only number of the call is the one that was released
    obtain rfl : id = id' := Option.some.inj (hreleased.tabled.id_eq here' hmem)
    exact absurd hmem (hreleased.free n)
  · intro hshut
    rw [release_rest] at hshut ⊢
    obtain ⟨hpending, hreplies, harrived⟩ := h.shut hshut
    refine ⟨List.eq_nil_iff_forall_not_mem.mpr ?_, hreplies, harrived⟩
    intro p hp
    have hp' := ((hreleased.mem_iff p).mp hp).1
    rw [hpending] at hp'
    exact nomatch hp'

/-- **SOUNDNESS** survives every move. -/
theorem Sound.move (h : c.Sound) (hmove : Move c event note c') : c'.Sound := by
  cases hmove with
  | stay => exact h
  | call action => exact ⟨h.tabled.concat action, h.shut⟩
  | take fresh => exact ⟨h.tabled.set_unlisted fresh rfl rfl rfl, h.shut⟩
  | turnAway here shut => exact ⟨h.tabled.set_unlisted here rfl rfl rfl, h.shut⟩
  | enlist here unshut => exact h.enlist here unshut
  | handTold here listens => exact ⟨h.tabled.set_unlisted here rfl rfl rfl, h.shut⟩
  | miss here gone => exact h.miss here
  | @hand n action id here listens =>
      -- the call waits before and after, so it is listed before and after
      refine ⟨h.tabled.set here rfl ?_ ?_, h.shut⟩
      · intro id' hmem
        have hid := h.tabled.id_eq here hmem
        exact ⟨hid, rfl⟩
      · intro _
        have hkept := h.tabled.kept n _ here rfl
        exact hkept
  | @abandon n call here waits =>
      refine ⟨h.tabled.set here trivial ?_ nofun, h.shut⟩
      intro id' hmem
      have hid := h.tabled.id_eq here hmem
      exact ⟨hid, rfl⟩
  | arrive comes =>
      refine ⟨h.tabled, ?_⟩
      intro hshut
      rw [(h.shut hshut).2.1] at comes
      exact nomatch comes
  | @answer frame rest r oldest answers =>
      have htabled : Tabled ({ c with arrived := rest } : Client).calls
        ({ c with arrived := rest } : Client).pending := h.tabled
      have hreleased := released htabled r.id r.outcome
      refine ⟨hreleased.tabled, ?_⟩
      intro hshut
      rw [release_rest] at hshut
      rw [(h.shut hshut).2.2] at oldest
      exact nomatch oldest
  | pass oldest unanswered =>
      refine ⟨h.tabled, ?_⟩
      intro hshut
      rw [(h.shut hshut).2.2] at oldest
      exact nomatch oldest
  | closeReplies => exact ⟨h.tabled, fun hs => ⟨(h.shut hs).1, rfl, (h.shut hs).2.2⟩⟩
  | drain closing dry unshut => exact ⟨h.tabled.drain _, fun _ => ⟨rfl, closing, dry⟩⟩
  | hangUp => exact ⟨h.tabled, h.shut⟩

/-- **EVERY CLIENT** that a run reaches is sound. -/
theorem sound_run (events : List ClientEvent) : (empty.run events).Sound := by
  induction events using List.reverseRecOn with
  | nil => exact sound_empty
  | append_singleton events event ih =>
      rw [run_concat]
      exact ih.move (move_step _ event)

end Client
end PhaseHost
