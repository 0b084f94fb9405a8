import PhaseHost.Proofs.Client.Closing
import PhaseHost.Proofs.Wire.ReadBack

/-! # Replies are heard as they were meant

    A host writes a reply, the frame comes in and waits in the queue of a client, and
    when the client looks at it, it settles the call that is listed under its number.
    What the call ends with is what the host meant, for every value and every text.

    One thing is lost on the way.  A result of `null` is written, but it is read as no
    result; and as no result stands for `null`, nothing is lost in the end.  So a reply
    that is read need not be the reply that was written, but for replies without such a
    result it is.

    Much can happen between the arrival of the frame and the look at it: other calls are
    made, other frames come in, the channel closes.  `Due` is what all of this leaves
    as it is, and `Answered` is what the look makes of it.  Only a call that takes the
    same number, after all numbers have been given, could come in between; a call has no
    RIVAL if every other call of its number is over. -/

namespace PhaseHost

namespace Reply

variable {r : Reply}

/-- Nothing is lost of a reply whose result is not `null`. -/
theorem heard_eq_self (h : r.result ≠ some .null) : r.heard = r := by
  obtain ⟨id, success, result, error, code⟩ := r
  cases result with
  | none => rfl
  | some v =>
      have hv : v ≠ .null := fun heq => h (congrArg some heq)
      simp only [heard, Option.filter_some, decide_eq_true hv, if_true]

@[simp] theorem heard_id (r : Reply) : r.heard.id = r.id := rfl

/-- The value of a successful reply is written, whatever it is. -/
theorem get?_toJson_ok (id : UInt64) (v : Json) : (ok id v).toJson.get? "result" = some v := by
  have hkeys : ((record.pairs (ok id v).values).map Prod.fst).Nodup := by
    show ["id", "success", "result"].Nodup
    decide
  exact Fields.find?_ofList hkeys

end Reply

/-- Whether a call at a stage has ended, or nobody waits for it. -/
def CallStage.isOver : CallStage → Bool
  | .settled _ => true
  | .abandoned => true
  | _ => false

/-- A failure says that the host is not ready exactly if it has the code for that. -/
theorem CallError.isNotReady_remote_iff {code message : String} :
    (CallError.remote (some code) message).isNotReady = true
      ↔ code = FailureCode.notReady.text := by
  rw [isNotReady, decide_eq_true_iff]
  exact Option.some_inj

namespace Client

variable {c c' : Client} {event : ClientEvent} {note : Option ClientNote} {n m ahead : Nat}
  {id : UInt64} {call call' : ClientCall} {frame : Json} {r : Reply} {early : Prop}

/-! ## Rivals -/

/-- Every other call of a number is over. -/
def Unrivalled (c : Client) (n : Nat) (id : UInt64) : Prop :=
  ∀ (m : Nat) other, m ≠ n → c.calls[m]? = some other → other.id = some id →
    other.stage.isOver = true

/-- A call that has ended stays so. -/
theorem Goes.settled (h : Goes c note n call call') {outcome : Outcome}
    (hs : call.stage = .settled outcome) : call'.stage = .settled outcome := by
  have hout := h.keeps.outcome outcome (ClientCall.outcome?_eq_some_iff.mpr hs)
  exact ClientCall.outcome?_eq_some_iff.mp hout

/-- A call that is over stays so. -/
theorem Goes.isOver (h : Goes c note n call call') (hover : call.stage.isOver = true) :
    call'.stage.isOver = true := by
  cases hs : call.stage with
  | abandoned =>
      rw [h.abandoned hs]
      exact hover
  | settled outcome =>
      rw [h.settled hs]
      rfl
  | fresh => exact nomatch hs ▸ hover
  | numbered => exact nomatch hs ▸ hover
  | parked early => exact nomatch hs ▸ hover
  | waiting => exact nomatch hs ▸ hover

/-- A call that is over is over for good. -/
theorem isOver_run (h : c.Sound) (here : c.calls[n]? = some call)
    (hover : call.stage.isOver = true) (events : List ClientEvent) :
    ∃ call', (c.run events).calls[n]? = some call' ∧ call'.stage.isOver = true := by
  induction events generalizing c call with
  | nil => exact ⟨call, here, hover⟩
  | cons event rest ih =>
      have hmove := move_step c event
      obtain ⟨call', here', hgoes⟩ := hmove.goes h here
      exact ih (h.move hmove) here' (hgoes.isOver hover)

/-- Whoever has no rival in the end, but for calls that were over in the beginning, has
    none on the way. -/
theorem unrivalled_run (h : c.Sound) {events more : List ClientEvent}
    (alone : ∀ (m : Nat) other, m ≠ n → (c.run (events ++ more)).calls[m]? = some other →
      other.id = some id → ∃ first, c.calls[m]? = some first ∧ first.stage.isOver = true) :
    (c.run events).Unrivalled n id := by
  intro m other hne there hid
  obtain ⟨last, hlast, hkeeps⟩ := keeps_run (h.run events) there more
  rw [← run_append] at hlast
  obtain ⟨first, hfirst, hover⟩ := alone m last hne hlast (hkeeps.id id hid)
  obtain ⟨other', there', hover'⟩ := isOver_run h hfirst hover events
  obtain rfl := Option.some.inj (there.symm.trans there')
  exact hover'

/-- Until all numbers have been given once, no call has a rival. -/
theorem eq_of_few {events : List ClientEvent} (few : (empty.run events).calls.length < 2 ^ 64)
    {other : ClientCall} (here : (empty.run events).calls[n]? = some call)
    (own : call.id = some id) (there : (empty.run events).calls[m]? = some other)
    (hother : other.id = some id) : m = n :=
  index_unique (ids_nodup few) there here hother own

/-! ## A call that waits -/

/-- What can become of a call that waits while no frame is looked at. -/
inductive Fares (c : Client) (call : ClientCall) : ClientCall → Prop
  | rest : Fares c call call
  | hand (parked : call.stage = .parked none) : Fares c call { call with stage := .waiting }
  | miss (parked : call.stage = .parked none) (gone : c.hostListens = false) :
      Fares c call { call with stage := .settled (.error .disconnected) }
  | abandon : Fares c call { call with stage := .abandoned }

theorem fares_set {other other' : ClientCall} (there : c.calls[m]? = some other)
    (hfares : m = n → Fares c other other') (here : c.calls[n]? = some call) :
    ∃ call', (c.calls.set m other')[n]? = some call' ∧ Fares c call call' := by
  by_cases hmn : m = n
  · subst hmn
    obtain rfl := Option.some.inj (there.symm.trans here)
    exact ⟨other', List.getElem?_set_self (List.getElem?_eq_some_iff.mp there).1, hfares rfl⟩
  · exact ⟨call, (List.getElem?_set_ne hmn).trans here, .rest⟩

/-- A change of a call that does not wait is none of a call that waits. -/
theorem fares_set_shut {other other' : ClientCall} (there : c.calls[m]? = some other)
    (shut : other.stage.isOpen = false) (here : c.calls[n]? = some call)
    (hopen : call.stage.isOpen = true) :
    ∃ call', (c.calls.set m other')[n]? = some call' ∧ Fares c call call' := by
  refine fares_set there ?_ here
  rintro rfl
  obtain rfl := Option.some.inj (there.symm.trans here)
  rw [hopen] at shut
  exact nomatch shut

/-- A call without a rival is left alone when another call releases its own number. -/
theorem Unrivalled.release (hrivals : c.Unrivalled n id) (h : c.Sound)
    (here : c.calls[n]? = some call) (own : call.id = some id) {other : ClientCall} {id' : UInt64}
    (there : c.calls[m]? = some other) (hother : other.id = some id')
    (under : other.stage.isOver = false) (hne : m ≠ n) (outcome : Outcome) :
    (c.release id' outcome).calls[n]? = c.calls[n]? := by
  refine (released h.tabled id' outcome).others n ?_
  intro hmem
  -- if the call were listed under the number, the other would be a rival
  obtain rfl : id = id' := Option.some.inj (own.symm.trans (h.tabled.id_eq here hmem))
  rw [hrivals m other hne there hother] at under
  exact nomatch under

/-- **A CALL GOES ON WAITING** until a frame is looked at, unless its caller goes or there
    is nobody to hand its frame to.  A table that is not drained does not fail it. -/
theorem Move.fares (hmove : Move c event note c') (h : c.Sound) (hrivals : c.Unrivalled n id)
    (here : c.calls[n]? = some call) (own : call.id = some id)
    (hopen : call.stage.isOpen = true) (hsettle : event ≠ .settle) (hwet : c.arrived ≠ []) :
    ∃ call', c'.calls[n]? = some call' ∧ Fares c call call' := by
  cases hmove with
  | stay => exact ⟨call, here, .rest⟩
  | call action => exact ⟨call, getElem?_concat_iff.mpr (Or.inl here), .rest⟩
  | take fresh => exact fares_set_shut fresh rfl here hopen
  | turnAway there shut => exact fares_set_shut there rfl here hopen
  | handTold there listens => exact fares_set_shut there rfl here hopen
  | hand there listens => exact fares_set there (fun _ => .hand rfl) here
  | @enlist m action id' there unshut =>
      have hne : m ≠ n := by
        rintro rfl
        obtain rfl := Option.some.inj (there.symm.trans here)
        exact nomatch hopen
      refine ⟨call, ?_, .rest⟩
      show ((c.release id' _).calls.set m _)[n]? = _
      rw [List.getElem?_set_ne hne, hrivals.release h here own there rfl rfl hne]
      exact here
  | @miss m action id' early there gone =>
      obtain ⟨early', there'⟩ := (released h.tabled id' (.error .disconnected)).parked there
      rw [finish_eq there']
      by_cases hne : m = n
      · subst hne
        obtain rfl := Option.some.inj (there.symm.trans here)
        have hlt := (List.getElem?_eq_some_iff.mp there').1
        have hearly : early = none := by
          cases early with
          | none => rfl
          | some outcome => exact nomatch hopen
        exact ⟨_, List.getElem?_set_self hlt, .miss (congrArg CallStage.parked hearly) gone⟩
      · refine ⟨call, ?_, .rest⟩
        rw [List.getElem?_set_ne hne, hrivals.release h here own there rfl rfl hne]
        exact here
  | abandon there waits => exact fares_set there (fun _ => .abandon) here
  | arrive comes => exact ⟨call, here, .rest⟩
  | answer oldest answers => exact absurd rfl hsettle
  | pass oldest unanswered => exact absurd rfl hsettle
  | closeReplies => exact ⟨call, here, .rest⟩
  | drain closing dry unshut => exact absurd dry hwet
  | hangUp => exact ⟨call, here, .rest⟩

/-- Frames are taken out of the queue by a look at them only. -/
theorem Move.arrived (hmove : Move c event note c') (hsettle : event ≠ .settle) :
    c'.arrived = c.arrived ++ (note.bind ClientNote.admitted?).toList := by
  have hheard : note.bind ClientNote.heard? = none := by
    cases hmove with
    | answer oldest answers => exact absurd rfl hsettle
    | pass oldest unanswered => exact absurd rfl hsettle
    | _ => rfl
  have hqueue := hmove.queue
  rw [hheard] at hqueue
  exact hqueue.symm

/-! ## On its way -/

/-- A frame that is no reply under a number. -/
def PassesOver (id : UInt64) (frame : Json) : Prop :=
  ∀ r, Reply.ofJson frame = .ok r → r.id ≠ id

/-- A frame is in a queue behind so many others, none of them a reply under the number. -/
def Queued (id : UInt64) (frame : Json) (ahead : Nat) (queue : List Json) : Prop :=
  ∃ before rest, queue = before ++ frame :: rest ∧ before.length = ahead
    ∧ ∀ other ∈ before, PassesOver id other

/-- Frames that arrive queue up behind. -/
theorem Queued.append {queue : List Json} (h : Queued id frame ahead queue) (more : List Json) :
    Queued id frame ahead (queue ++ more) := by
  obtain ⟨before, rest, rfl, hrest⟩ := h
  refine ⟨before, rest ++ more, ?_, hrest⟩
  rw [List.append_assoc, List.cons_append]

/-- A reply is on its way to a call that waits: `ahead` frames will be looked at before
    it, and none of them is for the call.  Only a call whose frame was not handed over
    when the reply came in, an `early` one, may still have to do so. -/
structure Due (c : Client) (n : Nat) (early : Prop) (id : UInt64) (frame : Json)
    (ahead : Nat) (call : ClientCall) : Prop where
  here : c.calls[n]? = some call
  own : call.id = some id
  waits : call.stage = .waiting ∨ (early ∧ call.stage = .parked none)
  queued : Queued id frame ahead c.arrived

/-- The reply to a call was looked at: the call has the outcome, or it has it as soon as
    its frame is handed over, or nobody waits for it any more. -/
def Answered (c : Client) (n : Nat) (early : Prop) (outcome : Outcome) (call : ClientCall) :
    Prop :=
  c.calls[n]? = some call
    ∧ (call.stage = .settled outcome ∨ call.stage = .abandoned
      ∨ (early ∧ (call.stage = .parked (some outcome)
        ∨ (c.hostListens = false ∧ call.stage = .settled (.error .disconnected)))))

/-- A call that is due a reply is open. -/
theorem Due.isOpen (h : c.Due n early id frame ahead call) : call.stage.isOpen = true := by
  rcases h.waits with hs | ⟨-, hs⟩ <;> rw [hs] <;> rfl

/-- A call that a reply is due to is listed. -/
theorem Due.listed (h : c.Due n early id frame ahead call) (hsound : c.Sound) :
    (id, n) ∈ c.pending := by
  obtain ⟨id', hid', hmem⟩ := hsound.tabled.kept n call h.here h.isOpen
  obtain rfl : id = id' := Option.some.inj (h.own.symm.trans hid')
  exact hmem

theorem Due.arrived_ne_nil (h : c.Due n early id frame ahead call) : c.arrived ≠ [] := by
  obtain ⟨before, rest, harrived, -, -⟩ := h.queued
  rw [harrived]
  exact List.append_ne_nil_of_right_ne_nil before (List.cons_ne_nil frame rest)

/-- A reply stays due until a frame is looked at, or its call is one nobody waits for. -/
theorem Due.move (h : c.Due n early id frame ahead call) (hsound : c.Sound)
    (hrivals : c.Unrivalled n id) (hmove : Move c event note c')
    (hsettle : event ≠ .settle) (outcome : Outcome) :
    ∃ call', c'.Due n early id frame ahead call' ∨ c'.Answered n early outcome call' := by
  obtain ⟨call', here', hfares⟩ :=
    hmove.fares hsound hrivals h.here h.own h.isOpen hsettle h.arrived_ne_nil
  have hqueued : Queued id frame ahead c'.arrived := by
    rw [hmove.arrived hsettle]
    exact h.queued.append _
  refine ⟨call', ?_⟩
  cases hfares with
  | rest => exact Or.inl ⟨here', h.own, h.waits, hqueued⟩
  | hand parked => exact Or.inl ⟨here', h.own, Or.inl rfl, hqueued⟩
  | abandon => exact Or.inr ⟨here', Or.inr (Or.inl rfl)⟩
  | miss parked gone =>
      have hearly : early := by
        rcases h.waits with hs | ⟨hearly, -⟩
        · rw [parked] at hs
          exact nomatch hs
        · exact hearly
      exact Or.inr ⟨here', Or.inr (Or.inr ⟨hearly, Or.inr ⟨hmove.gone.2 gone, rfl⟩⟩)⟩

/-- A look at a frame that is not for the call brings its reply one frame nearer. -/
theorem Due.pass (h : c.Due n early id frame (ahead + 1) call) (hsound : c.Sound) :
    (c.step .settle).Due n early id frame ahead call := by
  obtain ⟨before, rest, harrived, hlen, hpass⟩ := h.queued
  obtain ⟨first, before, rfl⟩ := List.exists_cons_of_length_eq_add_one hlen
  obtain ⟨hfirst, hpass⟩ := List.forall_mem_cons.mp hpass
  rw [List.cons_append] at harrived
  show c.settle.Due n early id frame ahead call
  simp only [settle, harrived]
  cases hr : Reply.ofJson first with
  | error e => exact ⟨h.here, h.own, h.waits, before, rest, rfl, Nat.succ.inj hlen, hpass⟩
  | ok r =>
      have htabled : Tabled ({ c with arrived := before ++ frame :: rest } : Client).calls
        ({ c with arrived := before ++ frame :: rest } : Client).pending := hsound.tabled
      have hno : (r.id, n) ∉ c.pending := by
        intro hmem
        have hown := hsound.tabled.id_eq h.here hmem
        exact hfirst r hr (Option.some.inj (hown.symm.trans h.own))
      refine ⟨?_, h.own, h.waits, before, rest, ?_, Nat.succ.inj hlen, hpass⟩
      · exact ((released htabled r.id r.outcome).others n hno).trans h.here
      · dsimp only
        rw [release_rest]

/-- The look at the reply gives the call its outcome. -/
theorem Due.answer (h : c.Due n early id r.toJson 0 call) (hsound : c.Sound) (hid : r.id = id) :
    (c.step .settle).Answered n early r.outcome (call.deliver r.outcome) := by
  obtain ⟨before, rest, harrived, hlen, -⟩ := h.queued
  obtain rfl := List.length_eq_zero_iff.mp hlen
  have hlisted : (r.heard.id, n) ∈ c.pending := by
    rw [Reply.heard_id, hid]
    exact h.listed hsound
  rw [settle_of_listed hsound harrived (Reply.ofJson_toJson r) hlisted, Reply.outcome_heard]
  refine ⟨?_, ?_⟩
  · rw [List.getElem?_modify_eq, h.here]
    rfl
  · rcases h.waits with hs | ⟨hearly, hs⟩
    · left
      simp only [ClientCall.deliver, hs]
    · right; right
      refine ⟨hearly, Or.inl ?_⟩
      simp only [ClientCall.deliver, hs]

/-- What a call was told stays, whatever happens. -/
theorem Answered.move {outcome : Outcome} (h : c.Answered n early outcome call)
    (hsound : c.Sound) (hmove : Move c event note c') :
    ∃ call', c'.Answered n early outcome call' := by
  obtain ⟨here, hstage⟩ := h
  obtain ⟨call', here', hgoes⟩ := hmove.goes hsound here
  refine ⟨call', here', ?_⟩
  rcases hstage with hs | hs | ⟨hearly, hs | ⟨gone, hs⟩⟩
  · exact Or.inl (hgoes.settled hs)
  · rw [hgoes.abandoned hs]
    exact Or.inr (Or.inl hs)
  · have htold : call.stage.told? = some outcome := by
      rw [hs]
      rfl
    rcases hgoes.told htold with htold' | hs' | ⟨gone, hs'⟩
    · rcases heeds_of_told? (c := c') htold' with hs' | hs' | hs' | ⟨gone, hs'⟩
      · exact Or.inl hs'
      · exact Or.inr (Or.inr ⟨hearly, Or.inl hs'⟩)
      · exact Or.inr (Or.inl hs')
      · exact Or.inr (Or.inr ⟨hearly, Or.inr ⟨gone, hs'⟩⟩)
    · exact Or.inr (Or.inl hs')
    · exact Or.inr (Or.inr ⟨hearly, Or.inr ⟨hmove.gone.2 gone, hs'⟩⟩)
  · exact Or.inr (Or.inr ⟨hearly, Or.inr ⟨hmove.gone.2 gone, hgoes.settled hs⟩⟩)

/-- **REPLIES COME THROUGH**: with every look at a frame a reply that is due comes one
    frame nearer, until its call is answered. -/
theorem due_run (h : c.Due n early id r.toJson ahead call) (hid : r.id = id) (hsound : c.Sound)
    (events : List ClientEvent)
    (alone : ∀ (m : Nat) other, m ≠ n → (c.run events).calls[m]? = some other →
      other.id = some id → ∃ first, c.calls[m]? = some first ∧ first.stage.isOver = true) :
    ∃ call', (∃ left, left + events.count .settle = ahead
        ∧ (c.run events).Due n early id r.toJson left call')
      ∨ (c.run events).Answered n early r.outcome call' := by
  have hrivals : ∀ first rest, events = first ++ rest → (c.run first).Unrivalled n id := by
    rintro first rest rfl
    exact unrivalled_run hsound alone
  clear alone
  induction events using List.reverseRecOn with
  | nil => exact ⟨call, Or.inl ⟨ahead, rfl, h⟩⟩
  | append_singleton events event ih =>
      have hmove := move_step (c.run events) event
      have hsound' := hsound.run events
      rw [run_concat]
      obtain ⟨call', ⟨left, hleft, hdue⟩ | hanswered⟩ := ih (fun first rest heq =>
        hrivals first (rest ++ [event]) (by rw [heq, List.append_assoc]))
      · rw [List.count_append]
        by_cases hsettle : event = .settle
        · subst hsettle
          rw [List.count_singleton_self]
          cases left with
          | zero => exact ⟨_, Or.inr (hdue.answer hsound' hid)⟩
          | succ left => exact ⟨call', Or.inl ⟨left, by omega, hdue.pass hsound'⟩⟩
        · have hcount : [event].count ClientEvent.settle = 0 :=
            List.count_eq_zero.mpr (fun hmem => hsettle (List.mem_singleton.mp hmem).symm)
          rw [hcount, Nat.add_zero]
          obtain ⟨call'', hdue' | hanswered⟩ :=
            hdue.move hsound' (hrivals events [event] rfl) hmove hsettle r.outcome
          · exact ⟨call'', Or.inl ⟨left, hleft, hdue'⟩⟩
          · exact ⟨call'', Or.inr hanswered⟩
      · obtain ⟨call'', hanswered'⟩ := hanswered.move hsound' hmove
        exact ⟨call'', Or.inr hanswered'⟩

theorem calls_arrive (c : Client) (frame : Json) : (c.step (.arrive frame)).calls = c.calls := by
  show (if c.repliesOpen then _ else c).calls = c.calls
  split <;> rfl

/-- When a reply has come in, it is due after all that was in the queue before it. -/
theorem due_arrive (frame : Json) (hsound : c.Sound) (here : c.calls[n]? = some call)
    (hmem : (id, n) ∈ c.pending) (caller : call.stage ≠ .abandoned)
    (receives : c.repliesOpen = true) (first : ∀ other ∈ c.arrived, PassesOver id other) :
    (c.step (.arrive frame)).Due n (call.stage = .parked none) id frame c.arrived.length call := by
  have hown := hsound.tabled.id_eq here hmem
  have hwaits := (hsound.listed_iff here hown caller).mp hmem
  show (if c.repliesOpen then _ else c).Due n _ id frame _ call
  rw [if_pos receives]
  exact ⟨here, hown, hwaits.symm.imp_right (fun hs => ⟨hs, hs⟩), c.arrived, [], rfl, rfl, first⟩

/-- A call that was told its outcome early ends with it when its frame is handed over. -/
theorem outcome?_hand (hsound : c.Sound) (here : c.calls[n]? = some call) {outcome : Outcome}
    (told : call.stage = .parked (some outcome)) (listens : c.hostListens = true) :
    (c.step (.hand n)).outcome? n = some outcome := by
  have hcoherent := hsound.tabled.coherent n call here
  obtain ⟨action, id', stage⟩ := call
  obtain rfl : stage = .parked (some outcome) := told
  obtain ⟨id, rfl⟩ := Option.isSome_iff_exists.mp hcoherent
  show (c.hand n).outcome? n = _
  simp only [hand, here, listens, if_true, outcome?]
  rw [List.getElem?_set_self (List.getElem?_eq_some_iff.mp here).1]
  rfl

/-- **REPLIES MEAN TO CLIENTS WHAT THEY MEANT TO HOSTS.**

    A reply that is written and read is the reply it was, but for a result of `null`,
    which is written and not read.

    Let the reply to a listed call come in, with no other reply under the number before
    it, and let anything happen until it has been looked at, but for a call that takes the
    number once more.  Then the call has ended with the value, `null` too, or with the
    failure, empty texts too, unless its caller has gone; a call that was not handed over
    yet ends so as soon as it is, if there is a host.  The failure says that the host is
    not ready exactly if its code is the one for that. -/
theorem written_replies_settle_calls :
    (∀ r : Reply, r.result ≠ some .null → Reply.ofJson r.toJson = .ok r)
    ∧ (∀ id, (Reply.ok id .null).toJson.get? "result" = some .null
      ∧ Reply.ofJson (Reply.ok id .null).toJson = .ok ⟨id, true, none, none, none⟩)
    ∧ (∀ code message, (CallError.remote (some code) message).isNotReady = true
      ↔ code = "Capability.NotReady")
    ∧ ∀ (events more : List ClientEvent) (id : UInt64) (n : Nat) (call : ClientCall)
        (r : Reply) (outcome : Outcome),
      let c := empty.run events
      let c' := (c.step (.arrive r.toJson)).run more
      ((∃ v, r = Reply.ok id v ∧ outcome = .ok v)
        ∨ ∃ code message, r = Reply.failed id code message
          ∧ outcome = .error (.remote (some code) message)) →
      (id, n) ∈ c.pending → c.calls[n]? = some call → call.stage ≠ .abandoned →
      c.repliesOpen = true →
      (∀ other ∈ c.arrived, ∀ r', Reply.ofJson other = .ok r' → r'.id ≠ id) →
      c.arrived.length < more.count .settle →
      (∀ (m : Nat) other, m ≠ n → c'.calls[m]? = some other → other.id = some id →
        ∃ first, c.calls[m]? = some first ∧ first.stage.isOver = true) →
      ∃ call', c'.calls[n]? = some call'
        ∧ (call'.stage = .settled outcome ∨ call'.stage = .abandoned
          ∨ (call.stage = .parked none
            ∧ (call'.stage = .parked (some outcome)
              ∨ (c'.hostListens = false ∧ call'.stage = .settled (.error .disconnected)))))
        ∧ (call'.stage = .parked (some outcome) → c'.hostListens = true →
          (c'.step (.hand n)).outcome? n = some outcome) := by
  refine ⟨?_, ?_, fun _ _ => CallError.isNotReady_remote_iff, ?_⟩
  · intro r hresult
    rw [Reply.ofJson_toJson, Reply.heard_eq_self hresult]
  · intro id
    exact ⟨Reply.get?_toJson_ok id .null, Reply.ofJson_toJson _⟩
  · intro events more id n call r outcome c c' hmeant hmem here caller receives first looked alone
    have hmeant' : r.id = id ∧ r.outcome = outcome := by
      rcases hmeant with ⟨v, rfl, rfl⟩ | ⟨code, message, rfl, rfl⟩
      · exact ⟨rfl, rfl⟩
      · exact ⟨rfl, rfl⟩
    obtain ⟨hid, rfl⟩ := hmeant'
    have hsound : c.Sound := sound_run events
    have hsound' : (c.step (.arrive r.toJson)).Sound := hsound.move (move_step _ _)
    have hdue := due_arrive r.toJson hsound here hmem caller receives first
    rw [← calls_arrive c r.toJson] at alone
    obtain ⟨call', ⟨left, hleft, -⟩ | ⟨here', hstage⟩⟩ := due_run hdue hid hsound' more alone
    · -- there have been too many looks for the reply to be due still
      have hlooks : more.count .settle ≤ c.arrived.length := hleft ▸ Nat.le_add_left _ left
      exact absurd looked (Nat.not_lt.mpr hlooks)
    · exact ⟨call', here', hstage, outcome?_hand (hsound'.run more) here'⟩

/-- A call waits behind a frame that is no reply; another call is made, the channel
    closes, and then the reply, a result of `null`, is looked at. -/
theorem null_settles_waiting_call :
    let asked := [.call (.parse ⟨"a"⟩), .take 0, .park 0, .hand 0, .arrive (.str "no reply")]
    let more := [.settle, .call (.format ⟨"b"⟩), .closeReplies, .settle]
    ∃ call, (((empty.run asked).step (.arrive (Reply.ok 1 .null).toJson)).run more).calls[0]?
        = some call ∧ call.stage = .settled (.ok .null) := by
  intro asked more
  have first : ∀ other ∈ (empty.run asked).arrived, ∀ r, Reply.ofJson other = .ok r → r.id ≠ 1 := by
    intro other hother r hr
    obtain rfl := List.mem_singleton.mp hother
    exact nomatch hr
  have few :
      (empty.run (asked ++ .arrive (Reply.ok 1 .null).toJson :: more)).calls.length < 2 ^ 64 := by
    decide
  obtain ⟨-, -, -, hsettles⟩ := written_replies_settle_calls
  obtain ⟨call, here, hstage, -⟩ := hsettles asked more 1 0
    ⟨.parse ⟨"a"⟩, some 1, .waiting⟩ (Reply.ok 1 .null) (.ok .null)
    (Or.inl ⟨.null, rfl, rfl⟩) (List.mem_singleton_self _) rfl nofun rfl first (by decide)
    (fun m other hne there hother => absurd (eq_of_few few rfl rfl there hother) hne)
  refine ⟨call, here, ?_⟩
  rcases hstage with hs | hs | ⟨hearly, -⟩
  · exact hs
  · -- nobody has stopped waiting
    obtain rfl : call = ⟨.parse ⟨"a"⟩, some 1, .settled (.ok .null)⟩ :=
      Option.some.inj (here.symm.trans rfl)
    exact nomatch hs
  · exact nomatch hearly

end Client
end PhaseHost
