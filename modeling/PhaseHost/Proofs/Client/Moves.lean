import PhaseHost.Client.Basic
import PhaseHost.Proofs.Entries
import PhaseHost.Proofs.Trail

/-! # What a client can do

    `Client.Move` says once what an event can do to a client: under which guard,
    to which state, and what somebody who watches the client would NOTE down.
    The notes along a run are its log, and statements about "the numbers given so
    far" or "the replies that were answers" are statements about parts of the log.

    Three things are shown here of all moves: a call keeps its action and its
    number, an outcome stays, and a reply channel that is closed stays closed. -/

namespace PhaseHost

/-- What can be noted of an event of a client. -/
inductive ClientNote where
  /-- A call has taken its number. -/
  | numbered (id : UInt64)
  /-- A call has been listed under its number. -/
  | listed (m : Message)
  /-- A request was handed to the host. -/
  | handed (m : Message)
  /-- A reply frame has come in. -/
  | admitted (frame : Json)
  /-- A reply frame was looked at; it may have been the answer to a call. -/
  | heard (frame : Json) (answer : Option Reply)

namespace ClientNote

def number? : ClientNote → Option UInt64
  | .numbered id => some id
  | _ => none

def entry? : ClientNote → Option Message
  | .listed m => some m
  | _ => none

def request? : ClientNote → Option Message
  | .handed m => some m
  | _ => none

def admitted? : ClientNote → Option Json
  | .admitted frame => some frame
  | _ => none

def heard? : ClientNote → Option Json
  | .heard frame _ => some frame
  | _ => none

def answer? : ClientNote → Option Reply
  | .heard _ answer => answer
  | _ => none

end ClientNote

namespace Client

/-- The reply in a frame, if its number is listed. -/
def answerIn? (c : Client) (frame : Json) : Option Reply :=
  match Reply.ofJson frame with
  | .ok r => if (c.pending.find? (fun p => p.1 = r.id)).isSome then some r else none
  | .error _ => none

/-- What is to be noted of an event. -/
def note? (c : Client) : ClientEvent → Option ClientNote
  | .take n =>
    match c.calls[n]? with
    | some ⟨_, _, .fresh⟩ => some (.numbered c.nextId)
    | _ => none
  | .park n =>
    match c.calls[n]? with
    | some ⟨action, some id, .numbered⟩ =>
      if c.closed then none else some (.listed ⟨id, action⟩)
    | _ => none
  | .hand n =>
    match c.calls[n]? with
    | some ⟨action, some id, .parked _⟩ =>
      if c.hostListens then some (.handed ⟨id, action⟩) else none
    | _ => none
  | .arrive frame => if c.repliesOpen then some (.admitted frame) else none
  | .settle =>
    match c.arrived with
    | frame :: _ => some (.heard frame (c.answerIn? frame))
    | [] => none
  | _ => none

/-- The log of a sequence of events. -/
def log (c : Client) (events : List ClientEvent) : List ClientNote :=
  trail step note? c events

/-- The numbers that were given, in order. -/
def numbers (c : Client) (events : List ClientEvent) : List UInt64 :=
  (c.log events).filterMap ClientNote.number?

/-- The calls that were listed, in order. -/
def entries (c : Client) (events : List ClientEvent) : List Message :=
  (c.log events).filterMap ClientNote.entry?

/-- The requests that were handed over, in order. -/
def requests (c : Client) (events : List ClientEvent) : List Message :=
  (c.log events).filterMap ClientNote.request?

/-- The reply frames that have come in, in order. -/
def admitted (c : Client) (events : List ClientEvent) : List Json :=
  (c.log events).filterMap ClientNote.admitted?

/-- The reply frames that were looked at, in order. -/
def heard (c : Client) (events : List ClientEvent) : List Json :=
  (c.log events).filterMap ClientNote.heard?

/-- The replies whose number was listed when they were looked at, in order. -/
def answers (c : Client) (events : List ClientEvent) : List Reply :=
  (c.log events).filterMap ClientNote.answer?

/-- What an event can do to a client, and what is noted of it. -/
inductive Move (c : Client) : ClientEvent → Option ClientNote → Client → Prop
  | stay {event} : Move c event none c
  | call (action) :
      Move c (.call action) none { c with calls := c.calls ++ [⟨action, none, .fresh⟩] }
  | take {n action id} (fresh : c.calls[n]? = some ⟨action, id, .fresh⟩) :
      Move c (.take n) (some (.numbered c.nextId))
        { c with
          nextId := c.nextId + 1
          calls := c.calls.set n ⟨action, some c.nextId, .numbered⟩ }
  | turnAway {n action id} (here : c.calls[n]? = some ⟨action, some id, .numbered⟩)
      (shut : c.closed = true) :
      Move c (.park n) none
        { c with calls := c.calls.set n ⟨action, some id, .settled (.error .disconnected)⟩ }
  | enlist {n action id} (here : c.calls[n]? = some ⟨action, some id, .numbered⟩)
      (unshut : c.closed = false) :
      Move c (.park n) (some (.listed ⟨id, action⟩)) (c.enlist n action id)
  | hand {n action id} (here : c.calls[n]? = some ⟨action, some id, .parked none⟩)
      (listens : c.hostListens = true) :
      Move c (.hand n) (some (.handed ⟨id, action⟩))
        { c with
          calls := c.calls.set n ⟨action, some id, .waiting⟩
          sent := c.sent ++ [Message.toFrame ⟨id, action⟩] }
  | handTold {n action id outcome}
      (here : c.calls[n]? = some ⟨action, some id, .parked (some outcome)⟩)
      (listens : c.hostListens = true) :
      Move c (.hand n) (some (.handed ⟨id, action⟩))
        { c with
          calls := c.calls.set n ⟨action, some id, .settled outcome⟩
          sent := c.sent ++ [Message.toFrame ⟨id, action⟩] }
  | miss {n action id early} (here : c.calls[n]? = some ⟨action, some id, .parked early⟩)
      (gone : c.hostListens = false) :
      Move c (.hand n) none
        ((c.release id (.error .disconnected)).finish n (.error .disconnected))
  | abandon {n call} (here : c.calls[n]? = some call) (waits : call.outcome? = none) :
      Move c (.abandon n) none
        { c with calls := c.calls.set n { call with stage := .abandoned } }
  | arrive {frame} (comes : c.repliesOpen = true) :
      Move c (.arrive frame) (some (.admitted frame))
        { c with arrived := c.arrived ++ [frame] }
  | answer {frame rest r} (oldest : c.arrived = frame :: rest)
      (answers : c.answerIn? frame = some r) :
      Move c .settle (some (.heard frame (some r)))
        ({ c with arrived := rest }.release r.id r.outcome)
  | pass {frame rest} (oldest : c.arrived = frame :: rest)
      (unanswered : c.answerIn? frame = none) :
      Move c .settle (some (.heard frame none)) { c with arrived := rest }
  | closeReplies : Move c .closeReplies none { c with repliesOpen := false }
  | drain (closing : c.repliesOpen = false) (dry : c.arrived = []) (unshut : c.closed = false) :
      Move c .drain none
        { c with
          calls := c.pending.foldl
            (fun calls p => calls.modify p.2 (ClientCall.deliver (.error .disconnected))) c.calls
          pending := []
          closed := true }
  | hangUp : Move c .hangUp none { c with hostListens := false }

variable {c c' : Client} {event : ClientEvent} {note : Option ClientNote} {n : Nat}

/-- Ending a call puts the ended call in its place. -/
theorem finish_eq {call : ClientCall} (here : c.calls[n]? = some call) (outcome : Outcome) :
    c.finish n outcome
      = { c with calls := c.calls.set n { call with stage := .settled outcome } } := by
  show ({ c with calls := c.calls.modify n _ } : Client) = _
  rw [modify_eq_set _ here]

/-- What a release leaves as it is. -/
theorem release_rest (c : Client) (id : UInt64) (outcome : Outcome) :
    c.release id outcome
      = { c with
          calls := (c.release id outcome).calls
          pending := (c.release id outcome).pending } := by
  simp only [release]
  split <;> rfl

/-- An entry that is released leaves the table, and no other does. -/
theorem pending_release (c : Client) (id : UInt64) (outcome : Outcome) :
    (c.release id outcome).pending = c.pending.filter (fun p => p.1 ≠ id) := by
  simp only [release]
  cases hfind : c.pending.find? (fun p => p.1 = id) with
  | some p => rfl
  | none =>
      refine (List.filter_eq_self.mpr ?_).symm
      intro p hp
      have hno := List.find?_eq_none.mp hfind p hp
      rw [decide_eq_true_iff] at hno
      exact decide_eq_true hno

/-- Taking a number is a move. -/
theorem move_take (c : Client) (n : Nat) : Move c (.take n) (c.note? (.take n)) (c.take n) := by
  by_cases hthere : ∃ action id, c.calls[n]? = some ⟨action, id, .fresh⟩
  · obtain ⟨action, id, here⟩ := hthere
    have hnote : c.note? (.take n) = some (.numbered c.nextId) := by
      simp only [note?, here]
    have htake : c.take n = { c with
        nextId := c.nextId + 1
        calls := c.calls.set n ⟨action, some c.nextId, .numbered⟩ } := by
      simp only [take, here]
    rw [hnote, htake]
    exact .take here
  · have hnote : c.note? (.take n) = none := by
      simp only [note?]
      split
      next action id here => exact absurd ⟨action, id, here⟩ hthere
      next => rfl
    have htake : c.take n = c := by
      simp only [take]
      split
      next action id here => exact absurd ⟨action, id, here⟩ hthere
      next => rfl
    rw [hnote, htake]
    exact .stay

theorem move_park (c : Client) (n : Nat) : Move c (.park n) (c.note? (.park n)) (c.park n) := by
  by_cases hthere : ∃ action id, c.calls[n]? = some ⟨action, some id, .numbered⟩
  · obtain ⟨action, id, here⟩ := hthere
    have hnote : c.note? (.park n)
        = if c.closed then none else some (.listed ⟨id, action⟩) := by
      simp only [note?, here]
    have hpark : c.park n
        = if c.closed then c.finish n (.error .disconnected) else c.enlist n action id := by
      simp only [park, here]
    rw [hnote, hpark]
    by_cases shut : c.closed = true
    · rw [if_pos shut, if_pos shut, finish_eq here]
      exact .turnAway here shut
    · rw [if_neg shut, if_neg shut]
      exact .enlist here (Bool.eq_false_iff.mpr shut)
  · have hnote : c.note? (.park n) = none := by
      simp only [note?]
      split
      next action id here => exact absurd ⟨action, id, here⟩ hthere
      next => rfl
    have hpark : c.park n = c := by
      simp only [park]
      split
      next action id here => exact absurd ⟨action, id, here⟩ hthere
      next => rfl
    rw [hnote, hpark]
    exact .stay

theorem move_hand (c : Client) (n : Nat) : Move c (.hand n) (c.note? (.hand n)) (c.hand n) := by
  by_cases hthere : ∃ action id early, c.calls[n]? = some ⟨action, some id, .parked early⟩
  · obtain ⟨action, id, early, here⟩ := hthere
    have hnote : c.note? (.hand n)
        = if c.hostListens then some (.handed ⟨id, action⟩) else none := by
      simp only [note?, here]
    rw [hnote]
    by_cases listens : c.hostListens = true
    · rw [if_pos listens]
      cases early with
      | none =>
          have hhand : c.hand n = { c with
              calls := c.calls.set n ⟨action, some id, .waiting⟩
              sent := c.sent ++ [Message.toFrame ⟨id, action⟩] } := by
            simp only [hand, here]
            rw [if_pos listens]
          rw [hhand]
          exact .hand here listens
      | some outcome =>
          have hhand : c.hand n = { c with
              calls := c.calls.set n ⟨action, some id, .settled outcome⟩
              sent := c.sent ++ [Message.toFrame ⟨id, action⟩] } := by
            simp only [hand, here]
            rw [if_pos listens]
          rw [hhand]
          exact .handTold here listens
    · have hhand : c.hand n
          = (c.release id (.error .disconnected)).finish n (.error .disconnected) := by
        simp only [hand, here]
        rw [if_neg listens]
      rw [if_neg listens, hhand]
      exact .miss here (Bool.eq_false_iff.mpr listens)
  · have hnote : c.note? (.hand n) = none := by
      simp only [note?]
      split
      next action id early here => exact absurd ⟨action, id, early, here⟩ hthere
      next => rfl
    have hhand : c.hand n = c := by
      simp only [hand]
      split
      next action id early here => exact absurd ⟨action, id, early, here⟩ hthere
      next => rfl
    rw [hnote, hhand]
    exact .stay

theorem move_abandon (c : Client) (n : Nat) : Move c (.abandon n) none (c.abandon n) := by
  simp only [abandon, modifyCall]
  cases here : c.calls[n]? with
  | none =>
      rw [List.modify_eq_set_getElem?, here]
      exact .stay
  | some call =>
      rw [modify_eq_set _ here]
      obtain ⟨action, id, stage⟩ := call
      cases stage with
      | settled outcome =>
          -- the call has ended, so it is put back as it is
          obtain ⟨hn, heq⟩ := List.getElem?_eq_some_iff.mp here
          show Move c _ none { c with calls := c.calls.set n ⟨action, id, .settled outcome⟩ }
          rw [← heq, List.set_getElem_self]
          exact .stay
      | fresh => exact .abandon here rfl
      | numbered => exact .abandon here rfl
      | parked early => exact .abandon here rfl
      | waiting => exact .abandon here rfl
      | abandoned => exact .abandon here rfl

/-- A frame answers a call if it is a reply under a listed number. -/
theorem answerIn?_eq_some_iff {frame : Json} {r : Reply} :
    c.answerIn? frame = some r
      ↔ Reply.ofJson frame = .ok r ∧ ∃ n, (r.id, n) ∈ c.pending := by
  simp only [answerIn?]
  cases hr : Reply.ofJson frame with
  | error e => exact ⟨nofun, nofun⟩
  | ok r' =>
      dsimp only
      cases hfind : c.pending.find? (fun p => p.1 = r'.id) with
      | none =>
          refine ⟨nofun, ?_⟩
          rintro ⟨hok, n, hmem⟩
          obtain rfl := Except.ok.inj hok
          have hno := List.find?_eq_none.mp hfind _ hmem
          exact absurd (decide_eq_true rfl) hno
      | some p =>
          have hp := List.find?_some hfind
          rw [decide_eq_true_iff] at hp
          have hmem := List.mem_of_find?_eq_some hfind
          constructor
          · intro hyes
            obtain rfl := Option.some.inj hyes
            exact ⟨rfl, p.2, hp ▸ hmem⟩
          · rintro ⟨hok, -⟩
            exact congrArg some (Except.ok.inj hok)

theorem move_settle (c : Client) : Move c .settle (c.note? .settle) c.settle := by
  simp only [note?, settle]
  split
  next frame rest oldest =>
    rw [oldest]
    dsimp only
    cases hr : Reply.ofJson frame with
    | error e =>
        have hno : c.answerIn? frame = none := by simp only [answerIn?, hr]
        rw [hno]
        exact .pass oldest hno
    | ok r =>
        cases hfind : c.pending.find? (fun p => p.1 = r.id) with
        | some p =>
            have hyes : c.answerIn? frame = some r := by
              simp only [answerIn?, hr, hfind, Option.isSome_some, if_pos]
            rw [hyes]
            exact .answer oldest hyes
        | none =>
            -- the number is not listed, so nothing is released
            have hno : c.answerIn? frame = none := by
              simp only [answerIn?, hr, hfind, Option.isSome_none, Bool.false_eq_true, if_neg,
                not_false_eq_true]
            have hsame : ({ c with arrived := rest } : Client).release r.id r.outcome
                = { c with arrived := rest } := by
              simp only [release, hfind]
            rw [hno]
            dsimp only
            rw [hsame]
            exact .pass oldest hno
  next dry =>
    rw [dry]
    exact .stay

theorem move_drain (c : Client) : Move c .drain none c.drain := by
  simp only [drain]
  by_cases hkeep : c.repliesOpen ∨ ¬ c.arrived.isEmpty ∨ c.closed
  · rw [if_pos hkeep]
    exact .stay
  · rw [if_neg hkeep]
    rw [not_or, not_or, not_not, List.isEmpty_iff] at hkeep
    exact .drain (Bool.eq_false_iff.mpr hkeep.1) hkeep.2.1 (Bool.eq_false_iff.mpr hkeep.2.2)

/-- **ONE MOVE AN EVENT**: every event of a client is one of the moves. -/
theorem move_step (c : Client) (event : ClientEvent) :
    Move c event (c.note? event) (c.step event) := by
  cases event with
  | call action => exact .call action
  | take n => exact move_take c n
  | park n => exact move_park c n
  | hand n => exact move_hand c n
  | abandon n => exact move_abandon c n
  | arrive frame =>
      show Move c _ (if c.repliesOpen then _ else none) (if c.repliesOpen then _ else c)
      by_cases comes : c.repliesOpen
      · rw [if_pos comes, if_pos comes]
        exact .arrive comes
      · rw [if_neg comes, if_neg comes]
        exact .stay
  | settle => exact move_settle c
  | closeReplies => exact .closeReplies
  | drain => exact move_drain c
  | hangUp => exact .hangUp

theorem run_concat (c : Client) (events : List ClientEvent) (event : ClientEvent) :
    c.run (events ++ [event]) = (c.run events).step event :=
  List.foldl_append

theorem run_append (c : Client) (events more : List ClientEvent) :
    c.run (events ++ more) = (c.run events).run more :=
  List.foldl_append

theorem log_concat (c : Client) (events : List ClientEvent) (event : ClientEvent) :
    c.log (events ++ [event]) = c.log events ++ ((c.run events).note? event).toList :=
  trail_concat ..

end Client
end PhaseHost
