import PhaseHost.Play.Basic
import PhaseHost.Proofs.Host.Rest
import PhaseHost.Proofs.Session.Sides

/-! # Plays at rest

    A play over scripted fetches is moved by cues.  DEEDS come from outside: frames are
    sent, the inbox is closed, gates and bodies change.  MOTIONS happen by themselves, in
    any order: the host receives or polls, requests and loads go on, and a fetch that no
    gate holds ends with what the script has for it.

    A play is AT REST when no motion makes a difference to its host.  Then the only thing
    that anything waits for is a fetch behind a gate: no handler is stuck, no joined load
    is forgotten and no key stays in flight. -/

namespace PhaseHost

variable {σ κ : Type}

/-- What the outside can do to a play. -/
inductive Deed where
  /-- A client moves. -/
  | client (event : ClientEvent)
  /-- A frame is sent past the client. -/
  | deliver (frame : Json)
  | close
  | release (location : String)
  | putGate (location : String)
  | dropGate (location : String)
  | setBody (location : String) (body : Except String Bytes)
  | dropBody (location : String)

/-- What can happen to a play by itself. -/
inductive Motion where
  | receive
  | poll (n : Nat)
  | resume (n : Nat)
  | startEngine (n : Nat)
  | resumeEngine (n : Nat)
  | look (n : Handle)
  | make (n : Handle)
  /-- The fetch of an attempt ends. -/
  | arrive (n : Handle)
  | keep (n : Handle)
  | stop
  deriving DecidableEq, Repr

/-- What happens next in a play. -/
inductive Cue where
  | deed (deed : Deed)
  | motion (motion : Motion)

/-- A stage on which fetches are scripted. -/
def Stage.scripted (B : Backend σ κ) : Stage σ κ :=
  ⟨B, Script.result?⟩

/-- The event of a motion, if it can happen. -/
def Motion.event? (T : Stage σ κ) (p : Play σ κ) : Motion → Option HostEvent
  | .receive => some .receive
  | .poll n => some (.poll n)
  | .resume n => some (.background (.resume n))
  | .startEngine n => some (.background (.startEngine n))
  | .resumeEngine n => some (.background (.resumeEngine n))
  | .look n => some (.background (.load (.look n)))
  | .make n => some (.background (.load (.make n)))
  | .arrive n =>
    (T.fetching p.script p.loader n).map (fun result => .background (.load (.fetched n result)))
  | .keep n => some (.background (.load (.keep n)))
  | .stop => some .stop

namespace Play

variable {T : Stage σ κ} {p : Play σ κ} {cue : Cue}

/-- Do a deed. -/
def act (T : Stage σ κ) (p : Play σ κ) : Deed → Play σ κ
  | .client event => p.move T (.client event)
  | .deliver frame => p.deliver frame
  | .close => p.moveHost T .close
  | .release location => p.onScript (·.release location)
  | .putGate location => p.onScript (·.putGate location)
  | .dropGate location => p.onScript (·.dropGate location)
  | .setBody location body => p.onScript (·.setBody location body)
  | .dropBody location => p.onScript (·.dropBody location)

/-- Let a motion happen, if it can. -/
def go (T : Stage σ κ) (p : Play σ κ) (motion : Motion) : Play σ κ :=
  match motion.event? T p with
  | some event => p.moveHost T event
  | none => p

/-- Take a cue. -/
def take (T : Stage σ κ) (p : Play σ κ) : Cue → Play σ κ
  | .deed deed => p.act T deed
  | .motion motion => p.go T motion

/-- Take a sequence of cues. -/
def perform (T : Stage σ κ) (p : Play σ κ) (cues : List Cue) : Play σ κ :=
  cues.foldl (take T) p

/-- What the host sees of a deed. -/
def deedEvents (p : Play σ κ) : Deed → List HostEvent
  | .client event => p.session.hostEvents (.client event)
  | .deliver frame => [.deliver frame]
  | .close => [.close]
  | _ => []

/-- What the host sees of a cue. -/
def cueEvents (T : Stage σ κ) (p : Play σ κ) : Cue → List HostEvent
  | .deed deed => p.deedEvents deed
  | .motion motion => (motion.event? T p).toList

/-- The run of the host. -/
def hostSide (T : Stage σ κ) (p : Play σ κ) (cues : List Cue) : List HostEvent :=
  (trail (take T) (fun p cue => some (p.cueEvents T cue)) p cues).flatten

/-! ## The run of the host -/

/-- An event of a motion is the host's own. -/
theorem hostEvents_motion {motion : Motion} {event : HostEvent}
    (h : motion.event? T p = some event) (s : Session σ κ) :
    s.hostEvents (.host event) = [event] := by
  cases motion with
  | arrive n =>
      obtain ⟨result, -, rfl⟩ := Option.map_eq_some_iff.mp h
      rfl
  | receive => cases h; rfl
  | poll n => cases h; rfl
  | resume n => cases h; rfl
  | startEngine n => cases h; rfl
  | resumeEngine n => cases h; rfl
  | look n => cases h; rfl
  | make n => cases h; rfl
  | keep n => cases h; rfl
  | stop => cases h; rfl

theorem host_go {motion : Motion} {event : HostEvent} (h : motion.event? T p = some event) :
    (p.go T motion).session.host = p.session.host.step T.backend event := by
  simp only [go, h]
  refine (Session.step_host T.backend p.session (.host event)).trans ?_
  rw [hostEvents_motion h]
  rfl

theorem host_take (T : Stage σ κ) (p : Play σ κ) (cue : Cue) :
    (p.take T cue).session.host = p.session.host.run T.backend (p.cueEvents T cue) := by
  cases cue with
  | deed deed =>
      cases deed with
      | client event => exact Session.step_host T.backend p.session (.client event)
      | deliver frame => rfl
      | close => exact Session.step_host T.backend p.session (.host .close)
      | release location => rfl
      | putGate location => rfl
      | dropGate location => rfl
      | setBody location body => rfl
      | dropBody location => rfl
  | motion motion =>
      simp only [take, cueEvents]
      cases h : motion.event? T p with
      | none => simp only [go, h]; rfl
      | some event => exact host_go h

theorem host_perform (T : Stage σ κ) (p : Play σ κ) (cues : List Cue) :
    (p.perform T cues).session.host = p.session.host.run T.backend (p.hostSide T cues) := by
  induction cues using List.reverseRecOn with
  | nil => rfl
  | append_singleton cues cue ih =>
      have hstep : p.perform T (cues ++ [cue]) = (p.perform T cues).take T cue :=
        List.foldl_append
      have hside : p.hostSide T (cues ++ [cue])
          = p.hostSide T cues ++ (p.perform T cues).cueEvents T cue :=
        flatten_trail_concat ..
      rw [hstep, hside, host_take, ih, Host.run_append]

/-! ## Rest -/

/-- No motion makes a difference to the host. -/
def AtRest (T : Stage σ κ) (p : Play σ κ) : Prop :=
  ∀ motion, (p.go T motion).session.host = p.session.host

/-- An attempt for a key has not ended and is BLOCKED in a fetch: it waits at a gate. -/
def Blocked (p : Play σ κ) (key : CacheKey) (n : Handle) : Prop :=
  p.loader.Blocked (fun n => p.script.holds n = true) key n

/-- A play over scripted fetches that is at rest has its host at rest. -/
theorem AtRest.rests {B : Backend σ κ} (h : p.AtRest (Stage.scripted B)) :
    p.session.host.Rests B (fun n => p.script.holds n = true) := by
  have hstill : ∀ (motion : Motion) {event : HostEvent},
      motion.event? (Stage.scripted B) p = some event →
      p.session.host.step B event = p.session.host := by
    intro motion event hevent
    exact (host_go hevent).symm.trans (h motion)
  refine ⟨hstill .receive rfl, fun n => hstill (.poll n) rfl, hstill .stop rfl, ?_, ?_⟩
  · intro event hno
    cases event with
    | request version sources => rfl
    | resume n => exact hstill (.resume n) rfl
    | startEngine n => exact hstill (.startEngine n) rfl
    | resumeEngine n => exact hstill (.resumeEngine n) rfl
    | load event =>
        cases event with
        | look n => exact hstill (.look n) rfl
        | make n => exact hstill (.make n) rfl
        | fetched n result => exact absurd rfl (hno n result)
        | keep n => exact hstill (.keep n) rfl
  · intro n hn hfree
    obtain ⟨a, ha⟩ : ∃ a, p.loader.attempts[n]? = some a := ⟨_, List.getElem?_eq_getElem hn⟩
    have hresult : p.script.result? p.loader n = some (p.script.body a.location) := by
      simp only [Script.result?, ha]
      exact if_neg hfree
    exact ⟨_, hstill (.arrive n) (congrArg (Option.map _) hresult)⟩

end Play

namespace Receipt

variable {B : Backend σ κ} {frame : Json} {r : Receipt B frame} {events : List HostEvent}

/-- A frame has been ANSWERED: its handler has ended, with a reply under its id. -/
def Answered (r : Receipt B frame) (events : List HostEvent) (id : UInt64) : Prop :=
  ∃ reply, r.fate events = .ended reply ∧ reply.id = id ∧ reply ∈ (r.after events).outbox

/-- A frame with a usable id is in flight, or it has been answered. -/
theorem inFlight_or_answered (r : Receipt B frame) {id : UInt64}
    (hid : Message.idOf frame = some id) (events : List HostEvent) :
    (∃ place, r.fate events = .inFlight place) ∨ r.Answered events id := by
  cases hf : r.fate events with
  | inFlight place => exact Or.inl ⟨place, rfl⟩
  | ended reply =>
      obtain ⟨earlier, place, later, rfl, hin, hreply⟩ := Host.fate_ended hf
      refine Or.inr ⟨reply, hf, (r.reply_told hid hin hreply).own, ?_⟩
      have hwritten : reply ∈ (r.after (earlier ++ [.poll place])).outbox := by
        have hreply' : (r.after earlier).reply? B (.poll place) = some reply := hreply
        rw [r.after_concat, Host.outbox_step, hreply']
        exact List.mem_append_right _ List.mem_cons_self
      rw [List.append_cons, show r.after ((earlier ++ [.poll place]) ++ later)
        = (r.after (earlier ++ [.poll place])).run B later from Host.run_append ..]
      exact Host.mem_outbox_run hwritten later

end Receipt

namespace Play

/-- **AT REST ONLY FETCHES ARE WAITED FOR**.  In every run of a host over scripted fetches,
    whatever the outside does and in whatever order things happen, once nothing can happen
    by itself:

    * everything delivered has been received, and every frame for the module that was
      received has been answered;
    * a frame with a usable id that is unanswered is an `init`, and the attempt that it has
      taken to load its reader is blocked in a fetch;
    * the table in flight lists exactly the keys whose attempt is blocked, each once;
    * an attempt is blocked exactly if it is waited for, by the load of an engine or by a
      request, and whoever has made the request is still in flight;
    * if nothing is blocked, all is answered and over: no handler and no key is in flight,
      no engine is loading, and if its inbox is closed the host has stopped. -/
theorem at_rest_only_fetches_wait (B : Backend σ κ) (store : σ) (script : Script)
    (cues : List Cue) :
    let T := Stage.scripted B
    let p := (start store script).perform T cues
    let events := (start store script).hostSide T cues
    let h := p.session.host
    p.AtRest T →
    (h = (Host.empty store).run B events ∧ h.inbox = []
      ∧ Host.delivered B (Host.empty store) events = Host.received B (Host.empty store) events) ∧
    (∀ (frame : Json) (r : Receipt B frame) between m, r.store = store →
      events = r.before ++ .receive :: between → Message.ofFrame frame = .ok m →
      m.action.required ≠ .idle → r.Answered between m.id) ∧
    (∀ (frame : Json) (r : Receipt B frame) between id, r.store = store →
      events = r.before ++ .receive :: between → Message.idOf frame = some id →
      ¬ r.Answered between id →
      ∃ payload t, Message.ofFrame frame = .ok ⟨id, .init payload⟩ ∧ r.Takes payload between t
        ∧ p.Blocked (Variant.key ⟨.reader, payload.version⟩) t) ∧
    ((h.phase.loader.inFlight.map Prod.fst).Nodup
      ∧ ∀ key n, (key, n) ∈ h.phase.loader.inFlight ↔ p.Blocked key n) ∧
    ((∀ key n, h.phase.Waits key n ↔ p.Blocked key n)
      ∧ ∀ k version sources t, h.phase.requests[k]? = some ⟨version, sources, .waiting t⟩ →
          h.Awaited k) ∧
    ((∀ key n, ¬ p.Blocked key n) →
      h.handlers = [] ∧ h.phase.loader.inFlight = []
      ∧ (∀ e ∈ h.phase.engineLoads, e.stage.isOver = true)
      ∧ (h.outbox.map Reply.id).Perm
          ((Host.delivered B (Host.empty store) events).filterMap Message.idOf)
      ∧ (h.accepting = false → h.stopped = true)) := by
  intro T p events h hrest
  have hr : h.Rests B (fun n => p.script.holds n = true) := AtRest.rests hrest
  have hrun : h = (Host.empty store).run B events := host_perform T (start store script) cues
  have hw : h.Winding := hrun ▸ Host.winding_run B store events
  have hl : h.Linked := hrun ▸ Host.linked_run B store events
  have hinbox : h.inbox = [] := hr.inbox hw
  have hreceived : Host.delivered B (Host.empty store) events
      = Host.received B (Host.empty store) events := by
    rw [Host.delivered_run, ← hrun, hinbox, List.append_nil]
  have hafter : ∀ {frame : Json} (r : Receipt B frame) {between : List HostEvent},
      r.store = store → events = r.before ++ .receive :: between → r.after between = h := by
    rintro frame r between rfl hevents
    rw [r.after_eq, hrun, hevents]
  have hunanswered : ∀ (frame : Json) (r : Receipt B frame) between id, r.store = store →
      events = r.before ++ .receive :: between → Message.idOf frame = some id →
      ¬ r.Answered between id →
      ∃ payload t, Message.ofFrame frame = .ok ⟨id, .init payload⟩ ∧ r.Takes payload between t
        ∧ p.Blocked (Variant.key ⟨.reader, payload.version⟩) t := by
    intro frame r between id hstore hevents hid hno
    have hsame := hafter r hstore hevents
    rcases r.inFlight_or_answered hid between with ⟨place, hf⟩ | hanswered
    · obtain ⟨payload, t, hm, htakes, hblocked⟩ := r.unanswered hid hf (hsame ▸ hr)
      rw [hsame] at hblocked
      exact ⟨payload, t, hm, htakes, hblocked⟩
    · exact absurd hanswered hno
  have htable : ∀ key n, (key, n) ∈ h.phase.loader.inFlight ↔ p.Blocked key n := by
    intro key n
    rw [hl.phase.flight.listed]
    exact ⟨hr.blocked, Loader.Blocked.unsettled⟩
  have hwaits : ∀ key n, h.phase.Waits key n ↔ p.Blocked key n := by
    intro key n
    exact ⟨hr.waits_blocked hl, fun hb => hl.phase.carried key n (Loader.Blocked.unsettled hb)⟩
  refine ⟨⟨hrun, hinbox, hreceived⟩, ?_, hunanswered, ⟨hl.phase.flight.keyed, htable⟩,
    ⟨hwaits, hl.awaited⟩, ?_⟩
  · intro frame r between m hstore hevents hm hcompute
    by_contra hno
    obtain ⟨payload, t, hinit, -⟩ :=
      hunanswered frame r between m.id hstore hevents (Message.idOf_of_ok hm) hno
    have heq := Except.ok.inj (hm.symm.trans hinit)
    exact hcompute (congrArg (fun m : Message => m.action.required) heq)
  · intro hfree
    have hidle : h.handlers = [] := by
      rw [hrun] at hr ⊢
      refine Host.handlers_of_rests B store events hr ?_
      intro key t hb
      rw [← hrun] at hb
      exact hfree key t hb
    refine ⟨hidle, ?_, ?_, ?_, fun hclosed => hr.stopped hw hclosed hidle⟩
    · rw [List.eq_nil_iff_forall_not_mem]
      rintro ⟨key, n⟩ hmem
      exact hfree key n ((htable key n).mp hmem)
    · intro e he
      obtain ⟨n, here⟩ := List.mem_iff_getElem?.mp he
      rcases hr.engine here with hover | ⟨t, hw⟩
      · exact hover
      · exact absurd ((hwaits _ t).mp hw) (hfree _ t)
    · have haccount := Host.account_run B store events
      simp only [Host.account] at haccount
      rw [← hrun, hidle, List.map_nil, List.append_nil, ← hreceived] at haccount
      exact haccount

/-- A request for a version that lies at a location. -/
def initFrame (id : Int) (version location : String) : Json :=
  .obj [("action", .str "init"), ("id", .int id),
    ("payload", .obj [("version", .str version), ("wasmPath", .str location)])]

/-- A reader that can be fetched, and gates before its engine and before another reader. -/
def gates : Script :=
  Script.ofLists [("https://x.y/e.reader", .ok (Utf8.encode "reader"))]
    ["https://x.y/e", "https://x.y/f.reader"]

/-- A version whose engine is held back and two requests for another one, whose reader is
    held back as well; a frame in between is answered, and the inbox is closed. -/
def heldBack : List Cue :=
  [.deed (.deliver (initFrame 1 "v1" "https://x.y/e")), .motion .receive, .motion (.poll 0),
    .motion (.look 0), .motion (.arrive 0), .motion (.make 0), .motion (.keep 0),
    .motion (.resume 0), .motion (.poll 0), .motion (.startEngine 0), .motion (.look 1),
    .deed (.deliver Receipt.formatFrame), .motion .receive, .motion (.poll 0),
    .deed (.deliver (initFrame 2 "v2" "https://x.y/f")), .motion .receive, .motion (.poll 0),
    .deed (.deliver (initFrame 3 "v2" "https://x.y/f")), .motion (.look 2), .motion .receive,
    .motion (.poll 1), .deed .close, .motion .receive]

/-- Where the held back play ends. -/
def standstill : Play MemoryStore StandIn :=
  (start MemoryStore.empty gates).perform (Stage.scripted StandIn.backend) heldBack

theorem standstill_atRest : standstill.AtRest (Stage.scripted StandIn.backend) := by
  intro motion
  cases motion with
  | receive => rfl
  | stop => rfl
  | poll n =>
      match n with
      | 0 | 1 | n + 2 => rfl
  | resume n =>
      match n with
      | 0 | 1 | 2 | n + 3 => rfl
  | startEngine n =>
      match n with
      | 0 | n + 1 => rfl
  | resumeEngine n =>
      match n with
      | 0 | n + 1 => rfl
  | look n =>
      match n with
      | 0 | 1 | 2 | n + 3 => rfl
  | make n =>
      match n with
      | 0 | 1 | 2 | n + 3 => rfl
  | arrive n =>
      match n with
      | 0 | 1 | 2 | n + 3 => rfl
  | keep n =>
      match n with
      | 0 | 1 | 2 | n + 3 => rfl

/-- Two of the three requests for a version wait at the standstill, and they wait for one
    reader behind a gate. -/
theorem standstill_waits_for_fetches :
    standstill.AtRest (Stage.scripted StandIn.backend)
    ∧ standstill.session.host.outbox.map Reply.id = [1, 7]
    ∧ standstill.session.host.handlers = [⟨2, .await 1⟩, ⟨3, .await 2⟩]
    ∧ standstill.Blocked (Variant.key ⟨.engine, "v1"⟩) 1
    ∧ standstill.Blocked (Variant.key ⟨.reader, "v2"⟩) 2
    ∧ standstill.session.host.phase.Waits (Variant.key ⟨.reader, "v2"⟩) 2 := by
  have hrest := at_rest_only_fetches_wait StandIn.backend MemoryStore.empty gates heldBack
    standstill_atRest
  rw [show (start MemoryStore.empty gates).perform (Stage.scripted StandIn.backend) heldBack
    = standstill from rfl] at hrest
  obtain ⟨-, -, -, ⟨-, htable⟩, ⟨hwaits, -⟩, -⟩ := hrest
  have hinFlight : standstill.session.host.phase.loader.inFlight
      = [(Variant.key ⟨.reader, "v2"⟩, 2), (Variant.key ⟨.engine, "v1"⟩, 1)] := by
    decide +kernel
  have hengine : standstill.Blocked (Variant.key ⟨.engine, "v1"⟩) 1 := by
    rw [← htable, hinFlight]
    decide
  have hreader : standstill.Blocked (Variant.key ⟨.reader, "v2"⟩) 2 := by
    rw [← htable, hinFlight]
    decide
  have houtbox : standstill.session.host.outbox.map Reply.id = [1, 7] := by decide +kernel
  have hhandlers : standstill.session.host.handlers = [⟨2, .await 1⟩, ⟨3, .await 2⟩] := by
    decide +kernel
  exact ⟨standstill_atRest, houtbox, hhandlers, hengine, hreader, (hwaits _ _).mpr hreader⟩

end Play
end PhaseHost
