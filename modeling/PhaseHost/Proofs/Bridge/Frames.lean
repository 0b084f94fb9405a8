import PhaseHost.Bridge
import PhaseHost.Proofs.Host.Polling
import PhaseHost.Proofs.Json.Documents
import PhaseHost.Proofs.Session.Sides
import PhaseHost.Proofs.Text.Utf8
import PhaseHost.Proofs.Workspace.Paths

/-! # Lines become frames

    A bridge reads lines until its input ends, and its host gets a frame for each line that
    spells a value.  So the bridge has a run of its host, like a session has one: `hostSide`
    lists what the host sees.  Along that run

    * while the input is read the host takes frames, so every frame on a line arrives;
    * once the input has ended no line is read any more;
    * a line without a frame leaves the bridge as it was. -/

namespace PhaseHost

variable {σ κ : Type}

/-! ## Hosts that take frames -/

namespace Host

variable {B : Backend σ κ} {h : Host σ κ} {event : HostEvent}

/-- Only closing its inbox makes a host take no more frames. -/
theorem accepting_step (hopen : event ≠ .close) : (h.step B event).accepting = h.accepting := by
  have hmove := move_step B h event
  generalize h.step B event = h' at hmove
  cases hmove with
  | close => exact absurd rfl hopen
  | stay unadmitted untaken => rfl
  | deliver takes => rfl
  | receive listens next => rfl
  | hangUp dry closed => rfl
  | refuse runs here => rfl
  | serve runs here made => rfl
  | begin runs here => rfl
  | answer runs here ended => rfl
  | background event => rfl
  | stop done => rfl

/-- What a host does of its own accord delivers nothing. -/
theorem admitted?_of_own (hown : event.isOwn = true) : h.admitted? event = none := by
  cases event with
  | deliver frame => cases hown
  | close => cases hown
  | receive => rfl
  | poll n => rfl
  | background event => rfl
  | stop => rfl

/-- A host that takes no more frames is delivered none. -/
theorem delivered_of_closed (hclosed : h.accepting = false) (events : List HostEvent) :
    delivered B h events = [] := by
  induction events generalizing h with
  | nil => rfl
  | cons event events ih =>
      have hnone : h.admitted? event = none := by
        cases event with
        | deliver frame =>
            refine if_neg (fun htakes => ?_)
            rw [hclosed] at htakes
            exact nomatch htakes.1
        | close => rfl
        | receive => rfl
        | poll n => rfl
        | background event => rfl
        | stop => rfl
      have hstill : (h.step B event).accepting = false := by
        by_cases hclose : event = .close
        · rw [hclose]
          rfl
        · rw [accepting_step hclose, hclosed]
      show (h.admitted? event).toList ++ delivered B (h.step B event) events = []
      rw [hnone, ih hstill]
      rfl

/-- What is delivered in two runs is delivered in one. -/
theorem delivered_append (B : Backend σ κ) (h : Host σ κ) (events more : List HostEvent) :
    delivered B h (events ++ more) = delivered B h events ++ delivered B (h.run B events) more :=
  trail_append ..

end Host

/-! ## What a bridge reads -/

/-- The line that an event reads, if it is UTF-8. -/
def BridgeEvent.text? : BridgeEvent → Option String
  | .line bytes => Utf8.decode? bytes
  | _ => none

/-- Whether an event is not the end of the input. -/
def BridgeEvent.goesOn : BridgeEvent → Bool
  | .endOfInput => false
  | _ => true

/-- Whether what an event reads, if it reads something, is UTF-8. -/
def BridgeEvent.Encoded (event : BridgeEvent) : Prop :=
  ∀ bytes, event = .line bytes → ∃ text, bytes = Utf8.encode text

/-- An encoded line has no fault. -/
theorem BridgeEvent.Encoded.whole {bytes : Bytes} (h : (BridgeEvent.line bytes).Encoded) :
    Utf8.fault? bytes = none := by
  obtain ⟨text, rfl⟩ := h bytes rfl
  exact Utf8.fault?_encode text

namespace Bridge

variable {T : Stage σ κ} {b b' : Bridge σ κ} {text : String}

/-- The lines of the input: those that are read before its end. -/
def texts (events : List BridgeEvent) : List String :=
  (events.takeWhile BridgeEvent.goesOn).filterMap BridgeEvent.text?

/-- The host of a bridge. -/
def host (b : Bridge σ κ) : Host σ κ :=
  b.play.session.host

/-- What the host sees of an event while the bridge runs. -/
def seen (b : Bridge σ κ) : BridgeEvent → List HostEvent
  | .line bytes =>
    if b.intake = .reading ∧ Utf8.fault? bytes = none then
      ((frame? (Utf8.lossy bytes)).map HostEvent.deliver).toList
    else []
  | .endOfInput => [.close]
  | .host event => if event.isOwn then [event] else []
  | .write => []
  | .finish => []

/-- What the host sees of an event. -/
def hostEvents (b : Bridge σ κ) (event : BridgeEvent) : List HostEvent :=
  if b.ended then [] else b.seen event

/-- The run of the host. -/
def hostSide (T : Stage σ κ) (b : Bridge σ κ) (events : List BridgeEvent) : List HostEvent :=
  (trail (step T) (fun b event => some (b.hostEvents event)) b events).flatten

/-! ## Moves -/

/-- What an event can do to a bridge. -/
inductive Move (T : Stage σ κ) (b : Bridge σ κ) : BridgeEvent → Bridge σ κ → Prop
  | stay {event} (unseen : b.hostEvents event = []) : Move T b event b
  | frame {bytes frame} (runs : b.ended = false) (reading : b.intake = .reading)
      (whole : Utf8.fault? bytes = none) (here : frame? (Utf8.lossy bytes) = some frame) :
      Move T b (.line bytes) { b with play := b.play.deliver frame }
  | broken {bytes fault} (runs : b.ended = false) (reading : b.intake = .reading)
      (faulty : Utf8.fault? bytes = some fault) :
      Move T b (.line bytes) { b with intake := .broken fault, ended := true }
  | close (runs : b.ended = false) :
      Move T b .endOfInput { b with play := b.play.moveHost T .close, intake := .finished }
  | host {event} (runs : b.ended = false) (own : event.isOwn = true) :
      Move T b (.host event) { b with play := b.play.moveHost T event }
  | write (runs : b.ended = false) :
      Move T b .write { b with written := min (b.written + 1) b.replies.length }
  | finish (runs : b.ended = false) :
      Move T b .finish
        { b with ended :=
            b.intake = .finished ∧ b.play.session.host.stopped ∧ b.written = b.replies.length }

variable {event : BridgeEvent} {events : List BridgeEvent}

/-- A bridge that has not ended passes on what it sees. -/
theorem hostEvents_of_runs (runs : b.ended = false) (event : BridgeEvent) :
    b.hostEvents event = b.seen event :=
  if_neg (ne_true_of_eq_false runs)

/-- A bridge that has ended does nothing. -/
theorem step_of_ended (hended : b.ended = true) (T : Stage σ κ) (event : BridgeEvent) :
    b.step T event = b :=
  if_pos hended

/-- A line is read as long as the bridge reads. -/
theorem move_line (T : Stage σ κ) (runs : b.ended = false) (bytes : Bytes) :
    Move T b (.line bytes) (if b.intake = .reading then b.read bytes else b) := by
  have hseen := hostEvents_of_runs runs (.line bytes)
  rw [seen] at hseen
  by_cases reading : b.intake = .reading
  · rw [if_pos reading, read]
    cases hfault : Utf8.fault? bytes with
    | some fault => exact .broken runs reading hfault
    | none =>
        simp only [hand]
        cases here : frame? (Utf8.lossy bytes) with
        | some frame => exact .frame runs reading hfault here
        | none =>
            rw [if_pos ⟨reading, hfault⟩, here] at hseen
            exact .stay hseen
  · rw [if_neg reading]
    rw [if_neg (fun h => reading h.1)] at hseen
    exact .stay hseen

/-- **ONE MOVE AN EVENT**: every event of a bridge is one of the moves. -/
theorem move_step (T : Stage σ κ) (b : Bridge σ κ) (event : BridgeEvent) :
    Move T b event (b.step T event) := by
  by_cases hended : b.ended = true
  · rw [step_of_ended hended]
    exact .stay (if_pos hended)
  · have runs := eq_false_of_ne_true hended
    have hseen : b.step T event = _ := if_neg hended
    rw [hseen]
    cases event with
    | line bytes => exact move_line T runs bytes
    | endOfInput => exact .close runs
    | host event =>
        show Move T b _ (if event.isOwn then _ else _)
        by_cases own : event.isOwn = true
        · rw [if_pos own]
          exact .host runs own
        · rw [if_neg own]
          exact .stay ((hostEvents_of_runs runs _).trans (if_neg own))
    | write => exact .write runs
    | finish => exact .finish runs

/-! ## The run of the host -/

/-- A host on a stage moves as it does alone. -/
theorem host_moveHost (T : Stage σ κ) (p : Play σ κ) {event : HostEvent}
    (hnot : ∀ frame, event ≠ .deliver frame) :
    (p.moveHost T event).session.host = p.session.host.step T.backend event := by
  have hseen : p.session.hostEvents (.host event) = [event] := by
    cases event with
    | deliver frame => exact absurd rfl (hnot frame)
    | close => rfl
    | receive => rfl
    | poll n => rfl
    | background event => rfl
    | stop => rfl
  refine (Session.step_host T.backend p.session (.host event)).trans ?_
  rw [hseen]
  rfl

/-- A host does not deliver frames to itself. -/
theorem ne_deliver_of_own {event : HostEvent} (hown : event.isOwn = true) (frame : Json) :
    event ≠ .deliver frame := by
  rintro rfl
  cases hown

/-- A move shows in the host as what the host sees of the event. -/
theorem Move.host_eq (hmove : Move T b event b') :
    b'.host = b.host.run T.backend (b.hostEvents event) := by
  cases hmove with
  | stay unseen => rw [unseen]; rfl
  | frame runs reading whole here =>
      rw [hostEvents_of_runs runs, seen, if_pos ⟨reading, whole⟩, here]
      rfl
  | broken runs reading faulty =>
      rw [hostEvents_of_runs runs, seen, if_neg (fun h => by rw [faulty] at h; exact nomatch h.2)]
      rfl
  | close runs =>
      rw [hostEvents_of_runs runs]
      exact host_moveHost T b.play nofun
  | host runs own =>
      rw [hostEvents_of_runs runs, seen, if_pos own]
      exact host_moveHost T b.play (ne_deliver_of_own own)
  | write runs => rw [hostEvents_of_runs runs]; rfl
  | finish runs => rw [hostEvents_of_runs runs]; rfl

/-- The host of a bridge sees its own side of it. -/
theorem host_step (T : Stage σ κ) (b : Bridge σ κ) (event : BridgeEvent) :
    (b.step T event).host = b.host.run T.backend (b.hostEvents event) :=
  (move_step T b event).host_eq

/-- The side of the host begins with what the first event means to it. -/
theorem hostSide_cons (T : Stage σ κ) (b : Bridge σ κ) (event : BridgeEvent)
    (events : List BridgeEvent) :
    hostSide T b (event :: events) = b.hostEvents event ++ hostSide T (b.step T event) events :=
  rfl

/-- In every run the host sees its own side. -/
theorem host_run (T : Stage σ κ) (b : Bridge σ κ) (events : List BridgeEvent) :
    (b.run T events).host = b.host.run T.backend (hostSide T b events) := by
  induction events generalizing b with
  | nil => rfl
  | cons event events ih =>
      rw [hostSide_cons, Host.run_append, ← host_step]
      exact ih (b.step T event)

/-! ## Frames -/

/-- **A LINE HAS A FRAME** exactly if it is not blank and spells a value, which is the frame. -/
theorem frame?_eq_some_iff {v : Json} :
    frame? text = some v ↔ ¬ Text.AllBlank text ∧ Json.Document (Utf8.encode text) v := by
  have hparse : (Json.parseText text).toOption = some v ↔ Json.Document (Utf8.encode text) v := by
    rw [← Json.parse_eq_ok_iff]
    show (Json.parse (Utf8.encode text)).toOption = some v ↔ _
    cases Json.parse (Utf8.encode text) with
    | ok v' => exact ⟨fun h => congrArg Except.ok (Option.some.inj h), fun h => by cases h; rfl⟩
    | error fault => exact ⟨nofun, nofun⟩
  rw [frame?, ← hparse]
  by_cases hblank : Text.AllBlank text
  · rw [if_pos ((Text.trim_isEmpty_iff text).mpr hblank)]
    exact ⟨nofun, fun h => absurd hblank h.1⟩
  · rw [if_neg (fun h => hblank ((Text.trim_isEmpty_iff text).mp h))]
    exact (and_iff_right hblank).symm

/-- A bridge that reads lines, so that its host takes frames. -/
structure Reads (b : Bridge σ κ) : Prop where
  reading : b.intake = .reading
  runs : b.ended = false
  accepts : b.host.accepting = true
  winding : b.host.Winding

/-- A bridge starts reading. -/
theorem reads_start (store : σ) : (start store : Bridge σ κ).Reads :=
  ⟨rfl, rfl, rfl, ⟨nofun, nofun⟩⟩

/-- What the host sees of a line is its frame. -/
theorem Reads.hostEvents_line (h : b.Reads) (text : String) :
    b.hostEvents (.line (Utf8.encode text)) = ((frame? text).map HostEvent.deliver).toList := by
  rw [hostEvents_of_runs h.runs, seen, if_pos ⟨h.reading, Utf8.fault?_encode text⟩,
    Utf8.lossy_encode]

/-- A bridge goes on reading until its input ends. -/
theorem Reads.move (h : b.Reads) (hmove : Move T b event b') (hencoded : event.Encoded)
    (hgoes : event.goesOn = true) : b'.Reads := by
  have hwinding : b'.host.Winding := by
    rw [hmove.host_eq]
    exact h.winding.run _
  cases hmove with
  | stay unseen => exact h
  | @frame bytes frame runs reading whole here =>
      have hopen : HostEvent.deliver frame ≠ .close := nofun
      exact ⟨reading, runs, (Host.accepting_step (B := T.backend) hopen).trans h.accepts, hwinding⟩
  | broken runs reading faulty =>
      rw [hencoded.whole] at faulty
      cases faulty
  | close runs => cases hgoes
  | @host event runs own =>
      refine ⟨h.reading, runs, ?_, hwinding⟩
      have hopen : event ≠ .close := by
        rintro rfl
        cases own
      have hhost := congrArg Host.accepting (host_moveHost T b.play (ne_deliver_of_own own))
      exact (hhost.trans (Host.accepting_step hopen)).trans h.accepts
  | write runs => exact ⟨h.reading, runs, h.accepts, hwinding⟩
  | finish runs =>
      refine ⟨h.reading, ?_, h.accepts, hwinding⟩
      refine decide_eq_false (fun hdone => ?_)
      rw [h.reading] at hdone
      exact nomatch hdone.1

/-- The texts of a run begin with that of its first line. -/
theorem texts_cons (hgoes : event.goesOn = true) (events : List BridgeEvent) :
    texts (event :: events) = event.text?.toList ++ texts events := by
  rw [texts, List.takeWhile_cons_of_pos hgoes]
  cases htext : event.text? with
  | none => exact List.filterMap_cons_none htext
  | some text => exact List.filterMap_cons_some htext

/-- While the input is read, a line delivers its frame and nothing else delivers any. -/
theorem Reads.delivered (h : b.Reads) (B : Backend σ κ) (hencoded : event.Encoded)
    (hgoes : event.goesOn = true) :
    Host.delivered B b.host (b.hostEvents event) = event.text?.toList.filterMap frame? := by
  cases event with
  | line bytes =>
      obtain ⟨text, rfl⟩ := hencoded bytes rfl
      have htext : (BridgeEvent.line (Utf8.encode text)).text? = some text :=
        Utf8.decode?_eq_some_iff.mpr rfl
      rw [h.hostEvents_line, htext, Option.toList_some]
      cases hframe : frame? text with
      | none => rw [List.filterMap_cons_none hframe]; rfl
      | some frame =>
          have hadmitted : b.host.admitted? (.deliver frame) = some frame :=
            if_pos ⟨h.accepts, h.winding.runs_of_accepting h.accepts⟩
          rw [List.filterMap_cons_some hframe]
          show (b.host.admitted? (.deliver frame)).toList ++ [] = _
          rw [hadmitted]
          rfl
  | endOfInput => cases hgoes
  | host event =>
      rw [hostEvents_of_runs h.runs, seen]
      by_cases own : event.isOwn = true
      · rw [if_pos own]
        show (b.host.admitted? event).toList ++ [] = []
        rw [Host.admitted?_of_own own]
        rfl
      · rw [if_neg own]
        rfl
  | write => rw [hostEvents_of_runs h.runs]; rfl
  | finish => rw [hostEvents_of_runs h.runs]; rfl

/-- **EVERY FRAME ARRIVES**: what is delivered to the host are the frames on the lines of the
    input, in their order. -/
theorem Reads.delivered_hostSide (h : b.Reads) (hencoded : ∀ event ∈ events, event.Encoded) :
    Host.delivered T.backend b.host (hostSide T b events) = (texts events).filterMap frame? := by
  -- along the events, with a bridge that reads as the invariant
  induction events generalizing b with
  | nil => rfl
  | cons event events ih =>
      obtain ⟨hevent, hevents⟩ := List.forall_mem_cons.mp hencoded
      rw [hostSide_cons, Host.delivered_append]
      by_cases hgoes : event.goesOn = true
      · rw [texts_cons hgoes, List.filterMap_append, h.delivered T.backend hevent hgoes,
          ← host_step]
        exact congrArg _ (ih (h.move (move_step T b event) hevent hgoes) hevents)
      · -- behind the end of the input the host takes no frame any more
        cases event with
        | endOfInput =>
            rw [hostEvents_of_runs h.runs]
            exact Host.delivered_of_closed rfl _
        | line bytes => exact absurd rfl hgoes
        | host event => exact absurd rfl hgoes
        | write => exact absurd rfl hgoes
        | finish => exact absurd rfl hgoes

/-! ## Input as bytes -/

/-- A line is cut off behind its line feed. -/
theorem cut_append {line : Bytes} (hline : 0x0A ∉ line) (begun rest : Bytes) :
    cut begun (line ++ 0x0A :: rest) = (begun.reverse ++ line ++ [0x0A]) :: cut [] rest := by
  induction line generalizing begun with
  | nil =>
      rw [List.nil_append, cut, if_pos rfl, List.reverse_cons, List.append_nil]
  | cons x line ih =>
      obtain ⟨hx, hrest⟩ := List.ne_and_not_mem_of_not_mem_cons hline
      rw [List.cons_append, cut, if_neg (Ne.symm hx), ih hrest, List.reverse_cons]
      simp only [List.append_assoc, List.singleton_append]

/-- Feeding bytes is reading their lines. -/
theorem feed_lines (T : Stage σ κ) (b : Bridge σ κ) {lines : List Bytes}
    (h : ∀ line ∈ lines, 0x0A ∉ line) :
    b.feed T (lines.map (· ++ [0x0A])).flatten
      = b.run T (lines.map (fun line => .line (line ++ [0x0A]))) := by
  have hcut : cut [] (lines.map (· ++ [0x0A])).flatten = lines.map (· ++ [0x0A]) := by
    induction lines with
    | nil => rfl
    | cons line lines ih =>
        obtain ⟨hline, hlines⟩ := List.forall_mem_cons.mp h
        rw [List.map_cons, List.flatten_cons, List.append_assoc, List.singleton_append,
          cut_append hline, ih hlines]
        rfl
  rw [feed, hcut, List.map_map]
  rfl

/-! ## Lines that are passed over -/

/-- A line that is blank or does not spell a value. -/
def Idle (text : String) : Prop :=
  Text.AllBlank text ∨ ∀ v, ¬ Json.Document (Utf8.encode text) v

/-- Two sequences of events, of which the second has further lines that are passed over. -/
inductive Padded : List BridgeEvent → List BridgeEvent → Prop
  | nil : Padded [] []
  | keep {event : BridgeEvent} {bare padded : List BridgeEvent} (rest : Padded bare padded) :
    Padded (event :: bare) (event :: padded)
  | pad {text : String} {bare padded : List BridgeEvent} (idle : Idle text)
    (rest : Padded bare padded) : Padded bare (.line (Utf8.encode text) :: padded)

/-- A line that is idle brings no frame. -/
theorem frame?_eq_none_iff : frame? text = none ↔ Idle text := by
  rw [Option.eq_none_iff_forall_ne_some, Idle]
  simp only [ne_eq, frame?_eq_some_iff, not_and]
  constructor
  · intro h
    by_cases hblank : Text.AllBlank text
    · exact Or.inl hblank
    · exact Or.inr (fun v => h v hblank)
  · rintro (hblank | hnone) v hnot
    · exact absurd hblank hnot
    · exact hnone v

/-- A line that is passed over leaves a bridge as it was, wherever the bridge stands. -/
theorem step_idle (T : Stage σ κ) (b : Bridge σ κ) (hidle : Idle text) :
    b.step T (.line (Utf8.encode text)) = b := by
  have hmove := move_step T b (.line (Utf8.encode text))
  generalize b.step T (.line (Utf8.encode text)) = b' at hmove
  cases hmove with
  | stay unseen => rfl
  | frame runs reading whole here =>
      rw [Utf8.lossy_encode, frame?_eq_none_iff.mpr hidle] at here
      cases here
  | broken runs reading faulty =>
      rw [Utf8.fault?_encode] at faulty
      cases faulty

/-- **FURTHER LINES MAKE NO DIFFERENCE** if they are passed over. -/
theorem run_padded {bare padded : List BridgeEvent} (h : Padded bare padded) (T : Stage σ κ)
    (b : Bridge σ κ) : b.run T padded = b.run T bare := by
  induction h generalizing b with
  | nil => rfl
  | @keep event bare padded rest ih => exact ih (b.step T event)
  | @pad text bare padded idle rest ih =>
      have hsame : b.run T (.line (Utf8.encode text) :: padded) = b.run T padded :=
        congrArg (fun b : Bridge σ κ => b.run T padded) (step_idle T b idle)
      exact hsame.trans (ih b)

end Bridge
end PhaseHost
