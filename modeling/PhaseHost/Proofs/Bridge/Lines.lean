import PhaseHost.Proofs.Bridge.Frames
import PhaseHost.Proofs.Host.Judgement
import PhaseHost.Proofs.Json.Written

/-! # Replies become lines

    A bridge writes the replies of its host in the order they were made, each as a line of
    JSON, and it ends when none is left and none can come.

    * What has been written stays, and what follows goes behind it.
    * No reply has a line feed in it, so the lines of the output are the replies.
    * A bridge that has ended has read the end of its input, its host has stopped, and every
      reply is written; so every frame with a usable id has its line. -/

namespace PhaseHost

variable {σ κ : Type}

/-- The outbox of a host only grows. -/
theorem Host.outbox_prefix_run (B : Backend σ κ) (h : Host σ κ) (events : List HostEvent) :
    h.outbox <+: (h.run B events).outbox := by
  induction events generalizing h with
  | nil => exact List.prefix_rfl
  | cons event events ih =>
      refine List.IsPrefix.trans ?_ (ih (h.step B event))
      rw [outbox_step]
      exact List.prefix_append _ _

namespace Bridge

variable {T : Stage σ κ} {b b' : Bridge σ κ} {event : BridgeEvent} {events : List BridgeEvent}

/-! ## Writing -/

/-- Replies are only added to. -/
theorem Move.replies (hmove : Move T b event b') : b.replies <+: b'.replies := by
  have hprefix := Host.outbox_prefix_run T.backend b.host (b.hostEvents event)
  rw [← hmove.host_eq] at hprefix
  exact hprefix

/-- No more has been written than there is, and a bridge that has ended has nothing left. -/
structure Orderly (b : Bridge σ κ) : Prop where
  within : b.written ≤ b.replies.length
  complete : b.ended = true →
    b.intake = .finished ∧ b.host.stopped = true ∧ b.written = b.replies.length

/-- One event keeps the order. -/
theorem Orderly.move (h : b.Orderly) (hmove : Move T b event b') (hencoded : event.Encoded) :
    b'.Orderly := by
  have hgrows := hmove.replies.length_le
  -- a bridge that runs has nothing to show for its end
  have vain : b.ended = false → ∀ {P : Prop}, b.ended = true → P :=
    fun runs _ hended => absurd hended (ne_true_of_eq_false runs)
  cases hmove with
  | stay unseen => exact h
  | frame runs reading whole here => exact ⟨Nat.le_trans h.within hgrows, vain runs⟩
  | broken runs reading faulty =>
      rw [hencoded.whole] at faulty
      cases faulty
  | close runs => exact ⟨Nat.le_trans h.within hgrows, vain runs⟩
  | host runs own => exact ⟨Nat.le_trans h.within hgrows, vain runs⟩
  | write runs => exact ⟨Nat.min_le_right _ _, vain runs⟩
  | finish runs => exact ⟨h.within, fun hended => of_decide_eq_true hended⟩

/-- The order is kept all along. -/
theorem Orderly.run (h : b.Orderly) (hencoded : ∀ event ∈ events, event.Encoded) :
    (b.run T events).Orderly := by
  induction events generalizing b with
  | nil => exact h
  | cons event events ih =>
      obtain ⟨hevent, hevents⟩ := List.forall_mem_cons.mp hencoded
      exact ih (h.move (move_step T b event) hevent) hevents

theorem orderly_start (store : σ) : (start store : Bridge σ κ).Orderly :=
  ⟨Nat.le_refl 0, nofun⟩

/-- What has been written stays, and more goes behind it. -/
theorem Move.output (hmove : Move T b event b') (h : b.Orderly) : b.output <+: b'.output := by
  have hwritten : b.written ≤ b'.written := by
    cases hmove with
    | write runs => exact Nat.le_min.mpr ⟨Nat.le_succ _, h.within⟩
    | stay unseen => exact Nat.le_refl _
    | frame runs reading whole here => exact Nat.le_refl _
    | broken runs reading faulty => exact Nat.le_refl _
    | close runs => exact Nat.le_refl _
    | host runs own => exact Nat.le_refl _
    | finish runs => exact Nat.le_refl _
  obtain ⟨later, hlater⟩ := hmove.replies
  refine List.IsPrefix.map Reply.line ?_
  rw [← hlater, ← List.take_append_of_le_length h.within]
  exact List.take_prefix_take_left hwritten

/-- Neither replies nor lines are taken back. -/
theorem output_run (h : b.Orderly) (hencoded : ∀ event ∈ events, event.Encoded) :
    b.replies <+: (b.run T events).replies ∧ b.output <+: (b.run T events).output := by
  induction events generalizing b with
  | nil => exact ⟨List.prefix_rfl, List.prefix_rfl⟩
  | cons event events ih =>
      obtain ⟨hevent, hevents⟩ := List.forall_mem_cons.mp hencoded
      have hmove := move_step T b event
      obtain ⟨hreplies, houtput⟩ := ih (h.move hmove hevent) hevents
      exact ⟨hmove.replies.trans hreplies, (hmove.output h).trans houtput⟩

/-! ## Ending -/

/-- Only the end of the input finishes its reading. -/
theorem mem_of_finished (h : (b.run T events).intake = .finished) :
    b.intake = .finished ∨ .endOfInput ∈ events := by
  induction events generalizing b with
  | nil => exact Or.inl h
  | cons event events ih =>
      rcases ih h with hstep | hmem
      · have hmove := move_step T b event
        generalize b.step T event = b' at hmove hstep
        cases hmove with
        | close runs => exact Or.inr List.mem_cons_self
        | broken runs reading faulty => cases hstep
        | stay unseen => exact Or.inl hstep
        | frame runs reading whole here => exact Or.inl hstep
        | host runs own => exact Or.inl hstep
        | write runs => exact Or.inl hstep
        | finish runs => exact Or.inl hstep
      · exact Or.inr (List.mem_cons_of_mem _ hmem)

/-- A host that has stopped has answered every frame with a usable id. -/
theorem ids_of_stopped (B : Backend σ κ) (store : σ) (events : List HostEvent)
    (hstopped : ((Host.empty store).run B events).stopped = true) :
    (((Host.empty store).run B events).outbox.map Reply.id).Perm
      ((Host.delivered B (Host.empty store) events).filterMap Message.idOf) := by
  have hw := Host.winding_run B store events
  obtain ⟨hlistening, hhandlers⟩ := hw.finished hstopped
  have haccount := Host.account_run B store events
  -- with no handler left the account is the outbox, with an empty inbox all was received
  rw [Host.account, hhandlers, List.map_nil, List.append_nil] at haccount
  rw [Host.delivered_run, (hw.heard hlistening).2, List.append_nil]
  exact haccount

/-- Some writes write as many of the replies as there are. -/
theorem run_writes (runs : b.ended = false) {count : Nat}
    (hwithin : b.written + count ≤ b.replies.length) :
    b.run T (List.replicate count .write) = { b with written := b.written + count } := by
  induction count generalizing b with
  | zero => rfl
  | succ count ih =>
      have hstep : b.step T .write = { b with written := b.written + 1 } := by
        have hmin : min (b.written + 1) b.replies.length = b.written + 1 :=
          Nat.min_eq_left (by omega)
        refine (if_neg (ne_true_of_eq_false runs)).trans ?_
        show ({ b with written := min (b.written + 1) b.replies.length } : Bridge σ κ) = _
        rw [hmin]
      show (b.step T .write).run T (List.replicate count .write) = _
      have hnext : b.written + 1 + count ≤ b.replies.length := by omega
      rw [hstep, ih (b := { b with written := b.written + 1 }) runs hnext]
      simp only [Nat.add_assoc, Nat.add_comm 1 count]

/-- **NOTHING ELSE IS WAITED FOR**: once the input has ended and the host has stopped, a bridge
    ends when it has written what is left. -/
theorem ended_of_stopped (h : b.Orderly) (T : Stage σ κ) (hfinished : b.intake = .finished)
    (hstopped : b.host.stopped = true) : ((b.flush T).step T .finish).ended = true := by
  by_cases hended : b.ended = true
  · have hflush : b.flush T = b := by
      rw [flush, (h.complete hended).2.2, Nat.sub_self]
      rfl
    rw [hflush, step_of_ended hended]
    exact hended
  · have runs := eq_false_of_ne_true hended
    have hall : b.written + (b.replies.length - b.written) = b.replies.length :=
      Nat.add_sub_of_le h.within
    have hflush : b.flush T = { b with written := b.replies.length } := by
      rw [flush, run_writes runs (Nat.le_of_eq hall), hall]
    rw [hflush]
    show (if b.ended then _ else _ : Bridge σ κ).ended = true
    rw [if_neg hended]
    exact decide_eq_true ⟨hfinished, hstopped, rfl⟩

/-! ## The output as bytes -/

/-- The bytes that a bridge has written. -/
def outputBytes (b : Bridge σ κ) : Bytes :=
  (b.output.map Utf8.encode).flatten

/-- A line of JSON without its line feed. -/
def lineBytes (r : Reply) : Bytes :=
  Utf8.encode r.toJson.render

/-- A line is the document of its reply and a line feed. -/
theorem encode_line (r : Reply) : Utf8.encode r.line = lineBytes r ++ [0x0A] := by
  rw [Reply.line, Utf8.encode_eq, String.toList_append, Utf8.encodeChars_append]
  rfl

/-- Lines that are each ended by a line feed are what lies between the line feeds. -/
theorem splitOn_lines {lines : List Bytes} (h : ∀ line ∈ lines, 0x0A ∉ line) :
    (lines.map (· ++ [0x0A])).flatten.splitOn 0x0A = lines ++ [[]] := by
  induction lines with
  | nil => rfl
  | cons line lines ih =>
      obtain ⟨hline, hlines⟩ := List.forall_mem_cons.mp h
      rw [List.map_cons, List.flatten_cons, List.append_assoc, List.singleton_append,
        List.splitOn_append_cons_self, List.splitOn_eq_singleton hline, ih hlines]
      rfl

/-- Splitting the output at line feeds gives the documents that were written, and an empty rest.
    -/
theorem splitOn_outputBytes (b : Bridge σ κ) :
    b.outputBytes.splitOn 0x0A = (b.replies.take b.written).map lineBytes ++ [[]] := by
  have hbytes : b.output.map Utf8.encode
      = ((b.replies.take b.written).map lineBytes).map (· ++ [0x0A]) := by
    rw [output, List.map_map, List.map_map]
    refine List.map_congr_left (fun r _ => ?_)
    simp only [Function.comp_apply, encode_line]
  rw [outputBytes, hbytes]
  refine splitOn_lines (fun line hline => ?_)
  obtain ⟨r, -, rfl⟩ := List.mem_map.mp hline
  exact Json.no_lineFeed_render r.toJson

/-! ## The bridge as a whole -/

/-- **JSON LINES GO IN AND COME OUT**.  In every run of a bridge that reads only UTF-8:

    * its host has the run of a host to which exactly the frames on the lines of the input are
      delivered, in their order; a line has a frame if it is not blank and spells a value;
    * lines without a frame may stand or be missing anywhere, it makes no difference;
    * replies and lines go out behind those before, and if the bridge has ended then its input
      has ended, its host has stopped, every reply is written, and the replies are one for
      each frame with a usable id, under that id;
    * with its input at an end and its host stopped, it only has to write what is left;
    * the texts between the line feeds of the output are the replies that have been written,
      in their order; the last line is complete, too;
    * each of these texts has the form of a value and no line feed in it, and it spells its
      reply unless a number or the depth of a result is out of reach. -/
theorem json_lines_in_and_out (T : Stage σ κ) (store : σ) (events : List BridgeEvent)
    (hutf8 : ∀ bytes, .line bytes ∈ events → ∃ text, bytes = Utf8.encode text) :
    let b := (start store).run T events
    let side := hostSide T (start store) events
    let frames := (texts events).filterMap frame?
    (b.host = (Host.empty store).run T.backend side
      ∧ Host.delivered T.backend (Host.empty store) side = frames
      ∧ ∀ text v, frame? text = some v
          ↔ ¬ Text.AllBlank text ∧ Json.Document (Utf8.encode text) v) ∧
    ((∀ padded, Padded events padded → (start store).run T padded = b)
      ∧ ∀ bare, Padded bare events → (start store).run T bare = b) ∧
    ((∀ more, (∀ bytes, .line bytes ∈ more → ∃ text, bytes = Utf8.encode text) →
        b.replies <+: (b.run T more).replies ∧ b.output <+: (b.run T more).output)
      ∧ (b.ended = true → .endOfInput ∈ events ∧ b.host.stopped = true
          ∧ b.output = b.replies.map Reply.line
          ∧ (b.replies.map Reply.id).Perm (frames.filterMap Message.idOf))
      ∧ (b.intake = .finished → b.host.stopped = true →
          ((b.flush T).step T .finish).ended = true)) ∧
    b.outputBytes.splitOn 0x0A = (b.replies.take b.written).map lineBytes ++ [[]] ∧
    ∀ r : Reply, Json.Formed (lineBytes r) ∧ 0x0A ∉ lineBytes r
      ∧ (Json.Exact Json.maxDepth r.toJson → Json.Document (lineBytes r) r.toJson) := by
  intro b side frames
  have hencoded : ∀ {events : List BridgeEvent},
      (∀ bytes, .line bytes ∈ events → ∃ text, bytes = Utf8.encode text) →
      ∀ event ∈ events, event.Encoded := by
    rintro events hutf8 event hmem bytes rfl
    exact hutf8 bytes hmem
  have hhost : b.host = (Host.empty store).run T.backend side := host_run T (start store) events
  have hframes : Host.delivered T.backend (Host.empty store) side = frames :=
    (reads_start store).delivered_hostSide (hencoded hutf8)
  have horderly : b.Orderly := (orderly_start store).run (hencoded hutf8)
  refine ⟨⟨hhost, hframes, fun text v => frame?_eq_some_iff⟩, ⟨?_, ?_⟩, ⟨?_, ?_, ?_⟩,
    splitOn_outputBytes b, ?_⟩
  · exact fun padded hpadded => run_padded hpadded T _
  · exact fun bare hbare => (run_padded hbare T _).symm
  · exact fun more hmore => output_run horderly (hencoded hmore)
  · intro hended
    obtain ⟨hfinished, hstopped, hwritten⟩ := horderly.complete hended
    refine ⟨(mem_of_finished hfinished).resolve_left nofun, hstopped, ?_, ?_⟩
    · rw [output, hwritten, List.take_length]
    · have hids := ids_of_stopped T.backend store side (hhost ▸ hstopped)
      rw [← hhost, hframes] at hids
      exact hids
  · exact ended_of_stopped horderly T
  · exact fun r => ⟨Json.formed_render r.toJson, Json.no_lineFeed_render r.toJson,
      Json.document_render⟩

/-- A blank line, a line of words and a frame that is refused, up to the end of it all. -/
def shortVisit : List BridgeEvent :=
  [.line (Utf8.encode " \n"), .line (Utf8.encode "what now?\n"),
    .line (Utf8.encode "\x7b\"id\": 7\x7d\n"), .host .receive, .host (.poll 0), .endOfInput,
    .host .receive, .host .stop, .write, .finish]

/-- A stage on which nothing is fetched. -/
def bareStage : Stage MemoryStore StandIn :=
  ⟨StandIn.backend, fun _ _ _ => none⟩

theorem json_lines_of_shortVisit :
    let b := (start MemoryStore.empty).run bareStage shortVisit
    (∀ bytes, .line bytes ∈ shortVisit → ∃ text, bytes = Utf8.encode text) ∧
    (texts shortVisit).length = 3 ∧ b.ended = true ∧ (b.replies.map Reply.id).Perm [7]
      ∧ b.output = b.replies.map Reply.line
      ∧ b.outputBytes.splitOn 0x0A = (b.replies.take 1).map lineBytes ++ [[]] := by
  intro b
  have hutf8 : ∀ bytes, .line bytes ∈ shortVisit → ∃ text, bytes = Utf8.encode text := by
    intro bytes hmem
    simp only [shortVisit, List.mem_cons, BridgeEvent.line.injEq, reduceCtorEq,
      List.not_mem_nil, or_false] at hmem
    rcases hmem with rfl | rfl | rfl
    · exact ⟨_, rfl⟩
    · exact ⟨_, rfl⟩
    · exact ⟨_, rfl⟩
  obtain ⟨-, -, ⟨-, hend, -⟩, hlines, -⟩ :=
    json_lines_in_and_out bareStage MemoryStore.empty shortVisit hutf8
  have hended : b.ended = true := by decide
  have hwritten : b.written = 1 := by decide
  have hframes : ((texts shortVisit).filterMap frame?).filterMap Message.idOf = [7] := by decide
  obtain ⟨-, -, houtput, hids⟩ := hend hended
  rw [hframes] at hids
  rw [show ((start MemoryStore.empty).run bareStage shortVisit).written = 1 from hwritten] at hlines
  exact ⟨hutf8, by decide, hended, hids, houtput, hlines⟩

end Bridge
end PhaseHost
