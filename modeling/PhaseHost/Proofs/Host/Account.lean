import Mathlib.Data.List.Perm.Basic
import PhaseHost.Proofs.Entries
import PhaseHost.Proofs.Host.Moves

/-! # Every frame is answered once

    The ACCOUNT of a host are the ids of its replies and of its handlers, each
    as often as it occurs.  Only one event changes it: receiving a frame with a
    usable id adds that id.  Ending a handler moves an id from the handlers to
    the outbox, and that is all it does.

    Frames leave the inbox in the order they came, so what was delivered is what
    was received, followed by the inbox.  A host that has stopped has an empty
    inbox and no handlers, so all that was delivered has been answered. -/

namespace PhaseHost

/-! ## Usable ids -/

theorem Json.natural?_eq_some_iff (v : Json) (id : UInt64) :
    v.natural? = some id ↔ v = .int id.toNat := by
  constructor
  · intro h
    simp only [natural?] at h
    split at h
    next n =>
      by_cases hn : n < 0x10000000000000000
      · rw [if_pos hn] at h
        cases h
        rw [UInt64.toNat_ofNat_of_lt' hn]
        rfl
      · rw [if_neg hn] at h
        exact nomatch h
    next => exact nomatch h
  · rintro rfl
    show (if id.toNat < 0x10000000000000000 then some (UInt64.ofNat id.toNat) else none) = _
    rw [if_pos id.toNat_lt, UInt64.ofNat_toNat]

/-- A usable id is an integer in `0 .. 2^64 - 1` under the key `id` of an object. -/
theorem Message.idOf_eq_some_iff (frame : Json) (id : UInt64) :
    Message.idOf frame = some id ↔
      ∃ fields, frame = .obj fields ∧ Fields.find? "id" fields = some (.int id.toNat) := by
  constructor
  · intro h
    obtain ⟨v, hv, hid⟩ := Option.bind_eq_some_iff.mp h
    rw [Json.natural?_eq_some_iff] at hid
    subst hid
    cases frame with
    | obj fields => exact ⟨fields, rfl, hv⟩
    | null => exact nomatch hv
    | bool b => exact nomatch hv
    | int i => exact nomatch hv
    | float bits => exact nomatch hv
    | str s => exact nomatch hv
    | arr items => exact nomatch hv
  · rintro ⟨fields, rfl, hv⟩
    exact Option.bind_eq_some_iff.mpr ⟨_, hv, (Json.natural?_eq_some_iff _ id).mpr rfl⟩

/-- A frame that is accepted has the id of its request. -/
theorem Message.idOf_of_ok {frame : Json} {m : Message} (hm : Message.ofFrame frame = .ok m) :
    Message.idOf frame = some m.id := by
  simp only [ofFrame] at hm
  split at hm
  · split at hm
    · exact nomatch hm
    next id hid =>
      split at hm
      · cases hm
        exact hid
      · exact nomatch hm
  · exact nomatch hm

/-- A frame that is not accepted still gives its usable id. -/
theorem Message.idOf_of_error {frame : Json} {e : FrameError}
    (he : Message.ofFrame frame = .error e) : Message.idOf frame = e.id := by
  simp only [ofFrame] at he
  split at he
  · split at he
    next hid =>
      cases he
      exact hid
    next id hid =>
      split at he
      · exact nomatch he
      · cases he
        exact hid
  next other =>
    cases he
    cases frame with
    | obj fields => exact absurd rfl (other fields)
    | null => rfl
    | bool b => rfl
    | int i => rfl
    | float bits => rfl
    | str s => rfl
    | arr items => rfl

namespace Host

variable {σ κ : Type} {B : Backend σ κ} {h h' : Host σ κ} {event : HostEvent}

/-- A frame gets a handler exactly if it has a usable id, and under that id. -/
theorem id_handlerOf (p : Phase σ κ) (frame : Json) :
    (handlerOf p frame).map Handler.id = Message.idOf frame := by
  simp only [handlerOf]
  split
  next m hm => exact (Message.idOf_of_ok hm).symm
  next id fault hm => exact (Message.idOf_of_error hm).symm
  next fault hm => exact (Message.idOf_of_error hm).symm

/-! ## The account -/

/-- The ids of all replies and all handlers. -/
def account (h : Host σ κ) : List UInt64 :=
  h.outbox.map Reply.id ++ h.handlers.map Handler.id

/-- Ending a handler moves its id from the handlers to the outbox. -/
theorem Ends.account {n : Nat} {reply : Reply} (hends : Ends h event h' n reply) :
    h'.account.Perm h.account := by
  obtain ⟨handler, here, hid⟩ := hends.own
  obtain ⟨hn, rfl⟩ := List.getElem?_eq_some_iff.mp here
  -- taking a handler out and putting it in front only reorders the handlers
  have hperm : (h.handlers[n].id :: (h.handlers.eraseIdx n).map Handler.id).Perm
      (h.handlers.map Handler.id) := (List.getElem_cons_eraseIdx_perm hn).map Handler.id
  simp only [Host.account]
  rw [hends.outbox, hends.handlers, List.map_append, List.append_assoc]
  show (h.outbox.map Reply.id ++ (reply.id :: (h.handlers.eraseIdx n).map Handler.id)).Perm _
  rw [hid]
  exact hperm.append_left _

/-- **ONE ID A FRAME**: a move adds to the account the usable id of the frame it
    takes, if it takes one, and nothing else. -/
theorem Move.account (hmove : Move B h event h') :
    h'.account.Perm (h.account ++ ((h.taken? event).bind Message.idOf).toList) := by
  cases hmove with
  | @receive frame rest listens next =>
      have htaken : h.taken? .receive = some frame := by
        show (if h.listening ∧ ¬ h.stopped then h.inbox.head? else none) = some frame
        rw [if_pos listens, next]
        rfl
      simp only [Host.account]
      rw [htaken, Option.bind_some, ← id_handlerOf h.phase frame, List.map_append,
        Option.toList_map, List.append_assoc]
  | stay unadmitted untaken =>
      rw [untaken]
      exact .of_eq (List.append_nil _).symm
  | refuse runs here =>
      rw [show h.taken? (.poll _) = none from rfl]
      exact (Ends.account ⟨rfl, ⟨_, here, id_ofResult ..⟩, rfl, rfl⟩).trans
        (.of_eq (List.append_nil _).symm)
  | serve runs here made =>
      exact (Ends.account ⟨rfl, ⟨_, here, id_reply ..⟩, rfl, rfl⟩).trans
        (.of_eq (List.append_nil _).symm)
  | answer runs here ended =>
      exact (Ends.account ⟨rfl, ⟨_, here, id_requestReply ..⟩, rfl, rfl⟩).trans
        (.of_eq (List.append_nil _).symm)
  | @begin n id payload runs here =>
      have hids : (h.handlers.set n ⟨id, .await h.phase.requests.length⟩).map Handler.id
          = h.handlers.map Handler.id := map_set_eq here rfl
      show (h.outbox.map Reply.id ++ (h.handlers.set n _).map Handler.id).Perm _
      rw [hids]
      exact .of_eq (List.append_nil _).symm
  | deliver takes => exact .of_eq (List.append_nil _).symm
  | close => exact .of_eq (List.append_nil _).symm
  | hangUp dry closed =>
      rw [taken?_of_dry dry]
      exact .of_eq (List.append_nil _).symm
  | background event => exact .of_eq (List.append_nil _).symm
  | stop done => exact .of_eq (List.append_nil _).symm

theorem account_run (B : Backend σ κ) (store : σ) (events : List HostEvent) :
    ((empty store).run B events).account.Perm
      ((received B (empty store) events).filterMap Message.idOf) := by
  induction events using List.reverseRecOn with
  | nil => exact .refl []
  | append_singleton events event ih =>
      simp only [received] at ih ⊢
      rw [run_concat, trail_concat, List.filterMap_append]
      -- the last event adds to both sides the id of the frame it takes, if any
      refine (move_step B _ event).account.trans ?_
      refine (ih.append_right _).trans (.of_eq (congrArg _ ?_))
      show (((run B (empty store) events).taken? event).bind Message.idOf).toList
        = ((run B (empty store) events).taken? event).toList.filterMap Message.idOf
      cases ((empty store).run B events).taken? event with
      | none => rfl
      | some frame =>
          show (Message.idOf frame).toList = [frame].filterMap Message.idOf
          cases hid : Message.idOf frame with
          | none => rw [List.filterMap_cons_none hid]; rfl
          | some id => rw [List.filterMap_cons_some hid]; rfl

/-! ## First in, first out -/

/-- What a move puts into the inbox goes in behind, what it takes comes from the front. -/
theorem Move.inbox (hmove : Move B h event h') :
    h.inbox ++ (h.admitted? event).toList = (h.taken? event).toList ++ h'.inbox := by
  cases hmove with
  | stay unadmitted untaken =>
      rw [unadmitted, untaken]
      exact List.append_nil _
  | deliver takes =>
      rw [show h.admitted? (.deliver _) = some _ from if_pos takes]
      rfl
  | receive listens next =>
      rw [show h.taken? .receive = h.inbox.head? from if_pos listens, next]
      exact List.append_nil _
  | hangUp dry closed =>
      rw [taken?_of_dry dry]
      exact List.append_nil _
  | close => exact List.append_nil _
  | refuse runs here => exact List.append_nil _
  | serve runs here made => exact List.append_nil _
  | begin runs here => exact List.append_nil _
  | answer runs here ended => exact List.append_nil _
  | background event => exact List.append_nil _
  | stop done => exact List.append_nil _

theorem delivered_run (B : Backend σ κ) (store : σ) (events : List HostEvent) :
    delivered B (empty store) events
      = received B (empty store) events ++ ((empty store).run B events).inbox := by
  induction events using List.reverseRecOn with
  | nil => rfl
  | append_singleton events event ih =>
      simp only [delivered, received] at ih ⊢
      rw [run_concat, trail_concat, trail_concat, ih, List.append_assoc, List.append_assoc]
      exact congrArg _ (move_step B _ event).inbox

/-! ## The end -/

/-- A host only hears the end of a closed and empty inbox, and only stops when
    it has heard it and no handler is left. -/
structure Winding (h : Host σ κ) : Prop where
  heard : h.listening = false → h.accepting = false ∧ h.inbox = []
  finished : h.stopped = true → h.listening = false ∧ h.handlers = []

theorem Winding.move (hw : h.Winding) (hmove : Move B h event h') : h'.Winding := by
  -- a move with a guard against having stopped has nothing to show for the end
  have vain : ¬ h.stopped = true → ∀ {P : Prop}, h.stopped = true → P :=
    fun runs _ hs => absurd hs runs
  cases hmove with
  | stay unadmitted untaken => exact hw
  | deliver takes =>
      refine ⟨fun hl => ?_, vain takes.2⟩
      rw [(hw.heard hl).1] at takes
      exact nomatch takes.1
  | close => exact ⟨fun hl => ⟨rfl, (hw.heard hl).2⟩, hw.finished⟩
  | receive listens next =>
      refine ⟨fun hl => ?_, vain listens.2⟩
      rw [show h.listening = false from hl] at listens
      exact nomatch listens.1
  | hangUp dry closed =>
      exact ⟨fun _ => ⟨closed, dry⟩, fun hs => ⟨rfl, (hw.finished hs).2⟩⟩
  | refuse runs here => exact ⟨hw.heard, vain runs⟩
  | serve runs here made => exact ⟨hw.heard, vain runs⟩
  | begin runs here => exact ⟨hw.heard, vain runs⟩
  | answer runs here ended => exact ⟨hw.heard, vain runs⟩
  | background event => exact ⟨hw.heard, hw.finished⟩
  | stop done =>
      simp only [isDone] at done
      rw [Bool.and_eq_true, Bool.not_eq_true', List.isEmpty_iff] at done
      exact ⟨hw.heard, fun _ => done⟩

theorem winding_run (B : Backend σ κ) (store : σ) (events : List HostEvent) :
    ((empty store : Host σ κ).run B events).Winding := by
  induction events using List.reverseRecOn with
  | nil => exact ⟨nofun, nofun⟩
  | append_singleton events event ih =>
      rw [run_concat]
      exact ih.move (move_step B _ event)

/-- A frame without a usable id leaves no mark but on the inbox. -/
theorem step_receive_unusable {frame : Json} (htaken : h.taken? .receive = some frame)
    (hid : Message.idOf frame = none) :
    h.step B .receive = { h with inbox := h.inbox.tail } := by
  have hnone : handlerOf h.phase frame = none := by
    rw [← Option.map_eq_none_iff (f := Handler.id), id_handlerOf, hid]
  rw [step_receive_of_taken htaken, hnone]
  show ({ h with inbox := h.inbox.tail, handlers := h.handlers ++ [] } : Host σ κ) = _
  rw [List.append_nil]

/-- **EVERY FRAME IS ANSWERED ONCE**.  In every state that a host reaches:

    * the ids of its replies and handlers are the usable ids of the frames it has
      received, each as often as it was received;
    * what was delivered is what was received, followed by the inbox;
    * if it has stopped, its inbox is closed and empty and no handler is left, so
      its replies answer all that was delivered;
    * a reply ends one handler, under the id of that handler;
    * a frame without a usable id only leaves the inbox;
    * usable ids are the integers in `0 .. 2^64 - 1` under the key `id` of an object. -/
theorem every_frame_answered_once (B : Backend σ κ) (store : σ) (events : List HostEvent) :
    let h := (empty store).run B events
    (h.outbox.map Reply.id ++ h.handlers.map Handler.id).Perm
      ((received B (empty store) events).filterMap Message.idOf) ∧
    delivered B (empty store) events = received B (empty store) events ++ h.inbox ∧
    (h.stopped = true → h.accepting = false ∧ h.inbox = [] ∧ h.handlers = []
      ∧ (h.outbox.map Reply.id).Perm
        ((delivered B (empty store) events).filterMap Message.idOf)) ∧
    (∀ event reply, h.reply? B event = some reply →
      ∃ n handler, event = .poll n ∧ h.handlers[n]? = some handler ∧ reply.id = handler.id
        ∧ (h.step B event).handlers = h.handlers.eraseIdx n) ∧
    (∀ frame, h.taken? .receive = some frame → Message.idOf frame = none →
      h.step B .receive = { h with inbox := h.inbox.tail }) ∧
    ∀ frame id, Message.idOf frame = some id ↔
      ∃ fields, frame = .obj fields ∧ Fields.find? "id" fields = some (.int id.toNat) := by
  intro h
  have haccount : h.account.Perm _ := account_run B store events
  have hfifo := delivered_run B store events
  have hw : h.Winding := winding_run B store events
  refine ⟨haccount, hfifo, ?_, ?_, ?_, Message.idOf_eq_some_iff⟩
  · intro hstopped
    -- with nothing in the inbox and nothing in flight, both accounts are the whole
    obtain ⟨hlistening, hhandlers⟩ := hw.finished hstopped
    obtain ⟨haccepting, hinbox⟩ := hw.heard hlistening
    refine ⟨haccepting, hinbox, hhandlers, ?_⟩
    rw [hfifo, show ((empty store).run B events).inbox = [] from hinbox, List.append_nil]
    simp only [account] at haccount
    rw [hhandlers, List.map_nil, List.append_nil] at haccount
    exact haccount
  · intro event reply hreply
    obtain ⟨n, hends⟩ := ends_of_reply? hreply
    obtain ⟨handler, here, hid⟩ := hends.own
    exact ⟨n, handler, hends.polled, here, hid, hends.handlers⟩
  · intro frame htaken hid
    exact step_receive_unusable htaken hid

end Host
end PhaseHost
