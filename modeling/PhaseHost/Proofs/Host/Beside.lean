import PhaseHost.Proofs.Host.Polling

/-! # Side by side

    A run of a host is laid beside the run WITHOUT one of its handlers.  The handler is
    taken out at some moment, its request, if it awaits one, is given any result, and all
    events but its own polls happen as before, at places that have moved up.

    `Host.Beside` says how two hosts stand to each other then: `b` is what `a` is, less
    the handler while it is in flight, and less its reply once it has ended.  Every event
    keeps them so, provided that what the handler still does is contained in it. -/

namespace PhaseHost

variable {σ κ : Type}

/-! ## A run without one handler -/

/-- The handlers that are left when one of them is taken out. -/
def Fate.others : Fate → List Handler → List Handler
  | .inFlight n, handlers => handlers.eraseIdx n
  | .ended _, handlers => handlers

/-- The place that a handler has when another one is taken out. -/
def Fate.place : Fate → Nat → Nat
  | .inFlight n, m => if n < m then m - 1 else m
  | .ended _, m => m

/-- The event without a handler; polls of the handler itself do not happen. -/
def Fate.besides : Fate → HostEvent → List HostEvent
  | .inFlight n, .poll m => if m = n then [] else [.poll ((Fate.inFlight n).place m)]
  | _, event => [event]

/-- The replies of a run, and those of the run without one handler. -/
inductive Fate.Lacks : Fate → List Reply → List Reply → Prop
  | inFlight {n replies} : Lacks (.inFlight n) replies replies
  | ended {reply} (before after) :
      Lacks (.ended reply) (before ++ reply :: after) (before ++ after)

/-- What an event makes of a handler that may have ended. -/
def Fate.next (B : Backend σ κ) (h : Host σ κ) : Fate → HostEvent → Fate
  | .inFlight n, event => h.follow B n event
  | .ended reply, _ => .ended reply

/-- The fate of a handler when the one at another place ends. -/
def Fate.moved (m : Nat) : Fate → Fate
  | .inFlight n => .inFlight ((Fate.inFlight m).place n)
  | .ended reply => .ended reply

namespace Fate

variable {f : Fate} {n m : Nat} {xs ys : List Handler} {x : Handler}

/-- The others are found in their places without the one. -/
theorem getElem?_others (hm : f ≠ .inFlight m) : (f.others xs)[f.place m]? = xs[m]? := by
  cases f with
  | ended reply => rfl
  | inFlight n =>
      have hnm : n ≠ m := by
        rintro rfl
        exact hm rfl
      show (xs.eraseIdx n)[if n < m then m - 1 else m]? = xs[m]?
      rw [List.getElem?_eraseIdx]
      by_cases hlt : n < m
      · rw [if_pos hlt, if_neg (by omega), Nat.sub_add_cancel (by omega)]
      · rw [if_neg hlt, if_pos (by omega)]

/-- Changing another one changes it among the others. -/
theorem others_set (hm : f ≠ .inFlight m) :
    f.others (xs.set m x) = (f.others xs).set (f.place m) x := by
  cases f with
  | ended reply => rfl
  | inFlight n =>
      have hnm : n ≠ m := by
        rintro rfl
        exact hm rfl
      show (xs.set m x).eraseIdx n = (xs.eraseIdx n).set (if n < m then m - 1 else m) x
      by_cases hlt : n < m
      · rw [if_pos hlt, List.eraseIdx_set_lt hlt]
      · rw [if_neg hlt, List.eraseIdx_set_gt (by omega)]

/-- Two handlers are taken out in either order. -/
theorem eraseIdx_comm (hlt : m < n) :
    (xs.eraseIdx m).eraseIdx (n - 1) = (xs.eraseIdx n).eraseIdx m := by
  refine List.ext_getElem? (fun i => ?_)
  simp only [List.getElem?_eraseIdx]
  by_cases him : i < m
  · rw [if_pos (by omega), if_pos him, if_pos him, if_pos (by omega)]
  · rw [if_neg him, if_neg him]
    by_cases hin : i < n - 1
    · rw [if_pos hin, if_pos (by omega)]
    · rw [if_neg hin, if_neg (by omega), if_neg (by omega)]

/-- Taking another one out takes it out from among the others. -/
theorem others_eraseIdx (hm : f ≠ .inFlight m) :
    (f.moved m).others (xs.eraseIdx m) = (f.others xs).eraseIdx (f.place m) := by
  cases f with
  | ended reply => rfl
  | inFlight n =>
      have hnm : n ≠ m := by
        rintro rfl
        exact hm rfl
      show (xs.eraseIdx m).eraseIdx (if m < n then n - 1 else n)
        = (xs.eraseIdx n).eraseIdx (if n < m then m - 1 else m)
      by_cases hlt : m < n
      · rw [if_pos hlt, if_neg (by omega), eraseIdx_comm hlt]
      · rw [if_neg hlt, if_pos (by omega), eraseIdx_comm (by omega)]

/-- Whoever comes later is among the others. -/
theorem others_append (here : ∀ n, f = .inFlight n → n < xs.length) :
    f.others (xs ++ ys) = f.others xs ++ ys := by
  cases f with
  | ended reply => rfl
  | inFlight n => exact List.eraseIdx_append_of_lt_length (here n rfl) ys

/-- As long as the handler is in flight, nothing is lacking. -/
theorem Lacks.eq {replies fewer : List Reply} (h : (Fate.inFlight n).Lacks replies fewer) :
    fewer = replies := by
  cases h
  rfl

/-- A reply to somebody else comes on both sides. -/
theorem lacks_append {replies fewer : List Reply} (h : f.Lacks replies fewer) (reply : Reply)
    (m : Nat) : (f.moved m).Lacks (replies ++ [reply]) (fewer ++ [reply]) := by
  cases h with
  | inFlight => exact .inFlight
  | ended before after =>
      rw [List.append_assoc, List.cons_append, List.append_assoc]
      exact .ended before (after ++ [reply])

end Fate

namespace Host

/-- The events of a run without one handler. -/
def besides (B : Backend σ κ) (h : Host σ κ) (f : Fate) : List HostEvent → List HostEvent
  | [] => []
  | event :: rest => f.besides event ++ besides B (h.step B event) (f.next B h event) rest

variable {B : Backend σ κ} {a b : Host σ κ} {work : Work} {result : Except LoadError Readiness}
  {f : Fate} {event : HostEvent}

/-- The host `b` is what `a` is without a handler, whose request has ended somehow. -/
structure Beside (work : Work) (result : Except LoadError Readiness) (f : Fate)
    (a b : Host σ κ) : Prop where
  here : ∀ n, f = .inFlight n → (a.handlers[n]?).map Handler.work = some work
  handlers : b.handlers = f.others a.handlers
  /-- Nobody else awaits the request. -/
  alone : ∀ handler ∈ b.handlers, ∀ k, work = .await k → handler.work ≠ .await k
  phase : b.phase = work.settle result a.phase
  inbox : b.inbox = a.inbox
  accepting : b.accepting = a.accepting
  listening : b.listening = a.listening
  outbox : f.Lacks a.outbox b.outbox

/-- Where nobody is answered, the handler stays in its place. -/
theorem next_of_silent (hreply : a.reply? B event = none) : f.next B a event = f := by
  cases f with
  | inFlight n => exact follow_of_silent hreply
  | ended reply => rfl

/-- A frame that is received brings a handler that awaits nothing. -/
theorem work_of_handlerOf {p : Phase σ κ} {frame : Json} {handler : Handler}
    (h : handlerOf p frame = some handler) (k : Nat) : handler.work ≠ .await k := by
  intro hwork
  simp only [handlerOf] at h
  split at h
  next m hm =>
    obtain rfl := Option.some.inj h
    simp only [workFor] at hwork
    split at hwork <;> cases hwork
  next =>
    obtain rfl := Option.some.inj h
    cases hwork
  next => cases h

/-- A handler that goes on awaits the request it has just made. -/
theorem work_of_begins {p q : Phase σ κ} {handler handler' : Handler}
    (h : handler.polled B p = .begins handler' q) : handler'.work = .await p.requests.length := by
  obtain ⟨id, work⟩ := handler
  cases work with
  | refuse failure => cases h
  | begin payload =>
      cases h
      rfl
  | compute handle action =>
      simp only [Handler.polled] at h
      split at h <;> cases h
  | await k =>
      simp only [Handler.polled] at h
      split at h <;> cases h

namespace Beside

variable {a' b' : Host σ κ}

/-- A step that leaves handlers and replies alone. -/
theorem frame (h : Beside work result f a b) (ha : a'.handlers = a.handlers)
    (hb : b'.handlers = b.handlers) (houta : a'.outbox = a.outbox) (houtb : b'.outbox = b.outbox)
    (hphase : b'.phase = work.settle result a'.phase) (hinbox : b'.inbox = a'.inbox)
    (haccepting : b'.accepting = a'.accepting) (hlistening : b'.listening = a'.listening) :
    Beside work result f a' b' where
  here := by rw [ha]; exact h.here
  handlers := by rw [ha, hb]; exact h.handlers
  alone := by rw [hb]; exact h.alone
  phase := hphase
  inbox := hinbox
  accepting := haccepting
  listening := hlistening
  outbox := by rw [houta, houtb]; exact h.outbox

/-- A frame is delivered on both sides. -/
theorem deliver (h : Beside work result f a b) (wa : a.Winding) (wb : b.Winding) (frame : Json) :
    Beside work result f (a.step B (.deliver frame)) (b.step B (.deliver frame)) := by
  rw [wa.step_deliver, wb.step_deliver, h.accepting]
  by_cases haccepts : a.accepting = true
  · rw [if_pos haccepts, if_pos haccepts]
    exact h.frame rfl rfl rfl rfl h.phase (by rw [h.inbox]) rfl h.listening
  · rw [if_neg haccepts, if_neg haccepts]
    exact h

/-- A frame is received on both sides. -/
theorem receive (h : Beside work result f a b) (wa : a.Winding) (wb : b.Winding) :
    Beside work result f (a.step B .receive) (b.step B .receive) := by
  rw [wa.step_receive, wb.step_receive, h.listening]
  by_cases hlistens : a.listening = true
  · rw [if_pos hlistens, if_pos hlistens]
    have hinbox := h.inbox
    simp only [Host.receive]
    cases hnext : a.inbox with
    | nil =>
        rw [hnext] at hinbox
        rw [hinbox]
        dsimp only
        rw [h.accepting]
        by_cases haccepts : a.accepting = true
        · rw [if_pos haccepts, if_pos haccepts]
          exact h
        · rw [if_neg haccepts, if_neg haccepts]
          exact h.frame rfl rfl rfl rfl h.phase rfl rfl rfl
    | cons frame rest =>
        rw [hnext] at hinbox
        rw [hinbox]
        dsimp only
        rw [h.phase, Phase.handlerOf_settle]
        -- the new handler goes in behind all others in both
        exact {
          here := by
            intro n hf
            have here := h.here n hf
            obtain ⟨handler, hn, hwork⟩ := Option.map_eq_some_iff.mp here
            refine Option.map_eq_some_iff.mpr ⟨handler, ?_, hwork⟩
            exact (List.getElem?_append_left (List.getElem?_eq_some_iff.mp hn).1).trans hn
          handlers := by
            show b.handlers ++ _ = f.others (a.handlers ++ _)
            rw [h.handlers, Fate.others_append]
            intro n hf
            obtain ⟨handler, hn, -⟩ := Option.map_eq_some_iff.mp (h.here n hf)
            exact (List.getElem?_eq_some_iff.mp hn).1
          alone := by
            intro handler hmem k hwork
            rcases List.mem_append.mp hmem with hold | hnew
            · exact h.alone handler hold k hwork
            · exact work_of_handlerOf (Option.mem_toList.mp hnew) k
          phase := rfl
          inbox := rfl
          accepting := h.accepting
          listening := h.listening
          outbox := h.outbox }
  · rw [if_neg hlistens, if_neg hlistens]
    exact h

/-- What goes on in the background goes on on both sides. -/
theorem background (h : Beside work result f a b) (contains : a.phase.Contains B work)
    (event : PhaseEvent) :
    Beside work result f (a.step B (.background event)) (b.step B (.background event)) := by
  have hphase : b.phase.step B event = work.settle result (a.phase.step B event) := by
    rw [h.phase, contains.settle_step]
  cases event with
  | request version sources => exact h
  | resume n => exact h.frame rfl rfl rfl rfl hphase h.inbox h.accepting h.listening
  | startEngine n => exact h.frame rfl rfl rfl rfl hphase h.inbox h.accepting h.listening
  | resumeEngine n => exact h.frame rfl rfl rfl rfl hphase h.inbox h.accepting h.listening
  | load event => exact h.frame rfl rfl rfl rfl hphase h.inbox h.accepting h.listening

/-- A host and the one beside it stop together. -/
theorem stop (h : Beside work result f a b) :
    Beside work result f (a.step B .stop) (b.step B .stop) := by
  have key : ∀ c : Host σ κ, c.step B .stop = c ∨ c.step B .stop = { c with stopped := true } := by
    intro c
    show (if c.isDone then _ else c) = c ∨ (if c.isDone then _ else c) = _
    split
    · exact Or.inr rfl
    · exact Or.inl rfl
  rcases key a with ha | ha <;> rcases key b with hb | hb <;> rw [ha, hb] <;>
    exact h.frame rfl rfl rfl rfl h.phase h.inbox h.accepting h.listening

/-- Polling another handler comes to the same in both. -/
theorem poll_other (h : Beside work result f a b) (contains : a.phase.Contains B work)
    (wa : a.Winding) (wb : b.Winding) {m : Nat} (hm : f ≠ .inFlight m) :
    Beside work result (f.next B a (.poll m)) (a.step B (.poll m))
      (b.step B (.poll (f.place m))) := by
  have hsame : b.handlers[f.place m]? = a.handlers[m]? := by
    rw [h.handlers]
    exact Fate.getElem?_others hm
  have hsilent : (a.step B (.poll m)).outbox = a.outbox → f.next B a (.poll m) = f :=
    fun hout => next_of_silent (reply?_of_silent hout)
  rw [wa.step_poll] at hsilent ⊢
  rw [wb.step_poll]
  cases hx : a.handlers[m]? with
  | none =>
      rw [hx] at hsame
      rw [poll_of_none hx] at hsilent ⊢
      rw [poll_of_none hsame, hsilent rfl]
      exact h
  | some handler =>
      rw [hx] at hsame
      have hother := h.alone handler (List.mem_of_getElem? hsame)
      rw [poll_eq_take hx] at hsilent ⊢
      rw [poll_eq_take hsame, h.phase, contains.polled_settle result hother]
      cases hpolled : handler.polled B a.phase with
      | rests =>
          rw [hpolled] at hsilent
          rw [hsilent rfl]
          exact h
      | begins handler' phase =>
          rw [hpolled] at hsilent
          rw [hsilent rfl]
          exact {
            here := by
              intro n hf
              have hmn : m ≠ n := by
                rintro rfl
                exact hm hf
              show ((a.handlers.set m handler')[n]?).map Handler.work = some work
              rw [List.getElem?_set_ne hmn]
              exact h.here n hf
            handlers := by
              show b.handlers.set _ _ = f.others (a.handlers.set m handler')
              rw [Fate.others_set hm, h.handlers]
            alone := by
              intro other hmem k hwork
              rcases List.mem_or_eq_of_mem_set hmem with hold | rfl
              · exact h.alone other hold k hwork
              · rw [work_of_begins hpolled]
                subst hwork
                cases contains with
                | await lost =>
                    obtain ⟨request, here, -⟩ := lost
                    intro heq
                    have hk : k < a.phase.requests.length := (List.getElem?_eq_some_iff.mp here).1
                    exact absurd (Work.await.inj heq) (by omega)
            phase := rfl
            inbox := h.inbox
            accepting := h.accepting
            listening := h.listening
            outbox := h.outbox }
      | ends reply phase =>
          have hreply : a.reply? B (.poll m) = some reply := by
            refine reply?_of_outbox ?_
            rw [wa.step_poll, poll_eq_take hx, hpolled]
            rfl
          have hnext : f.next B a (.poll m) = f.moved m := by
            cases f with
            | ended reply => rfl
            | inFlight n =>
                have hmn : m ≠ n := by
                  rintro rfl
                  exact hm rfl
                simp only [Fate.next, follow]
                rw [hreply]
                exact if_neg hmn
          rw [hnext]
          exact {
            here := by
              intro n hf
              cases f with
              | ended reply => cases hf
              | inFlight n' =>
                  obtain rfl := Fate.inFlight.inj hf
                  have hne : Fate.inFlight m ≠ .inFlight n' := fun heq => hm heq.symm
                  show (((Fate.inFlight m).others a.handlers)[_]?).map Handler.work = some work
                  rw [Fate.getElem?_others hne]
                  exact h.here n' rfl
            handlers := by
              show b.handlers.eraseIdx _ = (f.moved m).others (a.handlers.eraseIdx m)
              rw [Fate.others_eraseIdx hm, h.handlers]
            alone := by
              intro other hmem k hwork
              exact h.alone other (List.mem_of_mem_eraseIdx hmem) k hwork
            phase := rfl
            inbox := h.inbox
            accepting := h.accepting
            listening := h.listening
            outbox := Fate.lacks_append h.outbox reply m }

/-- When the handler itself is polled, nothing happens where it is not. -/
theorem poll_own {n : Nat} (h : Beside work result (.inFlight n) a b)
    (contains : a.phase.Contains B work) (wa : a.Winding) :
    Beside work result ((Fate.inFlight n).next B a (.poll n)) (a.step B (.poll n)) b := by
  obtain ⟨⟨id, own⟩, here, hwork⟩ := Option.map_eq_some_iff.mp (h.here n rfl)
  change own = work at hwork
  subst hwork
  rcases contains.polled id with hrests | ⟨reply, hends⟩
  · have hstep : a.step B (.poll n) = a := by
      rw [wa.step_poll, poll_eq_take here, hrests]
      rfl
    rw [hstep, next_of_silent (reply?_of_silent (congrArg Host.outbox hstep))]
    exact h
  · have hstep : a.step B (.poll n) = a.emit n reply := by
      rw [wa.step_poll, poll_eq_take here, hends]
      rfl
    have hnext : (Fate.inFlight n).next B a (.poll n) = .ended reply := by
      simp only [Fate.next, follow]
      rw [reply?_of_outbox (congrArg Host.outbox hstep)]
      exact if_pos rfl
    rw [hstep, hnext]
    have hout : b.outbox = a.outbox := h.outbox.eq
    exact {
      here := by
        intro n' heq
        cases heq
      handlers := h.handlers
      alone := h.alone
      phase := h.phase
      inbox := h.inbox
      accepting := h.accepting
      listening := h.listening
      outbox := by
        rw [hout]
        show (Fate.ended reply).Lacks (a.outbox ++ [reply]) a.outbox
        have hlacks : (Fate.ended reply).Lacks (a.outbox ++ [reply]) (a.outbox ++ []) :=
          .ended a.outbox []
        rwa [List.append_nil] at hlacks }

/-- **AN EVENT** leaves a host beside the other one. -/
theorem step (h : Beside work result f a b) (contains : a.phase.Contains B work)
    (wa : a.Winding) (wb : b.Winding) (event : HostEvent) :
    Beside work result (f.next B a event) (a.step B event) (b.run B (f.besides event)) := by
  by_cases hpoll : ∃ m, event = .poll m
  · obtain ⟨m, rfl⟩ := hpoll
    by_cases hm : f = .inFlight m
    · subst hm
      rw [show (Fate.inFlight m).besides (.poll m) = [] from if_pos rfl]
      exact h.poll_own contains wa
    · have hbesides : f.besides (.poll m) = [.poll (f.place m)] := by
        cases f with
        | ended reply => rfl
        | inFlight n =>
            refine if_neg ?_
            rintro rfl
            exact hm rfl
      rw [hbesides]
      exact h.poll_other contains wa wb hm
  · have hsilent : a.reply? B event = none := by
      cases hreply : a.reply? B event with
      | none => rfl
      | some reply =>
          obtain ⟨m, hends⟩ := ends_of_reply? hreply
          exact absurd ⟨m, hends.polled⟩ hpoll
    have hbesides : f.besides event = [event] := by
      cases event with
      | poll m => exact absurd ⟨m, rfl⟩ hpoll
      | deliver frame => cases f <;> rfl
      | close => cases f <;> rfl
      | receive => cases f <;> rfl
      | background event => cases f <;> rfl
      | stop => cases f <;> rfl
    rw [next_of_silent hsilent, hbesides]
    show Beside work result f (a.step B event) (b.step B event)
    cases event with
    | poll m => exact absurd ⟨m, rfl⟩ hpoll
    | deliver frame => exact h.deliver wa wb frame
    | close => exact h.frame rfl rfl rfl rfl h.phase h.inbox rfl h.listening
    | receive => exact h.receive wa wb
    | background event => exact h.background contains event
    | stop => exact h.stop

end Beside

/-- What a sequence of events makes of a handler that may have ended. -/
def along (B : Backend σ κ) (h : Host σ κ) : Fate → List HostEvent → Fate
  | .inFlight n, events => h.fate B n events
  | .ended reply, _ => .ended reply

/-- The fate of a handler is that after the first event and along the rest. -/
theorem along_cons (rest : List HostEvent) :
    a.along B f (event :: rest) = (a.step B event).along B (f.next B a event) rest := by
  cases f with
  | ended reply => rfl
  | inFlight n =>
      show a.fate B n (event :: rest) = (a.step B event).along B (a.follow B n event) rest
      cases hfollow : a.follow B n event with
      | inFlight m => exact fate_cons_inFlight hfollow
      | ended reply => exact fate_cons_ended hfollow

/-- **SIDE BY SIDE**: a run and the run without a handler go on side by side. -/
theorem Beside.run (h : Beside work result f a b) (contains : a.phase.Contains B work)
    (wa : a.Winding) (wb : b.Winding) (events : List HostEvent) :
    Beside work result (a.along B f events) (a.run B events) (b.run B (a.besides B f events)) := by
  induction events generalizing a b f with
  | nil =>
      cases f with
      | ended reply => exact h
      | inFlight n => exact h
  | cons event rest ih =>
      rw [along_cons, show a.besides B f (event :: rest)
        = f.besides event ++ (a.step B event).besides B (f.next B a event) rest from rfl,
        run_append]
      exact ih (h.step contains wa wb event) (contains.driven (move_step B a event).driven)
        (wa.step event) (wb.run _)

end Host
end PhaseHost
