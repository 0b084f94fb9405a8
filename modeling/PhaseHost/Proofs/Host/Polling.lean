import PhaseHost.Proofs.Host.Requests

/-! # What a poll looks at

    A poll looks at the handler and at the controller, and at nothing else of the host:
    `poll_eq_take`.  Nor does any step look at whether the host has stopped, since a host
    stops when nothing can happen to it any more.

    Of the controller, the result of a request is looked at by the handler that awaits it
    and by nothing else.  So if a request is LOST, because it has ended or its attempt has
    failed, it may as well have ended with anything (`Lost.finish_step`): neither the
    controller nor any other handler goes another way (`Contains.settle_step`,
    `Contains.polled_settle`). -/

namespace PhaseHost

variable {σ κ : Type}

/-! ## Polling as a function -/

/-- What comes of polling a handler. -/
inductive Polled (σ κ : Type) where
  | rests
  /-- The handler goes on as another. -/
  | begins (handler : Handler) (phase : Phase σ κ)
  | ends (reply : Reply) (phase : Phase σ κ)

/-- The same with another controller left behind. -/
def Polled.map (f : Phase σ κ → Phase σ κ) : Polled σ κ → Polled σ κ
  | .rests => .rests
  | .begins handler phase => .begins handler (f phase)
  | .ends reply phase => .ends reply (f phase)

/-- What comes of polling a handler at a controller. -/
def Handler.polled (B : Backend σ κ) (p : Phase σ κ) : Handler → Polled σ κ
  | ⟨id, .refuse failure⟩ => .ends (.ofResult id (.error failure)) p
  | ⟨id, .compute handle action⟩ =>
    match p.loader.product? handle with
    | some c =>
      .ends (B.runtime.reply id c action).1
        { p with loader := p.loader.replaceProduct handle (B.runtime.reply id c action).2 }
    | none => .rests
  | ⟨id, .begin payload⟩ =>
    .begins ⟨id, .await p.requests.length⟩ (p.request payload.version payload.sources)
  | ⟨id, .await request⟩ =>
    match (p.requests[request]?).bind Request.result? with
    | some result => .ends (Host.requestReply id result) p
    | none => .rests

namespace Host

variable {B : Backend σ κ} {h a b : Host σ κ} {n m : Nat} {event : HostEvent}

/-- Take over what comes of polling the handler at a place. -/
def take (h : Host σ κ) (n : Nat) : Polled σ κ → Host σ κ
  | .rests => h
  | .begins handler phase => { h with phase := phase, handlers := h.handlers.set n handler }
  | .ends reply phase => { h with phase := phase }.emit n reply

/-- Polling looks at the handler and the controller only. -/
theorem poll_eq_take {handler : Handler} (here : h.handlers[n]? = some handler) :
    h.poll B n = h.take n (handler.polled B h.phase) := by
  obtain ⟨id, work⟩ := handler
  simp only [poll, here]
  cases work with
  | refuse failure => rfl
  | compute handle action =>
      simp only [Handler.polled]
      cases h.phase.loader.product? handle with
      | some c => rfl
      | none => rfl
  | begin payload => rfl
  | await request =>
      simp only [Handler.polled]
      cases (h.phase.requests[request]?).bind Request.result? with
      | some result => rfl
      | none => rfl

/-- There is nobody to poll behind the last handler. -/
theorem poll_of_none (here : h.handlers[n]? = none) : h.poll B n = h := by
  simp only [poll, here]

/-! ## Stopping does not show

    A host stops when nothing can happen to it any more, so it makes no difference to a
    step whether it has. -/

/-- A host that accepts frames has not stopped. -/
theorem Winding.runs_of_accepting (hw : h.Winding) (haccepts : h.accepting = true) :
    ¬ h.stopped := by
  intro hstopped
  rw [(hw.heard (hw.finished hstopped).1).1] at haccepts
  exact nomatch haccepts

/-- A frame is queued as long as frames are accepted. -/
theorem Winding.step_deliver (hw : h.Winding) (frame : Json) :
    h.step B (.deliver frame)
      = if h.accepting then { h with inbox := h.inbox ++ [frame] } else h := by
  show (if h.accepting ∧ ¬ h.stopped then _ else h) = _
  by_cases haccepts : h.accepting = true
  · rw [if_pos ⟨haccepts, hw.runs_of_accepting haccepts⟩, if_pos haccepts]
  · rw [if_neg (fun hboth => haccepts hboth.1), if_neg haccepts]

/-- A frame is taken as long as the host listens. -/
theorem Winding.step_receive (hw : h.Winding) :
    h.step B .receive = if h.listening then h.receive else h := by
  show (if h.listening ∧ ¬ h.stopped then _ else h) = _
  by_cases hlistens : h.listening = true
  · have hruns : ¬ h.stopped := by
      intro hstopped
      rw [(hw.finished hstopped).1] at hlistens
      exact nomatch hlistens
    rw [if_pos ⟨hlistens, hruns⟩, if_pos hlistens]
  · rw [if_neg (fun hboth => hlistens hboth.1), if_neg hlistens]

/-- Whatever a poll does, it does also when the host winds up. -/
theorem Winding.step_poll (hw : h.Winding) (n : Nat) : h.step B (.poll n) = h.poll B n := by
  show (if h.stopped then h else h.poll B n) = _
  by_cases hstopped : h.stopped = true
  · rw [if_pos hstopped, poll_of_none]
    rw [(hw.finished hstopped).2]
    rfl
  · exact if_neg hstopped

/-- A host goes through its end in order. -/
theorem Winding.step (hw : h.Winding) (event : HostEvent) : (h.step B event).Winding :=
  hw.move (move_step B h event)

/-- In every run a host goes through its end in order. -/
theorem Winding.run (hw : h.Winding) (events : List HostEvent) : (h.run B events).Winding := by
  induction events generalizing h with
  | nil => exact hw
  | cons event rest ih => exact ih (hw.step event)

end Host

/-! ## Results are looked at by one handler -/

namespace Phase

variable {B : Backend σ κ} {p q : Phase σ κ} {k : Nat} {request : Request}
  {result result' : Except LoadError Readiness}

@[simp] theorem finish_loader : (p.finish k result).loader = p.loader := rfl

@[simp] theorem finish_engineLoads : (p.finish k result).engineLoads = p.engineLoads := rfl

/-- The result that comes last stays. -/
theorem finish_finish (p : Phase σ κ) (k : Nat) (result result' : Except LoadError Readiness) :
    (p.finish k result).finish k result' = p.finish k result' := by
  simp only [finish, List.modify_modify_eq]
  rfl

/-- Two requests end independently. -/
theorem finish_comm {n : Nat} (hkn : k ≠ n) :
    (p.finish k result).finish n result' = (p.finish n result').finish k result := by
  simp only [finish, List.modify_modify_ne _ _ _ hkn]

/-- Ending a request and putting another one through do not disturb each other. -/
theorem finish_commit {n : Nat} (hkn : k ≠ n) (version : String) (sources : ModuleSources)
    (handle : Handle) : (p.finish k result).commit n version sources handle
      = (p.commit n version sources handle).finish k result := by
  simp only [commit]
  cases sources.engine with
  | none => exact finish_comm (p := { p with reader := _ }.advance _) hkn
  | some location =>
      exact finish_comm (p := ({ p with reader := _ }.advance _).wantEngine n version location) hkn

/-- Ending a request does not disturb a new one. -/
theorem finish_request (here : p.requests[k]? = some request) (version : String)
    (sources : ModuleSources) :
    (p.finish k result).request version sources = (p.request version sources).finish k result := by
  simp only [Phase.request, finish]
  rw [modify_concat _ here]

/-- Ending a request leaves the others. -/
theorem getElem?_finish {n : Nat} (hkn : k ≠ n) :
    (p.finish k result).requests[n]? = p.requests[n]? :=
  List.getElem?_modify_ne _ _ hkn

/-- A request whose result is settled already does not go on. -/
theorem resume_finished (p : Phase σ κ) (k : Nat) (result : Except LoadError Readiness) :
    (p.finish k result).resume k = p.finish k result := by
  have hk : (p.finish k result).requests[k]?
      = (p.requests[k]?).map (fun r => { r with stage := .done result }) :=
    List.getElem?_modify_eq ..
  simp only [resume]
  rw [hk]
  cases p.requests[k]? with
  | none => rfl
  | some r => rfl

/-- A request is LOST for the controller: it has ended, or its attempt has failed. -/
def Lost (p : Phase σ κ) (k : Nat) : Prop :=
  ∃ request, p.requests[k]? = some request
    ∧ ∀ attempt, request.stage = .waiting attempt →
      ∃ error, p.loader.outcome? attempt = some (.error error)

/-- A request that has ended, or whose attempt has failed, is lost for good. -/
theorem Lost.driven (h : p.Lost k) (hd : Driven B p q) : q.Lost k := by
  obtain ⟨request, here, hlost⟩ := h
  obtain ⟨request', here', hgoes⟩ := hd.request_goes here
  refine ⟨request', here', ?_⟩
  intro attempt hstage
  cases hgoes with
  | stays =>
      obtain ⟨error, hout⟩ := hlost attempt hstage
      exact ⟨error, hd.outcome? hout⟩
  | through loaded raised => exact nomatch hstage
  | refused failed => exact nomatch hstage

/-- Going on with a lost request at most ends it. -/
theorem Lost.resume (h : p.Lost k) (result : Except LoadError Readiness) :
    (p.resume k).finish k result = p.finish k result := by
  obtain ⟨⟨version, sources, stage⟩, here, hlost⟩ := h
  simp only [Phase.resume]
  rw [here]
  cases stage with
  | done ended => rfl
  | waiting attempt =>
      obtain ⟨error, hout⟩ := hlost attempt rfl
      dsimp only
      rw [hout]
      exact finish_finish ..

/-- Ending a lost request in whatever way makes no difference to what happens. -/
theorem Lost.finish_step (h : p.Lost k) (result : Except LoadError Readiness)
    (event : PhaseEvent) :
    (p.finish k result).step B event = (p.step B event).finish k result := by
  cases event with
  | request version sources =>
      obtain ⟨request, here, -⟩ := h
      exact finish_request here version sources
  | resume n =>
      show (p.finish k result).resume n = (p.resume n).finish k result
      by_cases hkn : k = n
      · subst hkn
        rw [h.resume, resume_finished]
      · simp only [Phase.resume, getElem?_finish hkn, finish_loader]
        split
        next version sources attempt waits =>
          split
          next handle loaded => exact finish_commit hkn version sources handle
          next error failed => exact finish_comm hkn
          next => rfl
        next => rfl
  | startEngine n =>
      show (p.finish k result).startEngine n = (p.startEngine n).finish k result
      simp only [startEngine, finish_engineLoads, finish_loader]
      split <;> rfl
  | resumeEngine n =>
      show (p.finish k result).resumeEngine n = (p.resumeEngine n).finish k result
      simp only [resumeEngine, finish_engineLoads, finish_loader]
      split
      next version location request attempt waits =>
        split
        next handle loaded =>
          simp only [install]
          by_cases wanted : p.wanted = some version
          · rw [if_pos wanted, if_pos (show (p.finish k result).wanted = _ from wanted)]
            rfl
          · rw [if_neg wanted, if_neg (show (p.finish k result).wanted ≠ _ from wanted)]
            rfl
        next error failed => rfl
        next => rfl
      next => rfl
  | load event => rfl

end Phase

/-- The controller in which a request that a handler awaits has ended with some result. -/
def Work.settle (result : Except LoadError Readiness) (p : Phase σ κ) : Work → Phase σ κ
  | .await k => p.finish k result
  | _ => p

namespace Phase

variable {B : Backend σ κ} {p q : Phase σ κ} {work : Work} {result : Except LoadError Readiness}

/-- What a handler may still do is CONTAINED in it: it will not change the controller. -/
inductive Contains (B : Backend σ κ) (p : Phase σ κ) : Work → Prop
  | refuse {failure} : Contains B p (.refuse failure)
  | compute {handle action} (steady : B.runtime.Steady) : Contains B p (.compute handle action)
  | await {k} (lost : p.Lost k) : Contains B p (.await k)

/-- What a controller contains it goes on containing. -/
theorem Contains.driven (h : p.Contains B work) (hd : Driven B p q) : q.Contains B work := by
  cases h with
  | refuse => exact .refuse
  | compute steady => exact .compute steady
  | await lost => exact .await (lost.driven hd)

/-- The end of a piece of work that is contained commutes with whatever the controller does. -/
theorem Contains.settle_step (h : p.Contains B work) (result : Except LoadError Readiness)
    (event : PhaseEvent) :
    (work.settle result p).step B event = work.settle result (p.step B event) := by
  cases h with
  | refuse => rfl
  | compute steady => rfl
  | await lost => exact lost.finish_step result event

/-- The end of a piece of work that is contained commutes with a new request. -/
theorem Contains.settle_request (h : p.Contains B work) (result : Except LoadError Readiness)
    (version : String) (sources : ModuleSources) :
    (work.settle result p).request version sources
      = work.settle result (p.request version sources) :=
  h.settle_step result (.request version sources)

/-- The end of a piece of work leaves the loader alone. -/
@[simp] theorem settle_loader (work : Work) : (work.settle result p).loader = p.loader := by
  cases work <;> rfl

theorem settle_replaceProduct (work : Work) (loader : Loader σ κ) :
    ({ work.settle result p with loader := loader } : Phase σ κ)
      = work.settle result { p with loader := loader } := by
  cases work <;> rfl

/-- The end of a piece of work adds no request. -/
@[simp] theorem settle_length (work : Work) :
    (work.settle result p).requests.length = p.requests.length := by
  cases work with
  | await k => exact List.length_modify ..
  | refuse failure => rfl
  | compute handle action => rfl
  | begin payload => rfl

/-- Frames are judged without a look at requests. -/
theorem handlerOf_settle (work : Work) (frame : Json) :
    Host.handlerOf (work.settle result p) frame = Host.handlerOf p frame := by
  cases work <;> rfl

/-- A handler that does not await the settled request is polled as ever. -/
theorem Contains.polled_settle (h : p.Contains B work) (result : Except LoadError Readiness)
    {handler : Handler} (other : ∀ k, work = .await k → handler.work ≠ .await k) :
    handler.polled B (work.settle result p) = (handler.polled B p).map (work.settle result) := by
  obtain ⟨id, own⟩ := handler
  cases own with
  | refuse failure => rfl
  | compute handle action =>
      simp only [Handler.polled, settle_loader]
      cases p.loader.product? handle with
      | none => rfl
      | some c =>
          dsimp only [Polled.map]
          rw [settle_replaceProduct]
  | begin payload =>
      simp only [Handler.polled, settle_length, Polled.map]
      rw [h.settle_request]
  | await j =>
      have hsame : (work.settle result p).requests[j]? = p.requests[j]? := by
        cases work with
        | await k =>
            refine getElem?_finish ?_
            rintro rfl
            exact other k rfl rfl
        | refuse failure => rfl
        | compute handle action => rfl
        | begin payload => rfl
      simp only [Handler.polled, hsame]
      cases (p.requests[j]?).bind Request.result? with
      | none => rfl
      | some result => rfl

/-- A contained handler rests, or ends without a trace in the controller. -/
theorem Contains.polled (h : p.Contains B work) (id : UInt64) :
    (⟨id, work⟩ : Handler).polled B p = .rests
    ∨ ∃ reply, (⟨id, work⟩ : Handler).polled B p = .ends reply p := by
  cases h with
  | refuse => exact Or.inr ⟨_, rfl⟩
  | @compute handle action steady =>
      simp only [Handler.polled]
      cases hmade : p.loader.product? handle with
      | none => exact Or.inl rfl
      | some c =>
          refine Or.inr ⟨(B.runtime.reply id c action).1, ?_⟩
          dsimp only
          rw [steady id c action, Loader.replaceProduct_self hmade]
  | @await k lost =>
      simp only [Handler.polled]
      cases (p.requests[k]?).bind Request.result? with
      | none => exact Or.inl rfl
      | some result => exact Or.inr ⟨_, rfl⟩

end Phase

end PhaseHost
