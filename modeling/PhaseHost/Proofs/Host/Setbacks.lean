import PhaseHost.Proofs.Host.Grants
import PhaseHost.Proofs.Phase.Wanted

/-! # What failures leave behind

    Bringing an engine up takes two loads, and either may fail while other requests are
    under way and join the same attempts.

    * A request whose reader fails is `Failing` from the moment its attempt has ended, and
      stays so.  The step that refuses it changes nothing but its own result, so no engine
      is ever loaded for it.
    * The load of an engine that fails changes nothing but its own stage.  Nobody waits
      for it, so no reply tells of it.

    If no request that asks for an engine is ever put through, there is nothing to do with
    engines at all (`Phase.ReaderOnly`), and what needs one comes too early. -/

namespace PhaseHost

variable {σ κ : Type}

/-- A request brings no engine: it asks for none, or it has not been put through. -/
def Request.Engineless (r : Request) : Prop :=
  r.sources.engine = none ∨ ∀ readiness, r.result? ≠ some (.ok readiness)

namespace Phase

/-- No request brings an engine: each asks for none, or has failed, or waits. -/
def Engineless (p : Phase σ κ) : Prop :=
  ∀ r ∈ p.requests, r.Engineless

/-- A controller that has nothing to do with engines. -/
structure ReaderOnly (p : Phase σ κ) : Prop where
  calls : ∀ event c version, p.loads? (.control event) = some c →
    c.variant.key ≠ Variant.key ⟨.engine, version⟩
  attempts : ∀ (t : Handle) a version, p.loader.attempts[t]? = some a →
    a.variant.key ≠ Variant.key ⟨.engine, version⟩
  engineLoads : p.engineLoads = []
  readiness : p.readiness ≤ .readerOnly
  engine : p.engine = none

/-- The reader of request `n` cannot be loaded: the attempt that it waits for has failed
    with an error, or it has been refused with that error. -/
inductive Failing (p : Phase σ κ) (n : Nat) (error : LoadError) : Prop
  | waits {version sources attempt}
      (waits : p.requests[n]? = some ⟨version, sources, .waiting attempt⟩)
      (failed : p.loader.outcome? attempt = some (.error error)) : Failing p n error
  | refused {version sources}
      (told : p.requests[n]? = some ⟨version, sources, .done (.error error)⟩) : Failing p n error

/-- The result of request `n`. -/
def result? (p : Phase σ κ) (n : Nat) : Option (Except LoadError Readiness) :=
  (p.requests[n]?).bind Request.result?

/-- Readiness, slots and the wanted version are as they were, and no load of an engine
    has been started. -/
structure Undisturbed (p q : Phase σ κ) : Prop extends SameSlots p q where
  unstarted : q.engineLoads.length = p.engineLoads.length

variable {B : Backend σ κ} {p q : Phase σ κ} {n k : Nat} {version location : String}
  {error : LoadError}

/-! ## Results -/

/-- A request that ends gets its result, and no other request does. -/
theorem result?_of_modify {r : Request} {result : Except LoadError Readiness}
    (hrequests : q.requests = p.requests.modify k (fun r => { r with stage := .done result }))
    (here : p.requests[k]? = some r) (n : Nat) :
    q.result? n = if k = n then some result else p.result? n := by
  simp only [result?]
  rw [hrequests]
  by_cases hkn : k = n
  · subst hkn
    rw [List.getElem?_modify_eq, here, if_pos rfl]
    rfl
  · rw [List.getElem?_modify_ne _ _ hkn, if_neg hkn]

/-- A request that is made has no result. -/
theorem result?_request (p : Phase σ κ) (version : String) (sources : ModuleSources) (n : Nat) :
    (p.request version sources).result? n = p.result? n := by
  show ((p.requests ++ [_])[n]?).bind Request.result? = (p.requests[n]?).bind Request.result?
  by_cases hn : n < p.requests.length
  · rw [List.getElem?_append_left hn]
  · rw [List.getElem?_append_right (Nat.le_of_not_lt hn),
      List.getElem?_eq_none (Nat.le_of_not_lt hn),
      List.getElem?_singleton]
    split <;> rfl

/-! ## Nothing to do with engines -/

theorem Engineless.not_granted (h : p.Engineless) : ¬ p.Granted n version location := by
  rintro ⟨sources, readiness, here, hengine⟩
  rcases h _ (List.mem_of_getElem? here) with hnone | hnever
  · exact nomatch hengine.symm.trans hnone
  · exact hnever readiness rfl

theorem Grounded.readerOnly (h : p.Grounded) (hs : p.Sound)
    (hno : ∀ n version location, ¬ p.Granted n version location) : p.ReaderOnly where
  calls event c version hcall hkey := by
    have hkind : c.variant.kind = .engine := congrArg Variant.kind (Variant.key_injective hkey)
    obtain ⟨m, hm⟩ := h.call hcall hkind
    exact hno m _ _ hm
  attempts t a version here hkey := by
    have hkind : a.variant.kind = .engine := congrArg Variant.kind (Variant.key_injective hkey)
    obtain ⟨m, hm⟩ := h.attempts t a here hkind
    exact hno m _ _ hm
  engineLoads := by
    rw [List.eq_nil_iff_forall_not_mem]
    intro e he
    obtain ⟨m, hm⟩ := List.mem_iff_getElem?.mp he
    exact hno _ _ _ (h.engineLoads m e hm)
  readiness := by
    cases hr : p.readiness with
    | idle => decide
    | readerOnly => decide
    | full =>
        obtain ⟨installed, hin⟩ := Option.ne_none_iff_exists'.mp (hs.full_iff.mp hr)
        obtain ⟨m, own, hm⟩ := h.engine installed hin
        exact absurd hm (hno m _ _)
  engine := by
    cases hin : p.engine with
    | none => rfl
    | some installed =>
        obtain ⟨m, own, hm⟩ := h.engine installed hin
        exact absurd hm (hno m _ _)

/-! ## Failing requests -/

/-- A request that fails goes on failing, with the same error. -/
theorem Failing.driven (h : p.Failing n error) (hd : Driven B p q) : q.Failing n error := by
  cases h with
  | waits waits failed =>
      obtain ⟨r, here, hgoes⟩ := hd.request_goes waits
      cases hgoes with
      | stays => exact .waits here (hd.outcome? failed)
      | through loaded raised => exact nomatch failed.symm.trans loaded
      | refused failed' =>
          obtain rfl := Except.error.inj (Option.some.inj (failed'.symm.trans failed))
          exact .refused here
  | refused told =>
      obtain ⟨r, here, hgoes⟩ := hd.request_goes told
      cases hgoes with
      | stays => exact .refused here

theorem Failing.not_granted (h : p.Failing n error) : ¬ p.Granted n version location := by
  rintro ⟨sources, readiness, here, -⟩
  cases h with
  | waits waits failed =>
      exact nomatch congrArg Request.stage (Option.some.inj (waits.symm.trans here))
  | refused told =>
      exact nomatch congrArg Request.result? (Option.some.inj (told.symm.trans here))

/-- Going on with a request that fails refuses it with the error of its attempt. -/
theorem Failing.resume (h : p.Failing n error) (B : Backend σ κ) :
    (p.step B (.resume n)).result? n = some (.error error) := by
  show (p.resume n).result? n = _
  cases h with
  | waits waits failed =>
      simp only [Phase.resume, waits, failed]
      exact (result?_of_modify rfl waits n).trans (if_pos rfl)
  | refused told =>
      simp only [Phase.resume, told, result?]
      rfl

/-- **A REFUSAL** changes nothing but the result of its own request. -/
theorem Driven.finish_of_refused (hd : Driven B p q) (hbefore : p.result? n = none)
    (hafter : q.result? n = some (.error error)) :
    p.Failing n error ∧ q = p.finish n (.error error) := by
  have hsame : q.result? n = p.result? n → p.Failing n error ∧ q = p.finish n (.error error) :=
    fun heq => nomatch hbefore.symm.trans (heq.symm.trans hafter)
  rcases hd.move_or_call with ⟨event, hmove⟩ | ⟨own, c, rfl⟩
  · cases hmove with
    | @refuse m own sources attempt error' waits failed =>
        have hresult := result?_of_modify (q := p.finish m (.error error')) rfl waits n
        by_cases hmn : m = n
        · subst hmn
          rw [if_pos rfl, hafter] at hresult
          obtain rfl := Except.error.inj (Option.some.inj hresult)
          exact ⟨.waits waits failed, rfl⟩
        · rw [if_neg hmn] at hresult
          exact hsame hresult
    | @commit m own sources attempt handle waits loaded =>
        have hresult := result?_of_modify (commit_requests p m own sources handle) waits n
        by_cases hmn : m = n
        · rw [if_pos hmn] at hresult
          exact nomatch hafter.symm.trans hresult
        · rw [if_neg hmn] at hresult
          exact hsame hresult
    | request own sources => exact hsame (result?_request p own sources n)
    | stay idle => exact hsame rfl
    | begin ready => exact hsame rfl
    | install waits loaded wanted => exact hsame rfl
    | drop waits loaded unwanted => exact hsame rfl
    | fail waits failed => exact hsame rfl
    | load event => exact hsame rfl
  · exact hsame rfl

/-- **A FAILURE OF AN ENGINE** changes nothing but the stage of its own load. -/
theorem Driven.moveEngine_of_failed (hd : Driven B p q)
    (hbefore : p.engineStage? k ≠ some (.failed error))
    (hafter : q.engineStage? k = some (.failed error)) : q = p.moveEngine k (.failed error) := by
  rcases hd.move_or_call with ⟨event, hmove⟩ | ⟨own, c, rfl⟩
  · cases hmove with
    | @fail m own location request attempt error' waits failed =>
        by_cases hmk : m = k
        · subst hmk
          have hstage : p.engineStage? m = some (.waiting attempt) :=
            congrArg (Option.map EngineLoad.stage) waits
          rw [engineStage?_moveEngine, if_pos rfl, hstage] at hafter
          obtain rfl := EngineStage.failed.inj (Option.some.inj hafter)
          rfl
        · rw [engineStage?_moveEngine, if_neg hmk] at hafter
          exact absurd hafter hbefore
    | commit waits loaded =>
        rcases engineStage?_commit hafter with hold | ⟨-, hready⟩
        · exact absurd hold hbefore
        · exact nomatch hready
    | begin ready => exact absurd (engineStage?_moveEngine_ne hafter nofun) hbefore
    | install waits loaded wanted => exact absurd (engineStage?_moveEngine_ne hafter nofun) hbefore
    | drop waits loaded unwanted => exact absurd (engineStage?_moveEngine_ne hafter nofun) hbefore
    | stay idle => exact absurd hafter hbefore
    | request own sources => exact absurd hafter hbefore
    | refuse waits failed => exact absurd hafter hbefore
    | load event => exact absurd hafter hbefore
  · exact absurd hafter hbefore

/-! ## What changes slots -/

/-- **ONLY SUCCESS CHANGES SLOTS**: something is put through or installed, or all is as it
    was. -/
theorem Driven.undisturbed (hd : Driven B p q) :
    Undisturbed p q
    ∨ (∃ n readiness, p.result? n = none ∧ q.result? n = some (.ok readiness))
    ∨ ∃ k, p.engineStage? k ≠ some .installed ∧ q.engineStage? k = some .installed := by
  rcases hd.move_or_call with ⟨event, hmove⟩ | ⟨own, c, rfl⟩
  · cases hmove with
    | @commit m own sources attempt handle waits loaded =>
        refine Or.inr (Or.inl ⟨m, p.readiness.advance .readerOnly, ?_, ?_⟩)
        · simp only [result?, waits]
          rfl
        · exact (result?_of_modify (commit_requests ..) waits m).trans (if_pos rfl)
    | @install m own location request attempt handle waits loaded wanted =>
        have hstage : p.engineStage? m = some (.waiting attempt) :=
          congrArg (Option.map EngineLoad.stage) waits
        refine Or.inr (Or.inr ⟨m, by rw [hstage]; exact nofun, ?_⟩)
        rw [engineStage?_moveEngine, if_pos rfl]
        exact congrArg (Option.map _) hstage
    | begin ready => exact Or.inl ⟨⟨rfl, rfl, rfl, rfl⟩, List.length_modify ..⟩
    | drop waits loaded unwanted => exact Or.inl ⟨⟨rfl, rfl, rfl, rfl⟩, List.length_modify ..⟩
    | fail waits failed => exact Or.inl ⟨⟨rfl, rfl, rfl, rfl⟩, List.length_modify ..⟩
    | stay idle => exact Or.inl ⟨.refl p, rfl⟩
    | request own sources => exact Or.inl ⟨⟨rfl, rfl, rfl, rfl⟩, rfl⟩
    | refuse waits failed => exact Or.inl ⟨⟨rfl, rfl, rfl, rfl⟩, rfl⟩
    | load event => exact Or.inl ⟨⟨rfl, rfl, rfl, rfl⟩, rfl⟩
  · exact Or.inl ⟨⟨rfl, rfl, rfl, rfl⟩, rfl⟩

/-- A request that is made changes nothing of what is in place. -/
theorem Driven.undisturbed_of_made (hd : Driven B p q)
    (hmade : q.requests.length ≠ p.requests.length) : Undisturbed p q := by
  rcases hd.move_or_call with ⟨event, hmove⟩ | ⟨own, c, rfl⟩
  · cases hmove with
    | request own sources => exact ⟨⟨rfl, rfl, rfl, rfl⟩, rfl⟩
    | commit waits loaded =>
        rw [commit_requests, List.length_modify] at hmade
        exact absurd rfl hmade
    | refuse waits failed => exact absurd (List.length_modify ..) hmade
    | stay idle => exact absurd rfl hmade
    | begin ready => exact absurd rfl hmade
    | install waits loaded wanted => exact absurd rfl hmade
    | drop waits loaded unwanted => exact absurd rfl hmade
    | fail waits failed => exact absurd rfl hmade
    | load event => exact absurd rfl hmade
  · exact absurd rfl hmade

/-! ## Along a history -/

namespace History

variable {E : Type} {H : History B E}

/-- What is to be said of engines and failures at a moment of a history. -/
structure Orderly (H : History B E) (events : List E) : Prop where
  /-- Whoever calls for an engine, its version and its location have been granted. -/
  calls : ∀ event c version, (H.state events).loads? (.control event) = some c →
    c.variant.key = Variant.key ⟨.engine, version⟩ → H.Granting events version c.location
  attempts : ∀ (t : Handle) a version, (H.state events).loader.attempts[t]? = some a →
    a.variant.key = Variant.key ⟨.engine, version⟩ → H.Granting events version a.location
  /-- If no request has brought an engine, there has been nothing to do with engines. -/
  engineless : (H.state events).Engineless →
    ∀ before after, events = before ++ after → (H.state before).ReaderOnly
  /-- Only what succeeds changes slots: a request that is put through, or an engine that is
      installed. -/
  disturbed : ∀ event, ¬ Undisturbed (H.state events) (H.state (events ++ [event])) →
    (∃ n readiness, (H.state events).result? n = none
      ∧ (H.state (events ++ [event])).result? n = some (.ok readiness))
    ∨ ∃ k, (H.state events).engineStage? k ≠ some .installed
      ∧ (H.state (events ++ [event])).engineStage? k = some .installed
  made : ∀ event, (H.state (events ++ [event])).requests.length ≠ (H.state events).requests.length →
    Undisturbed (H.state events) (H.state (events ++ [event]))
  refused : ∀ event n error, (H.state events).result? n = none →
    (H.state (events ++ [event])).result? n = some (.error error) →
    (H.state events).Failing n error ∧ Undisturbed (H.state events) (H.state (events ++ [event]))
      ∧ (H.state (events ++ [event])).loader = (H.state events).loader
  /-- A request that fails goes on failing, and no engine is ever loaded for it. -/
  failing : ∀ n error, (H.state events).Failing n error →
    ∀ more, (H.state (events ++ more)).Failing n error
      ∧ ∀ e ∈ (H.state (events ++ more)).engineLoads, e.request ≠ n
  engineFailed : ∀ event k error, (H.state events).engineStage? k ≠ some (.failed error) →
    (H.state (events ++ [event])).engineStage? k = some (.failed error) →
    Undisturbed (H.state events) (H.state (events ++ [event]))
      ∧ (H.state (events ++ [event])).loader = (H.state events).loader
      ∧ (H.state (events ++ [event])).requests = (H.state events).requests

/-- A request that fails has no engine loaded for it. -/
theorem unloaded_of_failing {events : List E} (h : (H.state events).Failing n error) :
    ∀ e ∈ (H.state events).engineLoads, e.request ≠ n := by
  rintro e he rfl
  obtain ⟨m, hm⟩ := List.mem_iff_getElem?.mp he
  exact h.not_granted ((H.grounded events).engineLoads m e hm)

theorem readerOnly_of_engineless (H : History B E) (before after : List E)
    (h : (H.state (before ++ after)).Engineless) : (H.state before).ReaderOnly := by
  refine (H.grounded before).readerOnly (H.sound before) ?_
  intro m version location hgranted
  -- what has been granted once would still be
  exact h.not_granted (keeps (fun hp hd => Granted.driven hp hd) hgranted after)

theorem orderly (H : History B E) (events : List E) : H.Orderly events where
  calls event c version hcall hkey := by
    have hvariant := Variant.key_injective hkey
    obtain ⟨m, hm⟩ := (H.grounded events).call hcall (congrArg Variant.kind hvariant)
    rw [hvariant] at hm
    exact granting_of_granted hm
  attempts t a version here hkey := by
    have hvariant := Variant.key_injective hkey
    obtain ⟨m, hm⟩ := (H.grounded events).attempts t a here (congrArg Variant.kind hvariant)
    rw [hvariant] at hm
    exact granting_of_granted hm
  engineless := by
    rintro h before after rfl
    exact H.readerOnly_of_engineless before after h
  disturbed event hchanged := ((H.driven events event).undisturbed).resolve_left hchanged
  made event hmade := (H.driven events event).undisturbed_of_made hmade
  refused event n error hbefore hafter := by
    obtain ⟨hfailing, heq⟩ := (H.driven events event).finish_of_refused hbefore hafter
    rw [heq]
    exact ⟨hfailing, ⟨⟨rfl, rfl, rfl, rfl⟩, rfl⟩, rfl⟩
  failing n error h more := by
    have hmore := keeps (fun hp hd => Failing.driven hp hd) h more
    exact ⟨hmore, unloaded_of_failing hmore⟩
  engineFailed event k error hbefore hafter := by
    rw [(H.driven events event).moveEngine_of_failed hbefore hafter]
    exact ⟨⟨⟨rfl, rfl, rfl, rfl⟩, List.length_modify ..⟩, rfl, rfl⟩

end History
end Phase

/-! ## What replies tell -/

namespace Receipt

variable {B : Backend σ κ} {frame : Json} {m : Message} {payload : InitPayload}
  {events : List HostEvent} {place : Nat} {t : Handle} {error : LoadError}

/-- A frame that needs the engine is refused while no request has brought one. -/
theorem refused_of_engineless (r : Receipt B frame) (hm : Message.ofFrame frame = .ok m)
    (hfull : m.action.required = .full) (h : r.host.phase.Engineless)
    (events : List HostEvent) :
    let refusal := Reply.failure m.id .notReady (Phase.tooEarly r.host.phase.readiness m.action)
    (∀ reply, r.fate events = .ended reply → reply = refusal) ∧
    ∀ place, r.fate events = .inFlight place →
      r.fate (events ++ [.poll place]) = .ended refusal := by
  have hcompute : m.action.required ≠ .idle := by
    rw [hfull]
    exact nofun
  have hreader : r.host.phase.ReaderOnly := by
    refine (Host.history B r.store).readerOnly_of_engineless r.before [] ?_
    rw [List.append_nil]
    exact h
  have hearly : ¬ m.action.required ≤ r.host.phase.readiness := by
    intro hreached
    rw [hfull] at hreached
    exact absurd (Readiness.le_trans hreached hreader.readiness) (by decide)
  refine ⟨?_, ?_⟩
  · intro reply hf
    obtain ⟨_, _, _, -, -, hrefused | ⟨installed, c, hserved⟩⟩ := r.judged hm hcompute hf
    · exact hrefused.reply_eq
    · exact absurd hserved.reached hearly
  · intro place hf
    obtain ⟨reply, hreply, hrefused | ⟨installed, c, hserved⟩⟩ := r.poll_judged hm hcompute hf
    · rw [← hrefused.reply_eq]
      exact (Host.fate_append hf).trans (Host.fate_poll hreply)
    · exact absurd hserved.reached hearly

theorem outcome?_append (r : Receipt B frame) {outcome : Except LoadError Handle}
    (h : (r.after events).phase.loader.outcome? t = some outcome) (more : List HostEvent) :
    (r.after (events ++ more)).phase.loader.outcome? t = some outcome := by
  induction more using List.reverseRecOn with
  | nil => rw [List.append_nil]; exact h
  | append_singleton more event ih =>
      rw [← List.append_assoc, r.after_concat]
      exact (Host.move_step B _ event).driven.outcome? ih

/-- An `init` whose attempt has failed is answered with its error and nothing else. -/
theorem reply_of_failed (r : Receipt B frame)
    (hm : Message.ofFrame frame = .ok ⟨m.id, .init payload⟩) (htakes : r.Takes payload events t)
    (failed : (r.after events).phase.loader.outcome? t = some (.error error)) {reply : Reply}
    (hf : r.fate events = .ended reply) : reply = .failure m.id .loadFailed error.message := by
  obtain ⟨earlier, place, later, rfl, hin, hreply⟩ := Host.fate_ended hf
  obtain ⟨t', htakes', hconcludes⟩ := r.concludes hm hin hreply
  -- the reply was written when the outcome of the attempt was known, and outcomes stay
  obtain rfl := (htakes'.append (.poll place :: later)).unique htakes
  cases hconcludes with
  | @refused error' failed' =>
      have hsame := (r.outcome?_append failed' (.poll place :: later)).symm.trans failed
      rw [Except.error.inj (Option.some.inj hsame)]
  | through loaded raised reached =>
      exact nomatch (r.outcome?_append loaded (.poll place :: later)).symm.trans failed

/-- The handler of an `init` that has taken an attempt awaits a request that follows it. -/
theorem awaits_of_takes (r : Receipt B frame)
    (hm : Message.ofFrame frame = .ok ⟨m.id, .init payload⟩) (htakes : r.Takes payload events t)
    (hf : r.fate events = .inFlight place) :
    ∃ k, (r.after events).handlers[place]? = some ⟨m.id, .await k⟩
      ∧ (r.after events).phase.Bound k payload t := by
  rcases r.awaits hm hf with here | ⟨k, t', here, hawaits⟩
  · obtain ⟨earlier, start, later, rfl, hbegins, -⟩ := htakes
    exact absurd ⟨hf, congrArg (Option.map Handler.work) here⟩ hbegins.not_again
  · obtain rfl := hawaits.takes.unique htakes
    exact ⟨k, here, hawaits.bound⟩

/-- An `init` whose attempt has failed is answered as soon as its request goes on and it is
    polled. -/
theorem answered_of_failed (r : Receipt B frame)
    (hm : Message.ofFrame frame = .ok ⟨m.id, .init payload⟩) (htakes : r.Takes payload events t)
    (failed : (r.after events).phase.loader.outcome? t = some (.error error))
    (hf : r.fate events = .inFlight place) :
    ∃ k, r.fate (events ++ [.background (.resume k), .poll place])
      = .ended (.failure m.id .loadFailed error.message) := by
  obtain ⟨k, here, ⟨version, sources, stage⟩, hrequest, -, hfollows⟩ :=
    r.awaits_of_takes hm htakes hf
  have hfailing : (r.after events).phase.Failing k error := by
    cases hfollows with
    | waiting => exact .waits hrequest failed
    | refused failed' =>
        obtain rfl := Except.error.inj (Option.some.inj (failed'.symm.trans failed))
        exact .refused hrequest
    | through loaded raised reached => exact nomatch failed.symm.trans loaded
  have hruns : ¬ ((r.after events).step B (.background (.resume k))).stopped := r.runs here
  -- what the controller does by itself leaves handlers and replies alone
  have hsilent : (r.after events).reply? B (.background (.resume k)) = none :=
    Host.reply?_of_silent rfl
  have hreply : ((r.after events).step B (.background (.resume k))).reply? B (.poll place)
      = some (Host.requestReply m.id (.error error)) :=
    Host.reply?_of_ended hruns here (hfailing.resume B)
  refine ⟨k, (Host.fate_append hf).trans ?_⟩
  exact (Host.fate_cons_inFlight (Host.follow_of_silent hsilent)).trans (Host.fate_poll hreply)

end Receipt

namespace Host

/-- Nobody is told of an engine that fails. -/
theorem silent_of_engine_failed {B : Backend σ κ} {h h' : Host σ κ} {event : HostEvent} {k : Nat}
    {error : LoadError} (hmove : Move B h event h')
    (hbefore : h.phase.engineStage? k ≠ some (.failed error))
    (hafter : h'.phase.engineStage? k = some (.failed error)) :
    h'.outbox = h.outbox ∧ h'.handlers = h.handlers := by
  cases hmove with
  | background event => exact ⟨rfl, rfl⟩
  | stay unadmitted untaken => exact absurd hafter hbefore
  | deliver takes => exact absurd hafter hbefore
  | close => exact absurd hafter hbefore
  | receive listens next => exact absurd hafter hbefore
  | hangUp dry closed => exact absurd hafter hbefore
  | refuse runs here => exact absurd hafter hbefore
  | serve runs here made => exact absurd hafter hbefore
  | begin runs here => exact absurd hafter hbefore
  | answer runs here ended => exact absurd hafter hbefore
  | stop done => exact absurd hafter hbefore

/-- **NO ENGINE WITHOUT A READER**.  At every moment of every run, be it of a controller
    on its own or of a host:

    * whoever calls for an engine, and every attempt for one, comes after a request for its
      version and location had its reader put in place;
    * if no request has brought an engine, as each asks for none or has failed or waits,
      nothing has ever had to do with engines: none was loaded, readiness has not gone
      beyond the reader, and the slot has been empty;
    * readiness, slots, the wanted version and the loads of engines change only if a request
      is put through or an engine installed; neither making a request nor refusing it
      disturbs them, and no more does an engine that fails;
    * a request whose reader fails goes on failing with the error of that load until it is
      told so, and no engine is ever loaded for it.

    In a host, a frame that needs the engine is answered that it comes too early as long as
    no request has brought one when it is received; an `init` whose reader has failed is
    answered with exactly this error; and an engine that fails changes neither replies nor
    handlers. -/
theorem engine_only_after_reader (B : Backend σ κ) (store : σ) :
    (∀ events, (Phase.history B store).Orderly events) ∧
    (∀ events, (history B store).Orderly events) ∧
    (∀ (p : Phase σ κ) n error, p.Failing n error →
      (p.step B (.resume n)).result? n = some (.error error)) ∧
    (∀ (frame : Json) (r : Receipt B frame) (m : Message), Message.ofFrame frame = .ok m →
      m.action.required = .full → r.host.phase.Engineless → ∀ events,
      (∀ reply, r.fate events = .ended reply →
        reply = .failure m.id .notReady (Phase.tooEarly r.host.phase.readiness m.action)) ∧
      ∀ place, r.fate events = .inFlight place → r.fate (events ++ [.poll place])
        = .ended (.failure m.id .notReady (Phase.tooEarly r.host.phase.readiness m.action))) ∧
    (∀ (frame : Json) (r : Receipt B frame) id payload events t error,
      Message.ofFrame frame = .ok ⟨id, .init payload⟩ → r.Takes payload events t →
      (r.after events).phase.loader.outcome? t = some (.error error) →
      (∀ reply, r.fate events = .ended reply → reply = .failure id .loadFailed error.message) ∧
      ∀ place, r.fate events = .inFlight place →
        ∃ k, r.fate (events ++ [.background (.resume k), .poll place])
          = .ended (.failure id .loadFailed error.message)) ∧
    ∀ (h : Host σ κ) event k error, h.phase.engineStage? k ≠ some (.failed error) →
      (h.step B event).phase.engineStage? k = some (.failed error) →
      (h.step B event).outbox = h.outbox ∧ (h.step B event).handlers = h.handlers := by
  refine ⟨(Phase.history B store).orderly, (history B store).orderly, ?_, ?_, ?_, ?_⟩
  · intro p n error h
    exact h.resume B
  · intro frame r m hm hfull h events
    exact r.refused_of_engineless hm hfull h events
  · intro frame r id payload events t error hm htakes failed
    refine ⟨fun reply hf => r.reply_of_failed (m := ⟨id, .init payload⟩) hm htakes failed hf, ?_⟩
    intro place hf
    exact r.answered_of_failed (m := ⟨id, .init payload⟩) hm htakes failed hf
  · intro h event k error hbefore hafter
    exact silent_of_engine_failed (move_step B h event) hbefore hafter

/-- One reader is gone, and one request asks for a reader alone. -/
def setback : List PhaseEvent :=
  [.request "1" ⟨"1/r", some "1/e"⟩, .request "2" ⟨"2/r", none⟩, .load (.look 0),
    .load (.fetched 0 (.error "gone")), .resume 0] ++ Phase.bring 1 "reader" ++ [.resume 1]

/-- The second session reads, and neither has had to do with engines. -/
theorem setback_leaves_reader :
    let p := (Phase.empty MemoryStore.empty).run StandIn.backend setback
    p.Engineless ∧ p.Failing 0 (.fetch "1/r" "gone") ∧ p.readiness = .readerOnly ∧ p.ReaderOnly ∧
    (Phase.history StandIn.backend MemoryStore.empty).Orderly setback := by
  intro p
  have horderly := (engine_only_after_reader StandIn.backend MemoryStore.empty).1 setback
  have hrequests : p.requests
      = [⟨"1", ⟨"1/r", some "1/e"⟩, .done (.error (.fetch "1/r" "gone"))⟩,
        ⟨"2", ⟨"2/r", none⟩, .done (.ok .readerOnly)⟩] := rfl
  have hengineless : p.Engineless := by
    intro r hr
    rw [hrequests] at hr
    rcases List.mem_pair.mp hr with rfl | rfl
    · exact Or.inr (fun readiness => nofun)
    · exact Or.inl rfl
  refine ⟨hengineless, .refused (congrArg (·[0]?) hrequests), rfl, ?_, horderly⟩
  exact horderly.engineless hengineless setback [] (List.append_nil _).symm

end Host
end PhaseHost
