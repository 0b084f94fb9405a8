import PhaseHost.Proofs.Host.Requests
import PhaseHost.Proofs.Phase.OneVersion

/-! # No engine without a reader

    An engine is loaded in the background, at any time and for anybody who has asked for
    it, but never out of the blue.  Every load of an engine has a request behind it which
    asks for that engine, and whose reader was put in place before.

    `Phase.Grants` is the moment at which this happens to a request, `Phase.Granted` is
    what remains of it, and `Phase.Grounded` is the invariant: the loads of engines, the
    attempts for them and the engine in place all come from requests that were granted.

    A controller may run on its own or be driven by a host.  `Phase.History` covers both,
    so what is shown of histories is shown once.  Whether an engine was granted is a
    question about the past: `History.granting_of_granted` finds the moment. -/

namespace PhaseHost

variable {σ κ : Type}

namespace Phase

/-! ## Histories -/

/-- What a controller goes through that is driven from its beginning: its state after each
    sequence of events. -/
structure History (B : Backend σ κ) (E : Type) where
  state : List E → Phase σ κ
  begins : ∃ store, state [] = empty store
  driven : ∀ events event, Driven B (state events) (state (events ++ [event]))

/-- The history of a controller that runs on its own. -/
def history (B : Backend σ κ) (store : σ) : History B PhaseEvent where
  state events := (empty store).run B events
  begins := ⟨store, rfl⟩
  driven events event := by
    rw [run_concat]
    exact .step event

variable {B : Backend σ κ} {p q : Phase σ κ} {n k : Nat} {version location : String}

/-- Whatever is done to a controller is a move, or a call of a capability. -/
theorem Driven.move_or_call (hd : Driven B p q) :
    (∃ event, Move B p event q)
    ∨ ∃ handle c, q = { p with loader := p.loader.replaceProduct handle c } := by
  cases hd with
  | rest => exact Or.inl ⟨.startEngine p.engineLoads.length, .stay rfl⟩
  | request version sources => exact Or.inl ⟨_, .request version sources⟩
  | call made id action => exact Or.inr ⟨_, _, rfl⟩
  | step event => exact Or.inl ⟨event, move_step B p event⟩

/-! ## Granted requests -/

/-- Request `n` asks for the engine of a version at a location, and has been put through. -/
def Granted (p : Phase σ κ) (n : Nat) (version location : String) : Prop :=
  ∃ sources readiness, p.requests[n]? = some ⟨version, sources, .done (.ok readiness)⟩
    ∧ sources.engine = some location

/-- From one state to the next, a request is GRANTED the engine of a version at a location:
    it asks for it, its reader has been loaded, and now the reader is put in place. -/
inductive Grants (p q : Phase σ κ) (version location : String) : Prop
  | through {n sources attempt handle}
      (waits : p.requests[n]? = some ⟨version, sources, .waiting attempt⟩)
      (asks : sources.engine = some location)
      (loaded : p.loader.outcome? attempt = some (.ok handle))
      (placed : q.reader = some ⟨version, handle⟩)
      (granted : q.Granted n version location) : Grants p q version location

/-- What was granted stays so. -/
theorem Granted.driven (h : p.Granted n version location) (hd : Driven B p q) :
    q.Granted n version location := by
  obtain ⟨sources, readiness, here, hengine⟩ := h
  obtain ⟨r, here', hgoes⟩ := hd.request_goes here
  cases hgoes with
  | stays => exact ⟨sources, readiness, here', hengine⟩

/-- What is granted was so before, or this is the moment. -/
theorem Granted.from (h : q.Granted n version location) (hd : Driven B p q) :
    p.Granted n version location ∨ Grants p q version location := by
  have hgranted := h
  obtain ⟨sources, readiness, here, hengine⟩ := h
  rcases hd.move_or_call with ⟨event, hmove⟩ | ⟨own, c, rfl⟩
  · cases hmove with
    | @commit m own sources' attempt handle waits loaded =>
        by_cases hmn : m = n
        · subst hmn
          have heq := here
          rw [commit_requests, List.getElem?_modify_eq, waits] at heq
          obtain ⟨rfl, rfl, -⟩ := Request.mk.inj (Option.some.inj heq)
          exact Or.inr (.through waits hengine loaded (commit_reader ..) hgranted)
        · rw [commit_requests, List.getElem?_modify_ne _ _ hmn] at here
          exact Or.inl ⟨sources, readiness, here, hengine⟩
    | @refuse m own sources' attempt error waits failed =>
        rw [show (p.finish m (.error error)).requests = p.requests.modify m _ from rfl] at here
        by_cases hmn : m = n
        · subst hmn
          rw [List.getElem?_modify_eq, waits] at here
          exact nomatch congrArg Request.result? (Option.some.inj here)
        · rw [List.getElem?_modify_ne _ _ hmn] at here
          exact Or.inl ⟨sources, readiness, here, hengine⟩
    | request own sources' =>
        rcases getElem?_concat_iff.mp here with hold | ⟨-, hnew⟩
        · exact Or.inl ⟨sources, readiness, hold, hengine⟩
        · exact nomatch congrArg Request.stage hnew
    | stay idle => exact Or.inl hgranted
    | begin ready => exact Or.inl hgranted
    | install waits loaded wanted => exact Or.inl hgranted
    | drop waits loaded unwanted => exact Or.inl hgranted
    | fail waits failed => exact Or.inl hgranted
    | load event => exact Or.inl hgranted
  · exact Or.inl hgranted

/-! ## Where engines come from -/

theorem engineLoad_of_moveEngine {stage : EngineStage} {e : EngineLoad}
    (here : (p.moveEngine n stage).engineLoads[k]? = some e) :
    ∃ stage', p.engineLoads[k]? = some { e with stage := stage' } := by
  rw [moveEngine_engineLoads] at here
  split at here
  · obtain ⟨e', he', rfl⟩ := Option.map_eq_some_iff.mp here
    exact ⟨e'.stage, he'⟩
  · exact ⟨e.stage, here⟩

/-- The load of an engine was there before, or its request has just been granted. -/
theorem Driven.engineLoad_from (hd : Driven B p q) {e : EngineLoad}
    (here : q.engineLoads[k]? = some e) :
    (∃ stage, p.engineLoads[k]? = some { e with stage := stage })
    ∨ q.Granted e.request e.version e.location := by
  rcases hd.move_or_call with ⟨event, hmove⟩ | ⟨own, c, rfl⟩
  · cases hmove with
    | @commit m own sources attempt handle waits loaded =>
        rw [commit_engineLoads] at here
        split at here
        next location hengine =>
          split at here
          · exact Or.inl ⟨_, here⟩
          · rcases getElem?_concat_iff.mp here with hold | ⟨-, rfl⟩
            · exact Or.inl ⟨_, hold⟩
            · refine Or.inr ⟨sources, p.readiness.advance .readerOnly, ?_, hengine⟩
              rw [commit_requests, List.getElem?_modify_eq, waits]
              rfl
        next => exact Or.inl ⟨_, here⟩
    | begin ready => exact Or.inl (engineLoad_of_moveEngine here)
    | install waits loaded wanted => exact Or.inl (engineLoad_of_moveEngine here)
    | drop waits loaded unwanted => exact Or.inl (engineLoad_of_moveEngine here)
    | fail waits failed => exact Or.inl (engineLoad_of_moveEngine here)
    | stay idle => exact Or.inl ⟨_, here⟩
    | request own sources => exact Or.inl ⟨_, here⟩
    | refuse waits failed => exact Or.inl ⟨_, here⟩
    | load event => exact Or.inl ⟨_, here⟩
  · exact Or.inl ⟨_, here⟩

/-- The engine in place was there before, or has been loaded. -/
theorem Driven.installed_from (hd : Driven B p q) {installed : Installed}
    (here : q.engine = some installed) :
    p.engine = some installed
    ∨ ∃ (k : Nat) (e : EngineLoad), p.engineLoads[k]? = some e ∧ e.version = installed.version := by
  rcases hd.move_or_call with ⟨event, hmove⟩ | ⟨own, c, rfl⟩
  · cases hmove with
    | install waits loaded wanted =>
        obtain rfl := Option.some.inj here
        exact Or.inr ⟨_, _, waits, rfl⟩
    | commit waits loaded => rw [commit_engine] at here; exact Or.inl here
    | stay idle => exact Or.inl here
    | request own sources => exact Or.inl here
    | refuse waits failed => exact Or.inl here
    | begin ready => exact Or.inl here
    | drop waits loaded unwanted => exact Or.inl here
    | fail waits failed => exact Or.inl here
    | load event => exact Or.inl here
  · exact Or.inl here

theorem attempt_of_load {l : Loader σ κ} {v : Variant} {location : String} {t : Handle}
    {a : Attempt κ} (here : (l.load v location).2.attempts[t]? = some a) :
    l.attempts[t]? = some a ∨ (a.variant = v ∧ a.location = location) := by
  rcases Loader.load_attempts l v location with heq | heq
  · rw [heq] at here
    exact Or.inl here
  · rw [heq] at here
    exact (getElem?_concat_iff.mp here).imp_right (fun ⟨_, hnew⟩ => hnew ▸ ⟨rfl, rfl⟩)

/-- Attempts start with calls: one that is there after a step was there before, for the
    same variant and location, or the controller has called for it. -/
theorem Driven.attempt_from (hd : Driven B p q) {t : Handle} {a : Attempt κ}
    (here : q.loader.attempts[t]? = some a) :
    (∃ b, p.loader.attempts[t]? = some b ∧ b.variant = a.variant ∧ b.location = a.location)
    ∨ ∃ event c, p.loads? (.control event) = some c ∧ c.variant = a.variant
        ∧ c.location = a.location := by
  rcases hd.move_or_call with ⟨event, hmove⟩ | ⟨handle, c, rfl⟩
  · cases hmove with
    | request own sources =>
        rcases attempt_of_load here with hold | ⟨hvariant, hlocation⟩
        · exact Or.inl ⟨a, hold, rfl, rfl⟩
        · exact Or.inr ⟨.request own sources, _, rfl, hvariant.symm, hlocation.symm⟩
    | @begin m own location request ready =>
        rcases attempt_of_load here with hold | ⟨hvariant, hlocation⟩
        · exact Or.inl ⟨a, hold, rfl, rfl⟩
        · refine Or.inr ⟨.startEngine m,
            ⟨⟨.engine, own⟩, location, (p.loader.load ⟨.engine, own⟩ location).1⟩, ?_,
            hvariant.symm, hlocation.symm⟩
          simp only [loads?, ready]
          rfl
    | load event =>
        refine Or.inl ?_
        change (p.loader.step B event).attempts[t]? = some a at here
        rcases Loader.goesOn_step B p.loader event with heq | ⟨m, b, b', hm, hnext, heq⟩
        · exact ⟨a, heq ▸ here, rfl, rfl⟩
        · -- the one that goes on keeps variant and location
          rw [heq, List.getElem?_set] at here
          split at here
          next hmt =>
            split at here
            · obtain rfl := Option.some.inj here
              exact ⟨b, hmt ▸ hm, hnext.variant_eq.symm, hnext.location_eq.symm⟩
            · exact nomatch here
          next => exact ⟨a, here, rfl, rfl⟩
    | commit waits loaded => rw [commit_loader] at here; exact Or.inl ⟨a, here, rfl, rfl⟩
    | stay idle => exact Or.inl ⟨a, here, rfl, rfl⟩
    | refuse waits failed => exact Or.inl ⟨a, here, rfl, rfl⟩
    | install waits loaded wanted => exact Or.inl ⟨a, here, rfl, rfl⟩
    | drop waits loaded unwanted => exact Or.inl ⟨a, here, rfl, rfl⟩
    | fail waits failed => exact Or.inl ⟨a, here, rfl, rfl⟩
  · change (p.loader.attempts.modify handle _)[t]? = some a at here
    rw [List.getElem?_modify] at here
    obtain ⟨b, hb, rfl⟩ := Option.map_eq_some_iff.mp here
    refine Or.inl ⟨b, hb, ?_⟩
    split <;> exact ⟨rfl, rfl⟩

/-! ## Grounds -/

/-- Every engine that is asked for, loaded or in place goes back to a granted request. -/
structure Grounded (p : Phase σ κ) : Prop where
  engineLoads : ∀ (k : Nat) (e : EngineLoad), p.engineLoads[k]? = some e →
    p.Granted e.request e.version e.location
  attempts : ∀ (t : Handle) (a : Attempt κ), p.loader.attempts[t]? = some a →
    a.variant.kind = .engine → ∃ n, p.Granted n a.variant.version a.location
  engine : ∀ installed, p.engine = some installed →
    ∃ n location, p.Granted n installed.version location

theorem grounded_empty (store : σ) : (empty store : Phase σ κ).Grounded where
  engineLoads := nofun
  attempts := nofun
  engine := nofun

/-- A call for an engine goes back to a granted request. -/
theorem Grounded.call (h : p.Grounded) {event : PhaseEvent} {c : LoadCall}
    (hcall : p.loads? (.control event) = some c) (hkind : c.variant.kind = .engine) :
    ∃ n, p.Granted n c.variant.version c.location := by
  cases event with
  | request own sources =>
      cases hcall
      exact nomatch hkind
  | startEngine m =>
      simp only [loads?] at hcall
      split at hcall
      next own location request ready =>
        cases hcall
        exact ⟨request, h.engineLoads m _ ready⟩
      next => exact nomatch hcall
  | resume m => exact nomatch hcall
  | resumeEngine m => exact nomatch hcall
  | load own => exact nomatch hcall

/-- **GROUNDS ARE KEPT** by whatever is done to a controller. -/
theorem Grounded.driven (h : p.Grounded) (hd : Driven B p q) : q.Grounded where
  engineLoads k e here := by
    rcases hd.engineLoad_from here with ⟨stage, hold⟩ | hnew
    · exact (h.engineLoads k _ hold).driven hd
    · exact hnew
  attempts t a here hkind := by
    rcases hd.attempt_from here with ⟨b, hold, hvariant, hlocation⟩ |
      ⟨event, c, hcall, hvariant, hlocation⟩
    · obtain ⟨n, hn⟩ := h.attempts t b hold (hvariant ▸ hkind)
      rw [hvariant, hlocation] at hn
      exact ⟨n, hn.driven hd⟩
    · obtain ⟨n, hn⟩ := h.call hcall (hvariant ▸ hkind)
      rw [hvariant, hlocation] at hn
      exact ⟨n, hn.driven hd⟩
  engine installed here := by
    rcases hd.installed_from here with hold | ⟨k, e, hload, hversion⟩
    · obtain ⟨n, location, hn⟩ := h.engine installed hold
      exact ⟨n, location, hn.driven hd⟩
    · exact ⟨e.request, e.location, hversion ▸ (h.engineLoads k e hload).driven hd⟩

namespace History

variable {E : Type} {H : History B E}

theorem sound (H : History B E) (events : List E) : (H.state events).Sound := by
  induction events using List.reverseRecOn with
  | nil =>
      obtain ⟨store, hbegins⟩ := H.begins
      rw [hbegins]
      exact sound_empty store
  | append_singleton events event ih => exact (H.driven events event).sound ih

theorem grounded (H : History B E) (events : List E) : (H.state events).Grounded := by
  induction events using List.reverseRecOn with
  | nil =>
      obtain ⟨store, hbegins⟩ := H.begins
      rw [hbegins]
      exact grounded_empty store
  | append_singleton events event ih => exact ih.driven (H.driven events event)

/-- What everything done to a controller keeps, a history keeps from any moment on. -/
theorem keeps {P : Phase σ κ → Prop} (hkeep : ∀ {p q}, P p → Driven B p q → P q)
    {events : List E} (h : P (H.state events)) (more : List E) : P (H.state (events ++ more)) := by
  induction more using List.reverseRecOn with
  | nil => rw [List.append_nil]; exact h
  | append_singleton more event ih =>
      rw [← List.append_assoc]
      exact hkeep ih (H.driven (events ++ more) event)

/-- At some moment of a history, a request was granted the engine of a version. -/
def Granting (H : History B E) (events : List E) (version location : String) : Prop :=
  ∃ before event after, events = before ++ event :: after
    ∧ Grants (H.state before) (H.state (before ++ [event])) version location

/-- **WHAT IS GRANTED** has been granted at some moment. -/
theorem granting_of_granted {events : List E} (h : (H.state events).Granted n version location) :
    H.Granting events version location := by
  induction events using List.reverseRecOn with
  | nil =>
      obtain ⟨store, hbegins⟩ := H.begins
      obtain ⟨sources, readiness, here, -⟩ := h
      rw [hbegins] at here
      exact nomatch here
  | append_singleton events event ih =>
      rcases h.from (H.driven events event) with hold | hnow
      · obtain ⟨before, own, after, rfl, hgrants⟩ := ih hold
        exact ⟨before, own, after ++ [event], by rw [List.append_assoc, List.cons_append], hgrants⟩
      · exact ⟨events, event, [], rfl, hnow⟩

end History
end Phase

namespace Host

/-- The history of the controller of a host. -/
def history (B : Backend σ κ) (store : σ) : Phase.History B HostEvent where
  state events := ((empty store).run B events).phase
  begins := ⟨store, rfl⟩
  driven events event := by
    rw [run_concat]
    exact (move_step B _ event).driven

end Host
end PhaseHost
