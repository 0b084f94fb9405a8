import PhaseHost.Proofs.Phase.OneVersion
import PhaseHost.Proofs.Phase.Wanted

/-! # The latest to be put through

    Two orders of requests compete: the one in which they are made, and the one in
    which their readers arrive.  The controller goes by the second.  It replaces the
    reader, and notes which engine is wanted, when the reader of a request is there,
    so a request that was made first and waits long is the latest in the end.

    `commits` is the trail of the requests that were put through.  As long as it goes
    on with requests for one version, that version stays: its reader, its being
    wanted, and its engine once it is in place.  The first request of another version
    that is put through ends this, whenever it was made.

    The two orders agree if nobody else is left waiting: then what is put through
    later is what was asked for later (`Phase.EndedBeside`). -/

namespace PhaseHost

variable {σ κ : Type}

namespace Phase

/-- The requests that were put through along a run, in order. -/
def commits (B : Backend σ κ) (p : Phase σ κ) (events : List PhaseEvent) : List (Nat × Request) :=
  trail (step B) commits? p events

/-- The version of the reader in place. -/
def readerVersion? (p : Phase σ κ) : Option String :=
  p.reader.map Installed.version

/-- The version of a request is wanted, and the request is served. -/
structure Favours (p : Phase σ κ) (n : Nat) (version : String) : Prop where
  wanted : p.wanted = some version
  serves : p.Serves n version

/-- The requests for other versions have ended. -/
def EndedBeside (p : Phase σ κ) (version : String) : Prop :=
  ∀ (m : Nat) (r : Request), p.requests[m]? = some r → r.version ≠ version →
    r.result?.isSome = true

variable {B : Backend σ κ} {p q : Phase σ κ} {event : PhaseEvent} {n : Nat} {version : String}

/-! ## The reader -/

/-- The reader in place is that of the request that was put through last. -/
theorem readerVersion?_step (B : Backend σ κ) (p : Phase σ κ) (event : PhaseEvent) :
    (p.step B event).readerVersion?
      = ((p.commits? event).map (fun c => c.2.version)).or p.readerVersion? := by
  cases hcommit : p.commits? event with
  | none => exact congrArg (Option.map Installed.version) (reader_of_idle hcommit)
  | some c =>
      obtain ⟨handle, -, hstep⟩ := step_of_commits (B := B) hcommit
      rw [hstep, readerVersion?, commit_reader]
      rfl

/-- The reader is of the version that was put through last. -/
theorem readerVersion?_run (B : Backend σ κ) (p : Phase σ κ) (events : List PhaseEvent) :
    (p.run B events).readerVersion?
      = ((commits B p events).getLast?.map (fun c => c.2.version)).or p.readerVersion? := by
  induction events using List.reverseRecOn with
  | nil => rfl
  | append_singleton events event ih =>
      simp only [commits] at ih ⊢
      rw [run_concat, readerVersion?_step, ih, getLast?_trail_concat, ← Option.or_assoc]
      refine congrArg (Option.or · _) ?_
      show _ = (((p.run B events).commits? event).or _).map _
      cases (p.run B events).commits? event <;> rfl

/-! ## The engine -/

/-- A version that is wanted and served stays so while no other is put through. -/
theorem Favours.move (h : p.Favours n version) (hmove : Move B p event q)
    (hsame : ∀ c, p.commits? event = some c → c.2.version = version) : q.Favours n version := by
  cases hmove with
  | stay idle => exact h
  | request asked sources => exact ⟨h.wanted, h.serves⟩
  | @commit m other sources attempt handle waits loaded =>
      have hother : other = version := hsame _ (commits?_of_loaded waits loaded)
      refine ⟨?_, h.serves.commit m other sources handle⟩
      rw [commit_wanted, hother, h.wanted]
      exact ite_self _
  | refuse waits failed => exact ⟨h.wanted, h.serves⟩
  | begin ready =>
      exact ⟨h.wanted, (h.serves.of_eq (q := { p with loader := _ }) rfl rfl).moveEngine _
        (Or.inl rfl)⟩
  | install waits loaded wanted =>
      have heq := Option.some.inj (wanted.symm.trans h.wanted)
      exact ⟨h.wanted, Or.inl (hasEngine_iff.mpr ⟨_, rfl, heq⟩)⟩
  | drop waits loaded unwanted =>
      refine ⟨h.wanted, h.serves.moveOther waits ?_ _⟩
      intro hversion
      exact unwanted (h.wanted.trans (congrArg some hversion.symm))
  | fail waits failed => exact ⟨h.wanted, h.serves.moveEngine _ (Or.inr ⟨_, rfl⟩)⟩
  | load event => exact ⟨h.wanted, h.serves⟩

/-- No event takes the engine away that is wanted. -/
theorem hasEngine_step (hwanted : p.wanted = some version) (hin : p.hasEngine version = true)
    (event : PhaseEvent) : (p.step B event).hasEngine version = true := by
  cases hcommit : p.commitsEngine? event with
  | none => exact (hasEngine_move hwanted hin (move_step B p event) hcommit).2
  | some c =>
      obtain ⟨handle, -, hstep⟩ := step_of_commits (B := B) (Option.filter_eq_some_iff.mp hcommit).1
      rw [hstep, hasEngine, commit_engine]
      exact hin

theorem commits_concat (B : Backend σ κ) (p : Phase σ κ) (events : List PhaseEvent)
    (event : PhaseEvent) : commits B p (events ++ [event])
      = commits B p events ++ ((p.run B events).commits? event).toList :=
  trail_concat ..

/-- What is favoured stays so while requests for the same version are put through. -/
theorem favours_run (h : p.Favours n version) {events : List PhaseEvent}
    (hsame : ∀ c ∈ commits B p events, c.2.version = version) :
    (p.run B events).Favours n version := by
  induction events using List.reverseRecOn with
  | nil => exact h
  | append_singleton events event ih =>
      rw [commits_concat] at hsame
      rw [run_concat]
      refine (ih (fun c hc => hsame c (List.mem_append_left _ hc))).move (move_step B _ event) ?_
      intro c hc
      exact hsame c (List.mem_append_right _ (Option.mem_toList.mpr hc))

theorem hasEngine_run_of_favours (h : p.Favours n version) (hin : p.hasEngine version = true)
    {events : List PhaseEvent} (hsame : ∀ c ∈ commits B p events, c.2.version = version) :
    (p.run B events).hasEngine version = true := by
  induction events using List.reverseRecOn with
  | nil => exact hin
  | append_singleton events event ih =>
      rw [commits_concat] at hsame
      have hbefore := fun c hc => hsame c (List.mem_append_left _ hc)
      rw [run_concat]
      exact hasEngine_step (favours_run h hbefore).wanted (ih hbefore) event

/-- A request for an engine that is put through is favoured. -/
theorem favours_commit {r : Request} (hcommit : p.commits? event = some (n, r))
    (hengine : r.sources.engine.isSome = true) : (p.step B event).Favours n r.version := by
  obtain ⟨handle, -, hstep⟩ := step_of_commits (B := B) hcommit
  rw [hstep]
  exact ⟨by rw [commit_wanted, if_pos hengine], serves_commit p n r.version hengine handle⟩

/-! ## Who is left waiting -/

/-- A request that is put through has waited. -/
theorem waiting_of_commits {r : Request} (hcommit : p.commits? event = some (n, r)) :
    r.result? = none := by
  unfold commits? at hcommit
  split at hcommit
  · split at hcommit
    · split at hcommit
      · cases hcommit
        rfl
      · cases hcommit
    · cases hcommit
  · cases hcommit

theorem EndedBeside.finish (h : p.EndedBeside version) (n : Nat)
    (result : Except LoadError Readiness) : (p.finish n result).EndedBeside version := by
  intro m r hr hother
  have hrequests : (p.requests.modify n _)[m]? = some r := hr
  rw [List.getElem?_modify] at hrequests
  obtain ⟨r', hr', rfl⟩ := Option.map_eq_some_iff.mp hrequests
  by_cases hnm : n = m
  · rw [if_pos hnm]
    rfl
  · rw [if_neg hnm] at hother ⊢
    exact h m r' hr' hother

theorem EndedBeside.move (h : p.EndedBeside version) (hmove : Move B p event q)
    (hasks : PhaseAct.IsFor version (.control event)) : q.EndedBeside version := by
  cases hmove with
  | request asked sources =>
      intro m r hr hother
      rcases getElem?_concat_iff.mp hr with hold | ⟨-, rfl⟩
      · exact h m r hold hother
      · exact absurd hasks hother
  | @commit m other sources attempt handle waits loaded =>
      have hfinish := h.finish m (.ok (p.readiness.advance .readerOnly))
      intro k r hr
      rw [commit_requests] at hr
      exact hfinish k r hr
  | refuse waits failed => exact h.finish _ _
  | stay idle => exact h
  | begin ready => exact h
  | install waits loaded wanted => exact h
  | drop waits loaded unwanted => exact h
  | fail waits failed => exact h
  | load event => exact h

/-- Loads that have ended beside a version stay so while it alone is asked for. -/
theorem endedBeside_run (h : p.EndedBeside version) {events : List PhaseEvent}
    (hasks : ∀ x ∈ events, PhaseAct.IsFor version (.control x)) :
    (p.run B events).EndedBeside version := by
  induction events using List.reverseRecOn with
  | nil => exact h
  | append_singleton events event ih =>
      rw [run_concat]
      exact (ih (fun x hx => hasks x (List.mem_append_left _ hx))).move (move_step B _ event)
        (hasks event (List.mem_append_right _ List.mem_cons_self))

/-- If nobody else waits and nothing else is asked for, nothing else is put through. -/
theorem commits_of_endedBeside (h : p.EndedBeside version) {events : List PhaseEvent}
    (hasks : ∀ x ∈ events, PhaseAct.IsFor version (.control x)) :
    ∀ c ∈ commits B p events, c.2.version = version := by
  intro c hc
  obtain ⟨before, event, after, rfl, hcommit⟩ := mem_trail.mp hc
  change (p.run B before).commits? event = some (c.1, c.2) at hcommit
  by_contra hother
  obtain ⟨-, hrequest, -⟩ := step_of_commits (B := B) hcommit
  have hended := endedBeside_run (B := B) h (fun x hx => hasks x (List.mem_append_left _ hx))
    c.1 c.2 hrequest hother
  rw [waiting_of_commits hcommit] at hended
  exact nomatch hended

/-! ## The order that counts -/

/-- **THE LATEST TO BE PUT THROUGH WINS**.  From the moment when the `n`-th request is
    put through:

    * its reader stays exactly as long as only requests for its version are put
      through;
    * as long as this is so and it asks for an engine, its version is wanted, an
      engine of it that gets into place stays, and once no load is under way the
      engine in place is of its version, or the load that it has started has failed;
    * it is so if by then all requests for other versions had ended and none is made
      any more;
    * but any other request that is put through, and be it one that was made before,
      puts its own reader in place, and its own engine is wanted if it asks for one. -/
theorem latest_put_through_wins (B : Backend σ κ) (p : Phase σ κ) (event : PhaseEvent) (n : Nat)
    (r : Request) (hcommit : p.commits? event = some (n, r)) (after : List PhaseEvent) :
    let q := p.step B event
    ((∀ c ∈ commits B q after, c.2.version = r.version) ↔
      ∀ done rest, after = done ++ rest → (q.run B done).readerVersion? = some r.version) ∧
    (r.sources.engine.isSome = true → (∀ c ∈ commits B q after, c.2.version = r.version) →
      (q.run B after).wanted = some r.version ∧
      (∀ done rest, after = done ++ rest → (q.run B done).hasEngine r.version = true →
        (q.run B after).hasEngine r.version = true) ∧
      ((∀ e ∈ (q.run B after).engineLoads, e.stage.isOver = true) →
        (q.run B after).hasEngine r.version = true ∨ ∃ e ∈ (q.run B after).engineLoads,
          e.request = n ∧ e.version = r.version ∧ ∃ error, e.stage = .failed error)) ∧
    (q.EndedBeside r.version → (∀ x ∈ after, PhaseAct.IsFor r.version (.control x)) →
      ∀ c ∈ commits B q after, c.2.version = r.version) ∧
    (∀ done x rest m s, after = done ++ x :: rest → (q.run B done).commits? x = some (m, s) →
      (q.run B (done ++ [x])).readerVersion? = some s.version ∧
      (s.sources.engine.isSome = true → (q.run B (done ++ [x])).wanted = some s.version)) := by
  intro q
  have hreader : q.readerVersion? = some r.version := by
    rw [readerVersion?_step, hcommit]
    rfl
  have hlate : ∀ done x m s, (q.run B done).commits? x = some (m, s) →
      (q.run B (done ++ [x])).readerVersion? = some s.version ∧
      (s.sources.engine.isSome = true → (q.run B (done ++ [x])).wanted = some s.version) := by
    intro done x m s hx
    rw [run_concat]
    refine ⟨?_, fun hengine => (favours_commit hx hengine).wanted⟩
    rw [readerVersion?_step, hx]
    rfl
  refine ⟨⟨?_, ?_⟩, ?_, fun hended => commits_of_endedBeside hended, ?_⟩
  · rintro hsame done rest rfl
    rw [readerVersion?_run]
    cases hlast : (commits B q done).getLast? with
    | none => exact hreader
    | some c =>
        have hmem : c ∈ commits B q (done ++ rest) := by
          simp only [commits]
          rw [trail_append]
          exact List.mem_append_left _ (List.mem_of_getLast? hlast)
        exact congrArg some (hsame c hmem)
  · intro hstays c hc
    obtain ⟨done, x, rest, rfl, hx⟩ := mem_trail.mp hc
    have hnow := hstays (done ++ [x]) rest (List.append_cons ..)
    rw [(hlate done x c.1 c.2 hx).1] at hnow
    exact Option.some.inj hnow
  · intro hengine hsame
    have hfavours : q.Favours n r.version := favours_commit hcommit hengine
    have hend := favours_run hfavours hsame
    refine ⟨hend.wanted, ?_, ?_⟩
    · rintro done rest rfl hin
      simp only [commits] at hsame
      rw [trail_append] at hsame
      rw [run_append]
      exact hasEngine_run_of_favours
        (favours_run hfavours (fun c hc => hsame c (List.mem_append_left _ hc))) hin
        (fun c hc => hsame c (List.mem_append_right _ hc))
    · intro hover
      rcases hend.serves with hin | ⟨k, e, hk, hn, hversion, hopen | hfailed⟩
      · exact Or.inl hin
      · rw [hover e (List.mem_of_getElem? hk)] at hopen
        exact nomatch hopen
      · exact Or.inr ⟨e, List.mem_of_getElem? hk, hn, hversion, hfailed⟩
  · rintro done x rest m s - hx
    exact hlate done x m s hx

/-- Two requests are made, and the first is put through while the second still waits.
    The engine of the first arrives last. -/
def slowEngine : List PhaseEvent :=
  [.request "1" ⟨"1/r", some "1/e"⟩, .request "2" ⟨"2/r", some "2/e"⟩] ++ bring 0 "reader"
    ++ [.resume 0] ++ bring 1 "reader"

def slowEngineAfter : List PhaseEvent :=
  [.startEngine 0, .startEngine 1] ++ bring 3 "engine" ++ [.resumeEngine 1] ++ bring 2 "engine"
    ++ [.resumeEngine 0]

/-- The slow engine is dropped, and the second request has both of its own. -/
theorem slow_engine_yields :
    let p := (empty MemoryStore.empty).run StandIn.backend slowEngine
    let q := (p.step StandIn.backend (.resume 1)).run StandIn.backend slowEngineAfter
    p.commits? (.resume 1) = some (1, ⟨"2", ⟨"2/r", some "2/e"⟩, .waiting 1⟩) ∧
    q.readerVersion? = some "2" ∧ q.hasEngine "2" = true := by
  intro p q
  have hcommit : p.commits? (.resume 1)
      = some (1, ⟨"2", ⟨"2/r", some "2/e"⟩, .waiting 1⟩) := rfl
  obtain ⟨hstays, hengine, hquiet, -⟩ :=
    latest_put_through_wins StandIn.backend p (.resume 1) 1 _ hcommit slowEngineAfter
  have hended : (p.step StandIn.backend (.resume 1)).EndedBeside "2" := by
    have hall : ∀ r ∈ (p.step StandIn.backend (.resume 1)).requests, r.version ≠ "2" →
        r.result?.isSome = true := by decide
    intro m r hr
    exact hall r (List.mem_of_getElem? hr)
  have hsame := hquiet hended (by decide)
  refine ⟨hcommit, hstays.mp hsame slowEngineAfter [] (List.append_nil _).symm, ?_⟩
  rcases (hengine rfl hsame).2.2 (by decide) with hin | ⟨e, he, hn, -, error, hfailed⟩
  · exact hin
  · have hinstalled : ∀ e ∈ q.engineLoads, e.stage = .installed ∨ e.stage = .dropped := by decide
    rcases hinstalled e he with hstage | hstage <;> rw [hfailed] at hstage <;> exact nomatch hstage

/-- Two requests are made, and the reader of the first is slow. -/
def lateReader : List PhaseEvent :=
  [.request "1" ⟨"1/r", some "1/e"⟩, .request "2" ⟨"2/r", some "2/e"⟩] ++ bring 1 "reader"
    ++ [.resume 1, .startEngine 0] ++ bring 2 "engine" ++ [.resumeEngine 0]

/-- It arrives when the second one has its reader and its engine in place. -/
def lateReaderAfter : List PhaseEvent :=
  bring 0 "reader" ++ [.resume 0, .startEngine 1] ++ bring 3 "engine" ++ [.resumeEngine 1]

/-- **A LATE READER TAKES OVER**: the request that was made last has reader and engine in
    place, and in the end, when everything that was asked for has been loaded, both are
    of the version that was asked for before. -/
theorem late_reader_takes_over :
    let p := (empty MemoryStore.empty).run StandIn.backend lateReader
    let q := p.run StandIn.backend lateReaderAfter
    (p.readerVersion? = some "2" ∧ p.hasEngine "2" = true) ∧
    (q.requests.map (fun r => (r.version, r.sources.engine))
        = [("1", some "1/e"), ("2", some "2/e")]
      ∧ (∀ r ∈ q.requests, (r.result?.map Except.isOk) = some true)
      ∧ (∀ e ∈ q.engineLoads, e.stage = .installed) ∧ q.loader.inFlight = []) ∧
    q.readerVersion? = some "1" ∧ q.hasEngine "1" = true := by
  decide

end Phase
end PhaseHost
