import PhaseHost.Proofs.Phase.Moves

/-! # The newest request decides on the engine

    Loads of engines overlap and end in any order, so an engine may be loaded
    when nobody wants it any more, and it may have been there before it was
    wanted.  The controller keeps one piece of memory against this, the version
    that is wanted.

    The trail `engineCommits` lists the requests for an engine that were put
    through.  `Phase.Tracks` is the invariant about its last entry:

    * the wanted version is the version of that request;
    * that request is SERVED: the engine of its version is in place, or its own
      load is not over, or its own load has failed.

    A load that ends installed is a load of the wanted version, so it serves the
    newest request whoever started it; a load that ends dropped is not the
    newest request's own. -/

namespace PhaseHost

variable {σ κ : Type}

namespace Phase

/-- The request for an engine that an event puts through. -/
def commitsEngine? (p : Phase σ κ) (event : PhaseEvent) : Option (Nat × Request) :=
  (p.commits? event).filter (fun c => c.2.sources.engine.isSome)

/-- The requests for an engine that were put through along a run, in order. -/
def engineCommits (B : Backend σ κ) (p : Phase σ κ) (events : List PhaseEvent) :
    List (Nat × Request) :=
  trail (step B) commitsEngine? p events

/-- The stage of the `k`-th load of an engine. -/
def engineStage? (p : Phase σ κ) (k : Nat) : Option EngineStage :=
  (p.engineLoads[k]?).map EngineLoad.stage

/-- An event installs the engine of the `k`-th load. -/
def Installs (B : Backend σ κ) (p : Phase σ κ) (event : PhaseEvent) (k : Nat) : Prop :=
  p.engineStage? k ≠ some .installed ∧ (p.step B event).engineStage? k = some .installed

/-- An event ends the `k`-th load, well or not. -/
def Ends (B : Backend σ κ) (p : Phase σ κ) (event : PhaseEvent) (k : Nat) : Prop :=
  ∃ s t, p.engineStage? k = some s ∧ s.isOver = false
    ∧ (p.step B event).engineStage? k = some t ∧ t.isOver = true

/-- Two controllers agree on readiness, slots and the wanted version. -/
structure SameSlots (p q : Phase σ κ) : Prop where
  readiness : q.readiness = p.readiness
  reader : q.reader = p.reader
  engine : q.engine = p.engine
  wanted : q.wanted = p.wanted

/-- A request is served: the engine of its version is in place, or a load that
    the request has started for it is not over, or such a load has failed. -/
def Serves (p : Phase σ κ) (n : Nat) (version : String) : Prop :=
  p.hasEngine version = true ∨
    ∃ (k : Nat) (e : EngineLoad), p.engineLoads[k]? = some e ∧ e.request = n
      ∧ e.version = version ∧ (e.stage.isOver = false ∨ ∃ error, e.stage = .failed error)

variable {B : Backend σ κ} {p q : Phase σ κ} {event : PhaseEvent}

/-! ## Which request an event puts through -/

/-- A request whose reader is loaded is put through by its own event. -/
theorem commits?_of_loaded {n : Nat} {version : String} {sources : ModuleSources}
    {attempt handle : Handle}
    (waits : p.requests[n]? = some ⟨version, sources, .waiting attempt⟩)
    (loaded : p.loader.outcome? attempt = some (.ok handle)) :
    p.commits? (.resume n) = some (n, ⟨version, sources, .waiting attempt⟩) := by
  simp only [commits?, waits, loaded]

/-- A request whose reader could not be loaded is not put through. -/
theorem commits?_of_failed {n : Nat} {version : String} {sources : ModuleSources}
    {attempt : Handle} {error : LoadError}
    (waits : p.requests[n]? = some ⟨version, sources, .waiting attempt⟩)
    (failed : p.loader.outcome? attempt = some (.error error)) :
    p.commits? (.resume n) = none := by
  simp only [commits?, waits, failed]

/-- No request, no request for an engine. -/
theorem commitsEngine?_of_idle (idle : p.commits? event = none) :
    p.commitsEngine? event = none := by
  simp only [commitsEngine?]
  rw [idle]
  rfl

/-- An event puts a request through by committing it with what was loaded. -/
theorem step_of_commits {n : Nat} {r : Request} (h : p.commits? event = some (n, r)) :
    ∃ handle, p.requests[n]? = some r
      ∧ p.step B event = p.commit n r.version r.sources handle := by
  have hmove := move_step B p event
  generalize p.step B event = q at hmove
  cases hmove with
  | @commit m version sources attempt handle waits loaded =>
      rw [commits?_of_loaded waits loaded] at h
      cases h
      exact ⟨handle, waits, rfl⟩
  | stay idle => rw [idle] at h; exact nomatch h
  | refuse waits failed => rw [commits?_of_failed waits failed] at h; exact nomatch h
  | request version sources => exact nomatch h
  | begin ready => exact nomatch h
  | install waits loaded wanted => exact nomatch h
  | drop waits loaded unwanted => exact nomatch h
  | fail waits failed => exact nomatch h
  | load event => exact nomatch h

/-- The reader is replaced by no other event. -/
theorem reader_of_idle (idle : p.commits? event = none) :
    (p.step B event).reader = p.reader := by
  have hmove := move_step B p event
  generalize p.step B event = q at hmove
  cases hmove with
  | commit waits loaded =>
      rw [commits?_of_loaded waits loaded] at idle
      exact nomatch idle
  | stay _ => rfl
  | refuse waits failed => rfl
  | request version sources => rfl
  | begin ready => rfl
  | install waits loaded wanted => rfl
  | drop waits loaded unwanted => rfl
  | fail waits failed => rfl
  | load event => rfl

/-! ## Stages of loads -/

/-- A load of an engine that moves on leaves the others where they are. -/
theorem engineStage?_moveEngine (p : Phase σ κ) (n : Nat) (stage : EngineStage) (k : Nat) :
    (p.moveEngine n stage).engineStage? k
      = if n = k then (p.engineStage? k).map (fun _ => stage) else p.engineStage? k := by
  show ((p.moveEngine n stage).engineLoads[k]?).map EngineLoad.stage = _
  rw [moveEngine_engineLoads]
  by_cases hnk : n = k
  · rw [if_pos hnk, if_pos hnk]
    show _ = ((p.engineLoads[k]?).map EngineLoad.stage).map _
    rw [Option.map_map, Option.map_map]
    rfl
  · rw [if_neg hnk, if_neg hnk]
    rfl

/-- A load that is at another stage than the one some load was moved to was there before. -/
theorem engineStage?_moveEngine_ne {n : Nat} {stage other : EngineStage} {k : Nat}
    (hk : (p.moveEngine n stage).engineStage? k = some other)
    (hne : stage ≠ other) : p.engineStage? k = some other := by
  rw [engineStage?_moveEngine] at hk
  split at hk
  · cases hs : p.engineStage? k with
    | none => rw [hs] at hk; exact nomatch hk
    | some s => rw [hs] at hk; exact absurd (Option.some.inj hk) hne
  · exact hk

/-- A request that is put through starts a load at most; it ends none. -/
theorem engineStage?_commit {n : Nat} {version : String} {sources : ModuleSources}
    {handle : Handle} {k : Nat} {s : EngineStage}
    (hk : (p.commit n version sources handle).engineStage? k = some s) :
    p.engineStage? k = some s ∨ p.engineStage? k = none ∧ s = .ready := by
  have hk' : ((p.commit n version sources handle).engineLoads[k]?).map EngineLoad.stage
      = some s := hk
  rw [commit_engineLoads] at hk'
  split at hk'
  next location hengine =>
    split at hk'
    · exact Or.inl hk'
    · rw [List.getElem?_append] at hk'
      split at hk'
      · exact Or.inl hk'
      next hlen =>
        -- behind the old loads there is only the new one, which is ready
        rw [List.getElem?_singleton] at hk'
        split at hk'
        · refine Or.inr ⟨?_, (Option.some.inj hk').symm⟩
          show (p.engineLoads[k]?).map _ = none
          rw [List.getElem?_eq_none (Nat.le_of_not_lt hlen)]
          rfl
        · exact nomatch hk'
  next => exact Or.inl hk'

/-! ## Installing and ending -/

/-- **ONLY THE WANTED ENGINE**: whatever an event installs is of the wanted version. -/
theorem Installs.wanted {k : Nat} (h : Installs B p event k) :
    ∃ version handle, p.wanted = some version
      ∧ (p.step B event).engine = some ⟨version, handle⟩ := by
  obtain ⟨hbefore, hafter⟩ := h
  have hmove := move_step B p event
  generalize p.step B event = q at hmove hafter
  cases hmove with
  | @install n version location request attempt handle waits loaded wanted =>
      exact ⟨version, handle, wanted, rfl⟩
  | stay idle => exact absurd hafter hbefore
  | request version sources => exact absurd hafter hbefore
  | commit waits loaded =>
      rcases engineStage?_commit hafter with hsame | ⟨-, hready⟩
      · exact absurd hsame hbefore
      · exact nomatch hready
  | refuse waits failed => exact absurd hafter hbefore
  | begin ready => exact absurd (engineStage?_moveEngine_ne hafter nofun) hbefore
  | drop waits loaded unwanted =>
      exact absurd (engineStage?_moveEngine_ne hafter nofun) hbefore
  | fail waits failed => exact absurd (engineStage?_moveEngine_ne hafter nofun) hbefore
  | load event => exact absurd hafter hbefore

/-- The slot of the engine changes only when a load is installed. -/
theorem installs_of_engine_ne (h : (p.step B event).engine ≠ p.engine) :
    ∃ k, Installs B p event k := by
  simp only [Installs]
  have hmove := move_step B p event
  generalize p.step B event = q at hmove h
  cases hmove with
  | @install n version location request attempt handle waits loaded wanted =>
      have hstage : p.engineStage? n = some (.waiting attempt) := by
        show (p.engineLoads[n]?).map _ = _
        rw [waits]
        rfl
      refine ⟨n, by rw [hstage]; exact nofun, ?_⟩
      rw [engineStage?_moveEngine, if_pos rfl]
      show (p.engineStage? n).map _ = _
      rw [hstage]
      rfl
  | commit waits loaded => exact absurd (commit_engine ..) h
  | stay idle => exact absurd rfl h
  | request version sources => exact absurd rfl h
  | refuse waits failed => exact absurd rfl h
  | begin ready => exact absurd rfl h
  | drop waits loaded unwanted => exact absurd rfl h
  | fail waits failed => exact absurd rfl h
  | load event => exact absurd rfl h

theorem SameSlots.refl (p : Phase σ κ) : SameSlots p p :=
  ⟨rfl, rfl, rfl, rfl⟩

/-- The end of a load whose version is not wanted leaves no mark on the slots. -/
theorem Ends.sameSlots {k : Nat} {e : EngineLoad} (h : Ends B p event k)
    (hk : p.engineLoads[k]? = some e) (unwanted : p.wanted ≠ some e.version) :
    SameSlots p (p.step B event) := by
  obtain ⟨s, t, hs, hopen, ht, hover⟩ := h
  have hmove := move_step B p event
  generalize p.step B event = q at hmove ht
  cases hmove with
  | @install n version location request attempt handle waits loaded wanted =>
      by_cases hnk : n = k
      · -- the load that ends is the one that is installed, so it was wanted
        subst hnk
        rw [hk] at waits
        cases waits
        exact absurd wanted unwanted
      · -- another load is installed, so this one does not end
        rw [engineStage?_moveEngine, if_neg hnk] at ht
        have hst : s = t := Option.some.inj (hs.symm.trans ht)
        rw [hst, hover] at hopen
        exact nomatch hopen
  | commit waits loaded =>
      rcases engineStage?_commit ht with hsame | ⟨hnone, -⟩
      · have hst : s = t := Option.some.inj (hs.symm.trans hsame)
        rw [hst, hover] at hopen
        exact nomatch hopen
      · rw [hnone] at hs
        exact nomatch hs
  | stay idle => exact SameSlots.refl p
  | request version sources => exact ⟨rfl, rfl, rfl, rfl⟩
  | refuse waits failed => exact ⟨rfl, rfl, rfl, rfl⟩
  | begin ready => exact ⟨rfl, rfl, rfl, rfl⟩
  | drop waits loaded unwanted => exact ⟨rfl, rfl, rfl, rfl⟩
  | fail waits failed => exact ⟨rfl, rfl, rfl, rfl⟩
  | load event => exact ⟨rfl, rfl, rfl, rfl⟩

/-! ## Serving the newest request -/

/-- The engine of a version is in place if one is, and it is of that version. -/
theorem hasEngine_iff {version : String} :
    p.hasEngine version = true ↔
      ∃ installed, p.engine = some installed ∧ installed.version = version := by
  simp only [hasEngine]
  cases p.engine with
  | none => exact ⟨nofun, fun ⟨_, h, _⟩ => nomatch h⟩
  | some engine =>
      constructor
      · intro h
        exact ⟨engine, rfl, of_decide_eq_true h⟩
      · rintro ⟨installed, heq, hversion⟩
        cases heq
        exact decide_eq_true hversion

variable {n : Nat} {version : String}

/-- Serving looks at the engine and at the loads, and at nothing else. -/
theorem Serves.of_eq (h : p.Serves n version) (hengine : q.engine = p.engine)
    (hloads : q.engineLoads = p.engineLoads) : q.Serves n version := by
  simp only [Serves, hasEngine] at h ⊢
  rw [hengine, hloads]
  exact h

/-- A load that goes on or fails serves its request as before. -/
theorem Serves.moveEngine (h : p.Serves n version) (m : Nat) {stage : EngineStage}
    (hstage : stage.isOver = false ∨ ∃ error, stage = .failed error) :
    (p.moveEngine m stage).Serves n version := by
  rcases h with hin | ⟨k, e, hk, hn, hv, hs⟩
  · exact Or.inl hin
  · refine Or.inr ?_
    by_cases hmk : m = k
    · refine ⟨k, { e with stage := stage }, ?_, hn, hv, hstage⟩
      rw [moveEngine_engineLoads, if_pos hmk, hk]
      rfl
    · refine ⟨k, e, ?_, hn, hv, hs⟩
      rw [moveEngine_engineLoads, if_neg hmk]
      exact hk

/-- What becomes of the load of another version is of no consequence. -/
theorem Serves.moveOther (h : p.Serves n version) {m : Nat} {e : EngineLoad}
    (hm : p.engineLoads[m]? = some e) (hother : e.version ≠ version) (stage : EngineStage) :
    (p.moveEngine m stage).Serves n version := by
  rcases h with hin | ⟨k, d, hk, hn, hv, hs⟩
  · exact Or.inl hin
  · have hmk : m ≠ k := by
      rintro rfl
      rw [hm] at hk
      cases hk
      exact hother hv
    refine Or.inr ⟨k, d, ?_, hn, hv, hs⟩
    rw [moveEngine_engineLoads, if_neg hmk]
    exact hk

/-- A request that is put through leaves those served that are. -/
theorem Serves.commit (h : p.Serves n version) (m : Nat) (other : String)
    (sources : ModuleSources) (handle : Handle) :
    (p.commit m other sources handle).Serves n version := by
  rcases h with hin | ⟨k, e, hk, hn, hv, hs⟩
  · refine Or.inl ?_
    simp only [hasEngine]
    rw [commit_engine]
    exact hin
  · refine Or.inr ⟨k, e, ?_, hn, hv, hs⟩
    rw [commit_engineLoads]
    split
    · split
      · exact hk
      · exact getElem?_concat_iff.mpr (Or.inl hk)
    · exact hk

/-- A request for an engine that is put through is served: it finds the engine in place or
    starts its own load. -/
theorem serves_commit (p : Phase σ κ) (n : Nat) (version : String) {sources : ModuleSources}
    (hengine : sources.engine.isSome = true) (handle : Handle) :
    (p.commit n version sources handle).Serves n version := by
  obtain ⟨location, hlocation⟩ := Option.isSome_iff_exists.mp hengine
  by_cases hin : p.hasEngine version = true
  · refine Or.inl ?_
    simp only [hasEngine]
    rw [commit_engine]
    exact hin
  · refine Or.inr ⟨p.engineLoads.length, ⟨version, location, n, .ready⟩, ?_, rfl, rfl, Or.inl rfl⟩
    rw [commit_engineLoads, hlocation]
    show (if p.hasEngine version = true then _ else _)[_]? = _
    rw [if_neg hin]
    exact List.getElem?_concat_length

/-- The invariant about the newest request for an engine that was put through. -/
structure Tracks (p : Phase σ κ) (newest : Option (Nat × Request)) : Prop where
  wanted : p.wanted = newest.map (fun c => c.2.version)
  serves : ∀ n r, newest = some (n, r) → p.Serves n r.version

variable {newest : Option (Nat × Request)}

/-- Before the first request nothing is wanted. -/
theorem tracks_empty (store : σ) : Tracks (empty store : Phase σ κ) none :=
  ⟨rfl, nofun⟩

/-- A request that is put through is the newest one if it asks for an engine. -/
theorem Tracks.commit (h : Tracks p newest) {sources : ModuleSources}
    {attempt handle : Handle}
    (waits : p.requests[n]? = some ⟨version, sources, .waiting attempt⟩)
    (loaded : p.loader.outcome? attempt = some (.ok handle)) :
    Tracks (p.commit n version sources handle)
      ((p.commitsEngine? (.resume n)).or newest) := by
  simp only [commitsEngine?]
  rw [commits?_of_loaded waits loaded]
  cases hengine : sources.engine.isSome with
  | false =>
      rw [Option.filter_some, if_neg (by rw [hengine]; exact nofun)]
      refine ⟨?_, fun m r hnew => (h.serves m r hnew).commit n version sources handle⟩
      rw [commit_wanted, hengine]
      exact h.wanted
  | true =>
      rw [Option.filter_some, if_pos hengine]
      refine ⟨?_, ?_⟩
      · rw [commit_wanted, hengine]
        rfl
      · rintro m r ⟨⟩
        exact serves_commit p n version hengine handle

/-- **TRACKING** survives every move. -/
theorem Tracks.move (h : Tracks p newest) (hmove : Move B p event q) :
    Tracks q ((p.commitsEngine? event).or newest) := by
  cases hmove with
  | stay idle =>
      rw [commitsEngine?_of_idle idle]
      exact h
  | request version sources => exact ⟨h.wanted, h.serves⟩
  | commit waits loaded => exact h.commit waits loaded
  | refuse waits failed =>
      rw [commitsEngine?_of_idle (commits?_of_failed waits failed)]
      exact ⟨h.wanted, h.serves⟩
  | begin ready =>
      refine ⟨h.wanted, ?_⟩
      intro m r hnew
      exact ((h.serves m r hnew).of_eq (q := { p with loader := _ }) rfl rfl).moveEngine _
        (Or.inl rfl)
  | install waits loaded wanted =>
      show Tracks _ newest
      refine ⟨h.wanted, ?_⟩
      intro m r hnew
      -- what is installed is of the wanted version, which is the newest request's
      rw [h.wanted, hnew] at wanted
      exact Or.inl (hasEngine_iff.mpr ⟨_, rfl, (Option.some.inj wanted).symm⟩)
  | drop waits loaded unwanted =>
      show Tracks _ newest
      refine ⟨h.wanted, ?_⟩
      intro m r hnew
      -- a load that is dropped is not of the newest request's version
      refine (h.serves m r hnew).moveOther waits ?_ _
      intro hversion
      refine unwanted ?_
      rw [h.wanted, hnew]
      exact congrArg some hversion.symm
  | fail waits failed =>
      refine ⟨h.wanted, ?_⟩
      intro m r hnew
      exact (h.serves m r hnew).moveEngine _ (Or.inr ⟨_, rfl⟩)
  | load event => exact ⟨h.wanted, h.serves⟩

/-- **THE NEWEST REQUEST IS TRACKED** all along. -/
theorem tracks_run (B : Backend σ κ) (store : σ) (events : List PhaseEvent) :
    Tracks ((empty store).run B events) (engineCommits B (empty store) events).getLast? := by
  induction events using List.reverseRecOn with
  | nil => exact tracks_empty store
  | append_singleton events event ih =>
      simp only [engineCommits] at ih ⊢
      rw [run_concat, getLast?_trail_concat]
      exact ih.move (move_step B _ event)

/-- An engine that is in place and wanted stays in place until a request for
    another one is put through. -/
theorem hasEngine_move (hwanted : p.wanted = some version)
    (hin : p.hasEngine version = true) (hmove : Move B p event q)
    (hquiet : p.commitsEngine? event = none) :
    q.wanted = some version ∧ q.hasEngine version = true := by
  cases hmove with
  | @commit m other sources attempt handle waits loaded =>
      have hreader : sources.engine.isSome = false := by
        simp only [commitsEngine?] at hquiet
        rw [commits?_of_loaded waits loaded, Option.filter_some] at hquiet
        split at hquiet
        · exact nomatch hquiet
        next hnone => exact Bool.eq_false_iff.mpr hnone
      refine ⟨?_, ?_⟩
      · rw [commit_wanted, hreader]
        exact hwanted
      · simp only [hasEngine]
        rw [commit_engine]
        exact hin
  | install waits loaded wanted =>
      refine ⟨hwanted, hasEngine_iff.mpr ⟨_, rfl, ?_⟩⟩
      exact Option.some.inj (wanted.symm.trans hwanted)
  | stay idle => exact ⟨hwanted, hin⟩
  | request version sources => exact ⟨hwanted, hin⟩
  | refuse waits failed => exact ⟨hwanted, hin⟩
  | begin ready => exact ⟨hwanted, hin⟩
  | drop waits loaded unwanted => exact ⟨hwanted, hin⟩
  | fail waits failed => exact ⟨hwanted, hin⟩
  | load event => exact ⟨hwanted, hin⟩

/-- An engine that is wanted and in place stays, unless a request for an engine is put through. -/
theorem hasEngine_run (hwanted : p.wanted = some version) (hin : p.hasEngine version = true)
    (events : List PhaseEvent) (hquiet : engineCommits B p events = []) :
    (p.run B events).wanted = some version ∧ (p.run B events).hasEngine version = true := by
  induction events using List.reverseRecOn with
  | nil => exact ⟨hwanted, hin⟩
  | append_singleton events event ih =>
      simp only [engineCommits] at ih hquiet
      rw [trail_concat] at hquiet
      obtain ⟨hbefore, hlast⟩ := List.append_eq_nil_iff.mp hquiet
      obtain ⟨hw, he⟩ := ih hbefore
      rw [run_concat]
      refine hasEngine_move hw he (move_step B _ event) ?_
      show ((p.run B events).commitsEngine? event) = none
      cases hnote : (p.run B events).commitsEngine? event with
      | none => rfl
      | some c =>
          have hlast' : ((p.run B events).commitsEngine? event).toList = [] := hlast
          rw [hnote] at hlast'
          exact nomatch hlast'

/-! ## Sessions in which every request asks for an engine -/

/-- While every request asks for an engine, reader and wanted version go together. -/
theorem reader_eq_wanted_move (h : (∀ r ∈ p.requests, r.sources.engine.isSome) →
      p.reader.map Installed.version = p.wanted) (hmove : Move B p event q)
    (hall : ∀ r ∈ q.requests, r.sources.engine.isSome) :
    q.reader.map Installed.version = q.wanted := by
  -- no move changes the sources of a request, so the assumption goes backwards
  have hsources : (∀ r ∈ q.requests, r.sources.engine.isSome) →
      q.requests.map Request.sources = p.requests.map Request.sources →
      ∀ r ∈ p.requests, r.sources.engine.isSome := by
    intro hq heq r hr
    have hmem : r.sources ∈ q.requests.map Request.sources :=
      heq ▸ List.mem_map_of_mem hr
    obtain ⟨r', hr', hrr⟩ := List.mem_map.mp hmem
    exact hrr ▸ hq r' hr'
  cases hmove with
  | @commit n version sources attempt handle waits loaded =>
      have hp := hsources hall (commit_sources ..)
      have hengine : sources.engine.isSome = true := hp _ (List.mem_of_getElem? waits)
      rw [commit_reader, commit_wanted, if_pos hengine]
      rfl
  | request version sources =>
      exact h (fun r hr => hall r (List.mem_append_left _ hr))
  | refuse waits failed => exact h (hsources hall (finish_sources ..))
  | stay idle => exact h hall
  | begin ready => exact h hall
  | install waits loaded wanted => exact h hall
  | drop waits loaded unwanted => exact h hall
  | fail waits failed => exact h hall
  | load event => exact h hall

/-- Where every request asks for an engine, the reader is of the wanted version. -/
theorem reader_eq_wanted_run (B : Backend σ κ) (store : σ) (events : List PhaseEvent)
    (hall : ∀ r ∈ ((empty store).run B events).requests, r.sources.engine.isSome) :
    ((empty store).run B events).reader.map Installed.version
      = ((empty store).run B events).wanted := by
  induction events using List.reverseRecOn with
  | nil => rfl
  | append_singleton events event ih =>
      rw [run_concat] at hall ⊢
      exact reader_eq_wanted_move ih (move_step B _ event) hall

/-- **THE NEWEST REQUEST DECIDES ON THE ENGINE**.  Along every run of a
    controller, with `newest` the last request for an engine that was put through:

    * a request is put through by the event that puts its reader in place, and no
      other event replaces the reader;
    * the version of `newest` is the wanted one, and whatever is installed is of this
      version;
    * a load for any other version ends without a mark on readiness and slots;
    * once no load is under way, the engine in place is of this version, or the
      load that this request has started has failed;
    * an engine of its version that was there when it was put through is still there;
    * if every request asks for an engine, the reader is of this version too. -/
theorem newest_request_decides_engine (B : Backend σ κ) (store : σ)
    (events : List PhaseEvent) :
    let p := (empty store).run B events
    let newest := (engineCommits B (empty store) events).getLast?
    (∀ event n r, p.commits? event = some (n, r) → ∃ handle, p.requests[n]? = some r
      ∧ (p.step B event).reader = some ⟨r.version, handle⟩) ∧
    (∀ event, p.commits? event = none → (p.step B event).reader = p.reader) ∧
    p.wanted = newest.map (fun c => c.2.version) ∧
    (∀ event k, Installs B p event k → ∃ n r installed, newest = some (n, r)
      ∧ (p.step B event).engine = some installed ∧ installed.version = r.version) ∧
    (∀ event, (p.step B event).engine ≠ p.engine → ∃ k, Installs B p event k) ∧
    (∀ event k e, p.engineLoads[k]? = some e → Ends B p event k →
      (∀ n r, newest = some (n, r) → r.version ≠ e.version) →
      SameSlots p (p.step B event)) ∧
    (∀ n r, newest = some (n, r) → (∀ e ∈ p.engineLoads, e.stage.isOver = true) →
      (∃ installed, p.engine = some installed ∧ installed.version = r.version) ∨
        ∃ e ∈ p.engineLoads, e.request = n ∧ e.version = r.version
          ∧ ∃ error, e.stage = .failed error) ∧
    (∀ before event after n r, events = before ++ event :: after →
      ((empty store).run B before).commitsEngine? event = some (n, r) →
      engineCommits B (((empty store).run B before).step B event) after = [] →
      (∃ installed, ((empty store).run B before).engine = some installed
        ∧ installed.version = r.version) →
      ∃ installed, p.engine = some installed ∧ installed.version = r.version) ∧
    ((∀ r ∈ p.requests, r.sources.engine.isSome) →
      p.reader.map Installed.version = p.wanted) := by
  intro p newest
  have htracks : Tracks p newest := tracks_run B store events
  refine ⟨?_, fun _ => reader_of_idle, htracks.wanted, ?_, ?_, ?_, ?_, ?_,
    reader_eq_wanted_run B store events⟩
  · intro event n r hcommit
    obtain ⟨handle, hrequest, hstep⟩ := step_of_commits (B := B) hcommit
    exact ⟨handle, hrequest, by rw [hstep, commit_reader]⟩
  · intro event k hk
    obtain ⟨version, handle, hwanted, hengine⟩ := hk.wanted
    rw [htracks.wanted] at hwanted
    obtain ⟨⟨n, r⟩, hnew, hversion⟩ := Option.map_eq_some_iff.mp hwanted
    exact ⟨n, r, ⟨version, handle⟩, hnew, hengine, hversion.symm⟩
  · intro event hne
    exact installs_of_engine_ne hne
  · intro event k e hk hends hother
    refine hends.sameSlots hk ?_
    intro hwanted
    rw [htracks.wanted] at hwanted
    obtain ⟨⟨n, r⟩, hnew, hversion⟩ := Option.map_eq_some_iff.mp hwanted
    exact hother n r hnew hversion
  · intro n r hnew hover
    rcases htracks.serves n r hnew with hin | ⟨k, e, hk, hn, hv, hopen | hfailed⟩
    · exact Or.inl (hasEngine_iff.mp hin)
    · rw [hover e (List.mem_of_getElem? hk)] at hopen
      exact nomatch hopen
    · exact Or.inr ⟨e, List.mem_of_getElem? hk, hn, hv, hfailed⟩
  · intro before event after n r hevents hcommit hquiet hin
    have hmove := move_step B ((empty store).run B before) event
    have hwanted := ((tracks_run B store before).move hmove).wanted
    rw [hcommit] at hwanted
    have hin' : (((empty store).run B before).step B event).hasEngine r.version = true := by
      obtain ⟨handle, -, hstep⟩ :=
        step_of_commits (B := B) (Option.filter_eq_some_iff.mp hcommit).1
      rw [hasEngine_iff, hstep, commit_engine]
      exact hin
    have hrun := (hasEngine_run hwanted hin' after hquiet).2
    show ∃ installed, ((empty store).run B events).engine = some installed ∧ _
    rw [hevents, run_append]
    exact hasEngine_iff.mp hrun

end Phase
end PhaseHost
