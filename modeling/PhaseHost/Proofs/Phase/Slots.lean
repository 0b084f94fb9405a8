import PhaseHost.Host.Basic
import PhaseHost.Proofs.Loader.Attempts
import PhaseHost.Proofs.Phase.Moves

/-! # Readiness and slots

    Readiness and the two slots are separate pieces of a controller, written by
    different moves.  `Phase.Sound` is the invariant that ties them together:
    readiness is idle exactly without a reader and full exactly with an engine.

    The one guard that no move checks is that a reader is there when an engine
    is installed.  It holds because the load of an engine only ever starts from
    a request that has put its reader in place: `reader_of_load`.

    Consequently an action that is not too early always finds its slot filled,
    with a capability that has been made. -/

namespace PhaseHost

variable {σ κ : Type}

/-- The slot refers to a capability that the loader has made, if to any. -/
def Loader.Stocks (l : Loader σ κ) (slot : Option Installed) : Prop :=
  ∀ installed, slot = some installed → ∃ c, l.product? installed.handle = some c

namespace Phase

/-- What holds of every controller that a run reaches. -/
structure Sound (p : Phase σ κ) : Prop where
  idle_iff : p.readiness = .idle ↔ p.reader = none
  full_iff : p.readiness = .full ↔ p.engine ≠ none
  /-- No load of an engine without a reader in place. -/
  reader_of_load : p.engineLoads ≠ [] → p.reader ≠ none
  coherent : p.loader.Coherent
  reader_made : p.loader.Stocks p.reader
  engine_made : p.loader.Stocks p.engine

variable {B : Backend σ κ} {p q : Phase σ κ} {event : PhaseEvent}

/-- A controller that has been asked for nothing is sound. -/
theorem sound_empty (store : σ) : (empty store : Phase σ κ).Sound where
  idle_iff := ⟨fun _ => rfl, fun _ => rfl⟩
  full_iff := ⟨nofun, fun h => absurd rfl h⟩
  reader_of_load h := absurd rfl h
  coherent := Loader.coherent_empty store
  reader_made := nofun
  engine_made := nofun

/-- Where there is an engine there is a reader. -/
theorem reader_of_full (h : p.Sound) (hp : p.readiness = .full) : p.reader ≠ none := by
  intro hr
  rw [h.idle_iff.mpr hr] at hp
  exact nomatch hp

/-- A load of an engine finds a reader in place. -/
theorem Sound.reader_of_getElem? (h : p.Sound) {n : Nat} {e : EngineLoad}
    (hload : p.engineLoads[n]? = some e) : p.reader ≠ none := by
  refine h.reader_of_load ?_
  intro hnil
  rw [hnil] at hload
  exact nomatch hload

/-! ## Preservation -/

/-- The FRAME of soundness: a move that leaves readiness and slots alone, starts
    no load of an engine out of nothing and loses no capability keeps it. -/
theorem Sound.frame (h : p.Sound) (hreadiness : q.readiness = p.readiness)
    (hreader : q.reader = p.reader) (hengine : q.engine = p.engine)
    (hloads : q.engineLoads ≠ [] → p.engineLoads ≠ []) (hcoh : q.loader.Coherent)
    (hmade : ∀ n c, p.loader.product? n = some c → ∃ c', q.loader.product? n = some c') :
    q.Sound where
  idle_iff := by rw [hreadiness, hreader]; exact h.idle_iff
  full_iff := by rw [hreadiness, hengine]; exact h.full_iff
  reader_of_load hq := by rw [hreader]; exact h.reader_of_load (hloads hq)
  coherent := hcoh
  reader_made installed hi := by
    obtain ⟨c, hc⟩ := h.reader_made installed (hreader ▸ hi)
    exact hmade _ c hc
  engine_made installed hi := by
    obtain ⟨c, hc⟩ := h.engine_made installed (hengine ▸ hi)
    exact hmade _ c hc

private theorem loads_of_moveEngine {n : Nat} {stage : EngineStage}
    (h : (p.moveEngine n stage).engineLoads ≠ []) : p.engineLoads ≠ [] := by
  intro hnil
  refine h ?_
  show p.engineLoads.modify n _ = []
  rw [hnil, List.modify_nil]

/-- A frame for the moves that only touch requests and loads of engines. -/
private theorem Sound.sameLoader (h : p.Sound) (hreadiness : q.readiness = p.readiness)
    (hreader : q.reader = p.reader) (hengine : q.engine = p.engine)
    (hloads : q.engineLoads ≠ [] → p.engineLoads ≠ []) (hloader : q.loader = p.loader) :
    q.Sound :=
  h.frame hreadiness hreader hengine hloads (hloader ▸ h.coherent)
    (fun _ c hc => ⟨c, hloader ▸ hc⟩)

/-- A request fills no slot and leaves its load under way. -/
theorem Sound.request (h : p.Sound) (version : String) (sources : ModuleSources) :
    (p.request version sources).Sound :=
  h.frame rfl rfl rfl (fun hq => hq) (h.coherent.load ⟨.reader, version⟩ sources.reader)
    (fun _ c hc => ⟨c, Loader.product?_load _ _ hc⟩)

/-- The reader that a request puts through has been loaded, and something is in place from then
    on. -/
theorem Sound.commit (h : p.Sound) {n : Nat} {version : String} {sources : ModuleSources}
    {attempt handle : Handle}
    (loaded : p.loader.outcome? attempt = some (.ok handle)) :
    (p.commit n version sources handle).Sound where
  idle_iff := by
    rw [commit_readiness, commit_reader]
    constructor
    · intro hidle
      -- readiness has just moved up to the reader at least
      cases hr : p.readiness <;> rw [hr] at hidle <;> exact nomatch hidle
    · exact nofun
  full_iff := by
    rw [commit_readiness, commit_engine, ← h.full_iff]
    cases p.readiness <;> decide
  reader_of_load _ := by rw [commit_reader]; exact nofun
  coherent := by rw [commit_loader]; exact h.coherent
  reader_made installed hi := by
    rw [commit_reader] at hi
    cases hi
    rw [commit_loader]
    exact Loader.product?_of_outcome? h.coherent loaded
  engine_made := by
    rw [commit_loader, commit_engine]
    exact h.engine_made

/-- The engine that is put in place has been loaded, and a reader was there before it. -/
theorem Sound.install (h : p.Sound) {n : Nat} {e : EngineLoad} {version : String}
    {attempt handle : Handle} (hload : p.engineLoads[n]? = some e)
    (loaded : p.loader.outcome? attempt = some (.ok handle)) :
    (({ p with engine := some ⟨version, handle⟩ }.advance .full).moveEngine
      n .installed).Sound := by
  have hreader : p.reader ≠ none := h.reader_of_getElem? hload
  have hfull : p.readiness.advance .full = .full := by cases p.readiness <;> rfl
  -- both equivalences are settled by the reader being there and the engine coming in
  exact {
    idle_iff := by
      show p.readiness.advance .full = .idle ↔ p.reader = none
      rw [hfull]
      exact ⟨nofun, fun hr => absurd hr hreader⟩
    full_iff := ⟨fun _ => nofun, fun _ => hfull⟩
    reader_of_load := fun _ => hreader
    coherent := h.coherent
    reader_made := h.reader_made
    engine_made := by
      rintro installed ⟨⟩
      exact Loader.product?_of_outcome? h.coherent loaded }

/-- No move takes a capability away or changes it. -/
theorem Move.product? (hmove : Move B p event q) (hcoh : p.loader.Coherent) {n : Handle} {c : κ}
    (hn : p.loader.product? n = some c) : q.loader.product? n = some c := by
  cases hmove with
  | request version sources => exact Loader.product?_load _ _ hn
  | commit waits loaded => rw [commit_loader]; exact hn
  | begin ready => exact Loader.product?_load _ _ hn
  | load event => exact Loader.product?_step hcoh B event hn
  | stay idle => exact hn
  | refuse waits failed => exact hn
  | install waits loaded wanted => exact hn
  | drop waits loaded unwanted => exact hn
  | fail waits failed => exact hn

/-- **SOUNDNESS** survives every move. -/
theorem Sound.move (h : p.Sound) (hmove : Move B p event q) : q.Sound := by
  -- whatever the move, the slots keep referring to capabilities that are made
  have hmade : ∀ n c, p.loader.product? n = some c → ∃ c', q.loader.product? n = some c' :=
    fun _ c hc => ⟨c, hmove.product? h.coherent hc⟩
  cases hmove with
  | stay idle => exact h
  | request version sources => exact h.request version sources
  | commit waits loaded => exact h.commit loaded
  | refuse waits failed => exact h.sameLoader rfl rfl rfl (fun hq => hq) rfl
  | @begin n version location request ready =>
      exact h.frame rfl rfl rfl loads_of_moveEngine
        (h.coherent.load ⟨.engine, version⟩ location) hmade
  | install waits loaded wanted => exact h.install waits loaded
  | drop waits loaded unwanted => exact h.sameLoader rfl rfl rfl loads_of_moveEngine rfl
  | fail waits failed => exact h.sameLoader rfl rfl rfl loads_of_moveEngine rfl
  | load event =>
      exact h.frame rfl rfl rfl (fun hq => hq) (h.coherent.step B event) hmade

/-- A call that changes a capability keeps soundness too. -/
theorem Sound.call (h : p.Sound) {n : Handle} {c : κ} (hn : p.loader.product? n = some c)
    (c' : κ) : ({ p with loader := p.loader.replaceProduct n c' } : Phase σ κ).Sound := by
  refine h.frame rfl rfl rfl (fun hq => hq) (h.coherent.replaceProduct hn c') ?_
  intro m d hm
  show ∃ c'', (p.loader.replaceProduct n c').product? m = some c''
  rw [Loader.product?_replaceProduct hn]
  by_cases hnm : n = m
  · exact ⟨c', if_pos hnm⟩
  · exact ⟨d, by rw [if_neg hnm]; exact hm⟩

/-- Controllers are sound all along. -/
theorem sound_run (B : Backend σ κ) (store : σ) (events : List PhaseEvent) :
    ((empty store).run B events).Sound := by
  induction events using List.reverseRecOn with
  | nil => exact sound_empty store
  | append_singleton events event ih =>
      rw [run_concat]
      exact ih.move (move_step B _ event)

/-! ## Nothing goes back -/

/-- Readiness does not decrease and no filled slot becomes empty. -/
structure Grows (p q : Phase σ κ) : Prop where
  readiness : p.readiness ≤ q.readiness
  reader : p.reader ≠ none → q.reader ≠ none
  engine : p.engine ≠ none → q.engine ≠ none

theorem Grows.refl (p : Phase σ κ) : Grows p p :=
  ⟨Readiness.le_refl _, id, id⟩

theorem Grows.trans {r : Phase σ κ} (hpq : Grows p q) (hqr : Grows q r) : Grows p r :=
  ⟨Readiness.le_trans hpq.readiness hqr.readiness, fun h => hqr.reader (hpq.reader h),
    fun h => hqr.engine (hpq.engine h)⟩

/-- No event takes anything back. -/
theorem Move.grows (hmove : Move B p event q) : Grows p q := by
  cases hmove with
  | commit waits loaded =>
      refine ⟨?_, fun _ => ?_, ?_⟩
      · rw [commit_readiness]
        exact Readiness.le_advance _ _
      · rw [commit_reader]
        exact nofun
      · rw [commit_engine]
        exact id
  | install waits loaded wanted =>
      exact ⟨Readiness.le_advance _ _, id, fun _ => nofun⟩
  | stay idle => exact Grows.refl p
  | request version sources => exact ⟨Readiness.le_refl _, id, id⟩
  | refuse waits failed => exact ⟨Readiness.le_refl _, id, id⟩
  | begin ready => exact ⟨Readiness.le_refl _, id, id⟩
  | drop waits loaded unwanted => exact ⟨Readiness.le_refl _, id, id⟩
  | fail waits failed => exact ⟨Readiness.le_refl _, id, id⟩
  | load event => exact ⟨Readiness.le_refl _, id, id⟩

/-- **NOTHING GOES BACK** in any run. -/
theorem grows_run (B : Backend σ κ) (p : Phase σ κ) (events : List PhaseEvent) :
    Grows p (p.run B events) := by
  induction events using List.reverseRecOn with
  | nil => exact Grows.refl p
  | append_singleton events event ih =>
      rw [run_concat]
      exact ih.trans (move_step B _ event).grows

/-- Full readiness is entered from the reader alone, never from idleness. -/
theorem readiness_before_full (h : p.Sound) (hmove : Move B p event q)
    (hq : q.readiness = .full) : p.readiness = .readerOnly ∨ p.readiness = .full := by
  cases hmove with
  | commit waits loaded =>
      rw [commit_readiness] at hq
      cases hr : p.readiness with
      | idle => rw [hr] at hq; exact nomatch hq
      | readerOnly => exact Or.inl rfl
      | full => exact Or.inr rfl
  | install waits loaded wanted =>
      have hreader : p.reader ≠ none := h.reader_of_getElem? waits
      cases hr : p.readiness with
      | idle => exact absurd (h.idle_iff.mp hr) hreader
      | readerOnly => exact Or.inl rfl
      | full => exact Or.inr rfl
  | stay idle => exact Or.inr hq
  | request version sources => exact Or.inr hq
  | refuse waits failed => exact Or.inr hq
  | begin ready => exact Or.inr hq
  | drop waits loaded unwanted => exact Or.inr hq
  | fail waits failed => exact Or.inr hq
  | load event => exact Or.inr hq

/-! ## An action in time finds its capability -/

/-- The slot that serves actions of a reached readiness is filled, with a
    capability that has been made. -/
theorem slot_filled (h : p.Sound) {required : Readiness} (hcompute : required ≠ .idle)
    (hreached : required ≤ p.readiness) :
    ∃ installed c, p.slot required = some installed
      ∧ p.loader.product? installed.handle = some c := by
  -- the slot is one of the two, and soundness knows both to be stocked
  have hslot : ∃ installed, p.slot required = some installed
      ∧ (p.engine = some installed ∨ p.reader = some installed) := by
    cases required with
    | idle => exact absurd rfl hcompute
    | readerOnly =>
        have hreader : p.reader ≠ none := by
          intro hr
          rw [h.idle_iff.mpr hr] at hreached
          exact absurd hreached (by decide)
        -- the engine goes first where it is in place
        cases he : p.engine with
        | some engine =>
            exact ⟨engine, by show p.engine.or p.reader = _; rw [he]; rfl, Or.inl rfl⟩
        | none =>
            obtain ⟨reader, hr⟩ := Option.ne_none_iff_exists'.mp hreader
            exact ⟨reader, by show p.engine.or p.reader = _; rw [he, hr]; rfl, Or.inr hr⟩
    | full =>
        have hfull : p.readiness = .full := by
          cases hr : p.readiness with
          | idle => rw [hr] at hreached; exact absurd hreached (by decide)
          | readerOnly => rw [hr] at hreached; exact absurd hreached (by decide)
          | full => rfl
        obtain ⟨engine, he⟩ := Option.ne_none_iff_exists'.mp (h.full_iff.mp hfull)
        exact ⟨engine, he, Or.inl he⟩
  obtain ⟨installed, hs, hwhich⟩ := hslot
  rcases hwhich with he | hr
  · obtain ⟨c, hc⟩ := h.engine_made installed he
    exact ⟨installed, c, hs, hc⟩
  · obtain ⟨c, hc⟩ := h.reader_made installed hr
    exact ⟨installed, c, hs, hc⟩

/-- A slot that is filled serves actions of a readiness that has been reached. -/
theorem reached_of_slot (h : p.Sound) {required : Readiness} {installed : Installed}
    (hslot : p.slot required = some installed) : required ≤ p.readiness := by
  cases required with
  | idle => exact nomatch hslot
  | readerOnly =>
      have hidle : p.readiness ≠ .idle := by
        intro hidle
        have hengine : p.engine = none := by
          by_contra hne
          rw [h.full_iff.mpr hne] at hidle
          exact nomatch hidle
        have hnone : p.engine.or p.reader = none := by rw [hengine, h.idle_iff.mp hidle]; rfl
        exact nomatch hnone.symm.trans hslot
      cases hr : p.readiness with
      | idle => exact absurd hr hidle
      | readerOnly => decide
      | full => decide
  | full =>
      have hfull : p.readiness = .full :=
        h.full_iff.mpr (fun hnone => nomatch hnone.symm.trans hslot)
      rw [hfull]
      decide

/-- An action of the module that finds its slot filled gets what is in it. -/
theorem gate_eq_ok {action : Action} {installed : Installed}
    (hcompute : action.required ≠ .idle) (hreached : action.required ≤ p.readiness)
    (hslot : p.slot action.required = some installed) :
    p.gate action = .ok (some installed.handle) := by
  have hlate : ¬ p.readiness < action.required := Nat.not_lt.mpr hreached
  simp only [gate]
  rw [if_neg hlate, hslot]
  cases hr : action.required with
  | idle => exact absurd hr hcompute
  | readerOnly => rfl
  | full => rfl

/-- **READINESS TELLS THE SLOTS**: along every run of a controller, readiness is
    idle exactly without a reader and full exactly with an engine; nothing ever
    goes back; full readiness comes after the reader alone; and so an action of
    the module that is not too early always gets a capability. -/
theorem readiness_tells_slots (B : Backend σ κ) (store : σ) (events : List PhaseEvent) :
    let p := (empty store).run B events
    (p.readiness = .idle ↔ p.reader = none) ∧
    (p.readiness = .full ↔ p.engine ≠ none) ∧
    (p.engine ≠ none → p.reader ≠ none) ∧
    (∀ more, Grows p (p.run B more)) ∧
    (∀ event, (p.step B event).readiness = .full →
      p.readiness = .readerOnly ∨ p.readiness = .full) ∧
    ∀ action : Action, action.required ≠ .idle → action.required ≤ p.readiness →
      ∃ installed c, p.slot action.required = some installed
        ∧ p.loader.product? installed.handle = some c
        ∧ p.gate action = .ok (some installed.handle) := by
  intro p
  have h : p.Sound := sound_run B store events
  refine ⟨h.idle_iff, h.full_iff, ?_, grows_run B p, ?_, ?_⟩
  · intro he
    exact reader_of_full h (h.full_iff.mpr he)
  · intro event
    exact readiness_before_full h (move_step B p event)
  · intro action hcompute hreached
    obtain ⟨installed, c, hslot, hc⟩ := slot_filled h hcompute hreached
    exact ⟨installed, c, hslot, hc, gate_eq_ok hcompute hreached hslot⟩

end Phase
end PhaseHost
