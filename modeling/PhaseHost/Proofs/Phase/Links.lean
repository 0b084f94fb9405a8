import PhaseHost.Proofs.Loader.Flight
import PhaseHost.Proofs.Phase.Moves

/-! # Who waits for an attempt

    A request waits for the attempt that loads its reader, and the load of an engine for
    the attempt that loads the engine.  Both ask for it under the key of a variant, and
    this is the key of the attempt they take: `Move.request_from` and `Move.engine_from`
    say where those come from who wait after a move.

    Attempts stay what they are, whatever the controller does (`Move.keeps`), so whoever
    waits for an attempt of its own key goes on doing so. -/

namespace PhaseHost

variable {σ κ : Type}

namespace Loader

variable {B : Backend σ κ} {l : Loader σ κ} {key : CacheKey} {t : Handle}

/-! ## Attempts and their keys -/

/-- The attempt that a load takes is for the key of its variant. -/
theorem Flight.key?_load (h : l.Flight) (v : Variant) (location : String) :
    (l.load v location).2.key? (l.load v location).1 = some v.key := by
  by_cases hex : ∃ n, l.Unsettled v.key n
  · obtain ⟨n, hn⟩ := hex
    rw [h.load_joined location hn]
    obtain ⟨a, ha, hkey, -⟩ := hn
    exact Option.map_eq_some_iff.mpr ⟨a, ha, hkey⟩
  · rw [h.load_started location (not_exists.mp hex)]
    exact Option.map_eq_some_iff.mpr ⟨_, List.getElem?_concat_length, rfl⟩

/-- What has not ended after a load had not ended before, or is taken by the load. -/
theorem Flight.unsettled_load (h : l.Flight) {v : Variant} {location : String}
    (ht : (l.load v location).2.Unsettled key t) :
    l.Unsettled key t ∨ (t = (l.load v location).1 ∧ key = v.key) := by
  by_cases hex : ∃ n, l.Unsettled v.key n
  · obtain ⟨n, hn⟩ := hex
    rw [h.load_joined location hn] at ht
    exact Or.inl ht
  · have hstarted := h.load_started location (not_exists.mp hex)
    rw [hstarted] at ht ⊢
    refine ((unsettled_append rfl rfl).mp ht).imp_right ?_
    rintro ⟨rfl, rfl⟩
    exact ⟨rfl, rfl⟩

/-- Events end attempts and start none. -/
theorem unsettled_of_step {event : LoaderEvent} (ht : (l.step B event).Unsettled key t) :
    l.Unsettled key t := by
  rcases turn_step B l event with hsame | ⟨n, a, a', hturn⟩
  · rw [hsame] at ht
    exact ht
  · exact (hturn.unsettled.mp ht).1

theorem outcome?_of_unsettled (h : l.Unsettled key t) : l.outcome? t = none := by
  obtain ⟨a, ha, -, hout⟩ := h
  simp only [outcome?]
  rw [ha]
  exact hout

theorem unsettled_of_key? (hkey : l.key? t = some key) (hout : l.outcome? t = none) :
    l.Unsettled key t := by
  obtain ⟨a, ha, rfl⟩ := Option.map_eq_some_iff.mp hkey
  simp only [outcome?] at hout
  rw [ha] at hout
  exact ⟨a, ha, rfl, hout⟩

end Loader

namespace Phase

variable {B : Backend σ κ} {p q : Phase σ κ} {event : PhaseEvent} {key : CacheKey} {t : Handle}

/-! ## Attempts go on -/

/-- Whatever a move does, attempts stay what they are and keep their outcomes. -/
theorem Move.keeps (hmove : Move B p event q) {t : Handle} {a : Attempt κ}
    (here : p.loader.attempts[t]? = some a) :
    ∃ a', q.loader.attempts[t]? = some a' ∧ a.Keeps a' := by
  cases hmove with
  | request version sources =>
      exact Loader.keeps_act B (.load ⟨.reader, version⟩ sources.reader) here
  | @begin n version location request ready =>
      exact Loader.keeps_act B (.load ⟨.engine, version⟩ location) here
  | load event => exact Loader.keeps_act B (.move event) here
  | commit waits loaded => exact ⟨a, by rw [commit_loader]; exact here, .refl a⟩
  | stay idle => exact ⟨a, here, .refl a⟩
  | refuse waits failed => exact ⟨a, here, .refl a⟩
  | install waits loaded wanted => exact ⟨a, here, .refl a⟩
  | drop waits loaded unwanted => exact ⟨a, here, .refl a⟩
  | fail waits failed => exact ⟨a, here, .refl a⟩

theorem Move.flight (hmove : Move B p event q) (hp : p.loader.Flight) : q.loader.Flight := by
  cases hmove with
  | request version sources => exact hp.load _ _
  | begin ready => exact hp.load _ _
  | load event => exact hp.act B (.move event)
  | commit there loaded => rw [commit_loader]; exact hp
  | stay idle => exact hp
  | refuse there failed => exact hp
  | install there loaded wanted => exact hp
  | drop there loaded unwanted => exact hp
  | fail there failed => exact hp

/-! ## Waiting for attempts -/

/-- Something of the controller WAITS for an attempt, under the key that it asked for. -/
inductive Waits (p : Phase σ κ) : CacheKey → Handle → Prop
  | request {n : Nat} {version sources t}
      (waits : p.requests[n]? = some ⟨version, sources, .waiting t⟩) :
      Waits p (Variant.key ⟨.reader, version⟩) t
  | engine {n : Nat} {version location request t}
      (waits : p.engineLoads[n]? = some ⟨version, location, request, .waiting t⟩) :
      Waits p (Variant.key ⟨.engine, version⟩) t

/-- A request that waits after a move has waited before, or was made by it. -/
theorem Move.request_from (hmove : Move B p event q) {n : Nat} {version : String}
    {sources : ModuleSources} (waits : q.requests[n]? = some ⟨version, sources, .waiting t⟩) :
    p.requests[n]? = some ⟨version, sources, .waiting t⟩
    ∨ event = .request version sources
      ∧ t = (p.loader.load ⟨.reader, version⟩ sources.reader).1 := by
  have hended : ∀ {k : Nat} {result : Except LoadError Readiness},
      (p.requests.modify k (fun r => { r with stage := .done result }))[n]?
        = some ⟨version, sources, .waiting t⟩ →
      p.requests[n]? = some ⟨version, sources, .waiting t⟩ := by
    intro k result hn
    by_cases hkn : k = n
    · subst hkn
      rw [List.getElem?_modify_eq] at hn
      obtain ⟨r, -, hr⟩ := Option.map_eq_some_iff.mp hn
      exact nomatch congrArg Request.stage hr
    · rw [List.getElem?_modify_ne _ _ hkn] at hn
      exact hn
  cases hmove with
  | request own sources' =>
      refine (getElem?_concat_iff.mp waits).imp_right ?_
      rintro ⟨-, heq⟩
      obtain ⟨rfl, rfl, hstage⟩ := Request.mk.inj heq
      exact ⟨rfl, (RequestStage.waiting.inj hstage).symm⟩
  | commit there loaded => exact Or.inl (hended (commit_requests .. ▸ waits))
  | refuse there failed => exact Or.inl (hended waits)
  | stay idle => exact Or.inl waits
  | begin ready => exact Or.inl waits
  | install there loaded wanted => exact Or.inl waits
  | drop there loaded unwanted => exact Or.inl waits
  | fail there failed => exact Or.inl waits
  | load event => exact Or.inl waits

/-- The load of an engine that waits after a move has waited before, or was begun by it. -/
theorem Move.engine_from (hmove : Move B p event q) (hp : p.loader.Flight) {n : Nat}
    {version location : String} {request : Nat}
    (waits : q.engineLoads[n]? = some ⟨version, location, request, .waiting t⟩) :
    p.engineLoads[n]? = some ⟨version, location, request, .waiting t⟩
    ∨ q.loader.key? t = some (Variant.key ⟨.engine, version⟩) := by
  have hended : ∀ {k : Nat} {p' : Phase σ κ} {stage : EngineStage},
      p'.engineLoads = p.engineLoads → stage.isOver = true →
      (p'.moveEngine k stage).engineLoads[n]?
        = some ⟨version, location, request, .waiting t⟩ →
      p.engineLoads[n]? = some ⟨version, location, request, .waiting t⟩ := by
    intro k p' stage hloads hover hn
    rw [moveEngine_engineLoads, hloads] at hn
    split at hn
    · obtain ⟨e, -, he⟩ := Option.map_eq_some_iff.mp hn
      rw [show stage = .waiting t from congrArg EngineLoad.stage he] at hover
      exact nomatch hover
    · exact hn
  cases hmove with
  | @begin k own location' request' ready =>
      rw [moveEngine_engineLoads] at waits
      split at waits
      next hkn =>
        -- this is the load that begins
        subst hkn
        rw [show ({ p with loader := _ } : Phase σ κ).engineLoads[k]? = _ from ready] at waits
        obtain ⟨rfl, -, -, hstage⟩ := EngineLoad.mk.inj (Option.some.inj waits)
        obtain rfl := EngineStage.waiting.inj hstage
        exact Or.inr (hp.key?_load ⟨.engine, own⟩ location')
      next => exact Or.inl waits
  | @commit k own sources attempt handle there loaded =>
      refine Or.inl ?_
      rw [commit_engineLoads] at waits
      split at waits
      · split at waits
        · exact waits
        · rcases getElem?_concat_iff.mp waits with hold | ⟨-, hnew⟩
          · exact hold
          · exact nomatch congrArg EngineLoad.stage hnew
      · exact waits
  | install there loaded wanted => exact Or.inl (hended rfl rfl waits)
  | drop there loaded unwanted => exact Or.inl (hended rfl rfl waits)
  | fail there failed => exact Or.inl (hended rfl rfl waits)
  | stay idle => exact Or.inl waits
  | request own sources => exact Or.inl waits
  | refuse there failed => exact Or.inl waits
  | load event => exact Or.inl waits

/-- The load of an engine waits on while its attempt has not ended. -/
theorem Move.engine_on (hmove : Move B p event q) {n : Nat} {version location : String}
    {request : Nat} (waits : p.engineLoads[n]? = some ⟨version, location, request, .waiting t⟩)
    (hout : p.loader.outcome? t = none) :
    q.engineLoads[n]? = some ⟨version, location, request, .waiting t⟩ := by
  have hother : ∀ {k : Nat} {p' : Phase σ κ} {stage : EngineStage},
      p'.engineLoads = p.engineLoads → k ≠ n →
      (p'.moveEngine k stage).engineLoads[n]?
        = some ⟨version, location, request, .waiting t⟩ := by
    intro k p' stage hloads hkn
    rw [moveEngine_engineLoads, if_neg hkn, hloads]
    exact waits
  -- a load whose attempt has ended is another one
  have hended : ∀ {k : Nat} {version' location' : String} {request' : Nat} {t' : Handle}
      {outcome : Except LoadError Handle},
      p.engineLoads[k]? = some ⟨version', location', request', .waiting t'⟩ →
      p.loader.outcome? t' = some outcome → k ≠ n := by
    rintro k version' location' request' t' outcome there hsome rfl
    obtain ⟨-, -, -, hstage⟩ := EngineLoad.mk.inj (Option.some.inj (there.symm.trans waits))
    obtain rfl := EngineStage.waiting.inj hstage
    exact nomatch hout.symm.trans hsome
  cases hmove with
  | @begin k own location' request' ready =>
      refine hother rfl ?_
      rintro rfl
      exact nomatch congrArg EngineLoad.stage (Option.some.inj (ready.symm.trans waits))
  | commit there loaded =>
      rw [commit_engineLoads]
      split
      · split
        · exact waits
        · exact getElem?_concat_iff.mpr (Or.inl waits)
      · exact waits
  | install there loaded wanted => exact hother rfl (hended there loaded)
  | drop there loaded unwanted => exact hother rfl (hended there loaded)
  | fail there failed => exact hother rfl (hended there failed)
  | stay idle => exact waits
  | request own sources => exact waits
  | refuse there failed => exact waits
  | load event => exact waits

end Phase
end PhaseHost
