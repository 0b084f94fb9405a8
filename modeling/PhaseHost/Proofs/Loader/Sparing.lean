import PhaseHost.Proofs.Loader.Balance

/-! # Fetches are spared

    What has been loaded is held, so whoever asks for it again is served from the
    store.  `Loader.Spared` follows the attempt that serves it: it starts no fetch
    and does not fail, however things go on.  A call takes such an attempt if one
    for its key has succeeded before, no matter whether it joins or starts it. -/

namespace PhaseHost

variable {σ κ : Type}

namespace Loader

variable {B : Backend σ κ} {l l' : Loader σ κ} {n m : Handle} {a a' : Attempt κ}
  {InOrder : σ → Prop} {held : σ → Variant → Option Bytes} {version : String}

/-- An attempt for what was loaded before: it has started no fetch, and it has
    succeeded unless it is yet before its fetch. -/
structure Spared (l : Loader σ κ) (m : Handle) : Prop where
  loaded : ∃ a, l.attempts[m]? = some a ∧ l.Has a.variant.key AttemptStage.hasSucceeded
    ∧ (a.stage.beforeFetch = true ∨ a.stage.hasSucceeded = true)
  unfetched : m ∉ l.fetches

theorem Spared.not_failed (h : l.Spared m) (e : LoadError) : l.outcome? m ≠ some (.error e) := by
  obtain ⟨⟨v, location, stage, product⟩, ha, -, hstage⟩ := h.loaded
  intro hout
  simp only [outcome?, ha, Option.bind_some] at hout
  cases stage with
  | settled outcome =>
      cases hout
      exact hstage.elim nofun nofun
  | _ => exact nomatch hout

theorem Turn.mem_fetches (h : Turn B l n a a' l') (hm : m ∈ l'.fetches) :
    m ∈ l.fetches ∨ (m = n ∧ a'.stage = .fetching) := by
  rw [h.fetches] at hm
  split at hm
  next hfetching =>
    rcases List.mem_append.mp hm with hold | hnew
    · exact Or.inl hold
    · exact Or.inr ⟨List.mem_singleton.mp hnew, hfetching⟩
  next => exact Or.inl hm

/-- What has been loaded is held, so an attempt for it finds it and brings it to life. -/
theorem Spared.turn (h : l.Spared m) (hturn : Turn B l n a a' l')
    {stock : Variant → Option Bytes} (hstocked : l.Stocked B.runtime stock)
    (hinf : Attempt.Informed (stock a.variant) a a') : l'.Spared m := by
  obtain ⟨b, hb, hloaded, hstage⟩ := h.loaded
  by_cases hnm : n = m
  · subst hnm
    obtain rfl : a = b := Option.some.inj (hturn.here.symm.trans hb)
    have hbefore : a.stage.beforeFetch = true := hstage.resolve_right
      (fun hsucceeded => Attempt.outcome?_of_hasSucceeded hsucceeded hturn.next.unsettled)
    have hafter : a'.stage.isFetching = false
        ∧ (a'.stage.beforeFetch = true ∨ a'.stage.hasSucceeded = true) := by
      have hnext := hturn.next
      cases hnext with
      | hit bytes => exact ⟨rfl, Or.inl rfl⟩
      | revived alive => exact ⟨rfl, Or.inr rfl⟩
      | miss => exact absurd rfl (hstocked.not_missed hloaded hinf rfl)
      | unusable dead => exact absurd dead (hstocked.not_dead hturn.here rfl _)
      | _ => exact nomatch hbefore
    refine ⟨⟨a', hturn.here', ?_, hafter.2⟩, ?_⟩
    · rw [hturn.next.variant_eq]
      exact hturn.has_succeeded hloaded
    · intro hm
      rcases hturn.mem_fetches hm with hold | ⟨-, hfetching⟩
      · exact h.unfetched hold
      · rw [hfetching] at hafter
        exact nomatch hafter.1
  · refine ⟨⟨b, (hturn.others hnm).trans hb, hturn.has_succeeded hloaded, hstage⟩, ?_⟩
    intro hm
    rcases hturn.mem_fetches hm with hold | ⟨rfl, -⟩
    · exact h.unfetched hold
    · exact hnm rfl

theorem Spared.load (h : l.Spared m) (hflight : l.Flight) (v : Variant) (location : String) :
    (l.load v location).2.Spared m := by
  by_cases hex : ∃ n, l.Unsettled v.key n
  · obtain ⟨n, hn⟩ := hex
    rw [hflight.load_joined location hn]
    exact h
  · rw [hflight.load_started location (not_exists.mp hex)]
    obtain ⟨b, hb, hloaded, hstage⟩ := h.loaded
    exact ⟨⟨b, getElem?_concat_iff.mpr (Or.inl hb), (has_concat rfl rfl).mpr hloaded, hstage⟩,
      h.unfetched⟩

theorem Spared.written (h : l.Spared m) (n : Handle) : (l.written B n).Spared m := by
  simp only [Loader.written]
  split
  · exact ⟨h.loaded, h.unfetched⟩
  · exact h

theorem Spared.happens (h : l.Spared m) (hstore : B.store.Retains InOrder held)
    (hl : l.Thrifty B InOrder held version) (hl' : Happens B version l l') : l'.Spared m := by
  cases hl' with
  | nothing => exact h
  | load asked location => exact h.load hl.flight _ location
  | step event =>
      rcases turn_step B l event with hsame | ⟨n, a, a', hturn⟩
      · rw [hsame]
        exact h
      · obtain ⟨-, hstocked, hinf⟩ := hl.deal hstore hturn
        exact h.turn hturn hstocked hinf
  | written n => exact h.written n

/-- **A CALL FOR WHAT HAS BEEN LOADED** takes an attempt that starts no fetch. -/
theorem Thrifty.spared_load (h : l.Thrifty B InOrder held version) {v : Variant}
    (hloaded : l.Has v.key AttemptStage.hasSucceeded) (location : String) :
    (l.load v location).2.Spared (l.load v location).1 := by
  by_cases hex : ∃ n, l.Unsettled v.key n
  · obtain ⟨n, hn⟩ := hex
    rw [h.flight.load_joined location hn]
    obtain ⟨a, ha, hkey, hun⟩ := hn
    have hbefore := Attempt.beforeFetch_of_unsettled hun
      (fun hunder => h.spent n a ha hunder (hkey ▸ hloaded))
    refine ⟨⟨a, ha, hkey ▸ hloaded, Or.inl hbefore⟩, ?_⟩
    intro hfetch
    obtain ⟨b, hb, hafter⟩ := h.flight.started n hfetch
    obtain rfl : a = b := Option.some.inj (ha.symm.trans hb)
    rw [hbefore] at hafter
    exact nomatch hafter
  · rw [h.flight.load_started location (not_exists.mp hex)]
    refine ⟨⟨_, List.getElem?_concat_length, (has_concat rfl rfl).mpr hloaded, Or.inl rfl⟩, ?_⟩
    intro hfetch
    exact Nat.lt_irrefl _ (h.flight.lt_of_mem_fetches hfetch)

end Loader
end PhaseHost
