import PhaseHost.Proofs.Loader.Balance

/-! # Loading what is held

    A store SUPPLIES a version if it holds both builds of it and both come to life.  A
    loader that starts over such a store and is asked for this version alone serves
    every attempt from there: whoever looks finds something, and what is found comes to
    life.  So no attempt gets as far as a fetch, and none has anything to put, which is
    why the store goes on supplying the version. -/

namespace PhaseHost

variable {σ κ : Type}

/-- Both builds of a version are held and come to life. -/
def Supplies (R : Runtime κ) (held : Variant → Option Bytes) (version : String) : Prop :=
  ∀ kind, ∃ bytes c, held ⟨kind, version⟩ = some bytes
    ∧ R.instantiate ⟨kind, version⟩ bytes = .ok c

/-- How far an attempt comes that is served from what is held. -/
def Attempt.Served (held? : Option Bytes) (a : Attempt κ) : Prop :=
  match a.stage with
  | .looking => True
  | .trying bytes => held? = some bytes
  | .settled (.ok _) => True
  | _ => False

namespace Attempt

variable {R : Runtime κ} {n : Handle} {a a' : Attempt κ} {held? : Option Bytes}

/-- An attempt that finds something which comes to life goes on being served. -/
theorem Next.served (h : Next R n a a') (ha : a.Served held?) (hinf : Informed held? a a')
    (hheld : ∃ bytes c, held? = some bytes ∧ R.instantiate a.variant bytes = .ok c) :
    a'.Served held? := by
  obtain ⟨bytes', c, hsome, halive⟩ := hheld
  cases h with
  | hit bytes => exact hinf.hit bytes rfl
  | miss => exact nomatch hsome.symm.trans (hinf.miss rfl rfl)
  | revived alive => trivial
  | unusable dead =>
      -- what is tried is what is held
      obtain rfl := Option.some.inj (hsome.symm.trans ha)
      exact nomatch halive.symm.trans dead
  | arrived bytes => exact ha.elim
  | lost message => exact ha.elim
  | brought alive => exact ha.elim
  | refused dead => exact ha.elim
  | kept => exact ha.elim

theorem Served.not_fetching (h : a.Served held?) : a.stage ≠ .fetching := by
  intro hstage
  simp only [Served, hstage] at h

/-- An attempt that is served has nothing to put into the store. -/
theorem Served.not_keeping (h : a.Served held?) (bytes : Bytes) : a.stage ≠ .keeping bytes := by
  intro hstage
  simp only [Served, hstage] at h

theorem Served.outcome? {outcome : Except LoadError Handle} (h : a.Served held?)
    (hout : a.outcome? = some outcome) : ∃ m, outcome = .ok m := by
  obtain ⟨v, location, stage, product⟩ := a
  cases stage with
  | settled result =>
      cases hout
      cases outcome with
      | ok m => exact ⟨m, rfl⟩
      | error e => exact h.elim
  | _ => cases hout

end Attempt

namespace Loader

variable {B : Backend σ κ} {l l' : Loader σ κ} {n : Handle} {a a' : Attempt κ}
  {InOrder : σ → Prop} {held : σ → Variant → Option Bytes} {version : String}

/-- The invariant of a loader over a store that supplies the version it is asked for. -/
structure Supplied (B : Backend σ κ) (InOrder : σ → Prop) (held : σ → Variant → Option Bytes)
    (version : String) (l : Loader σ κ) : Prop where
  inOrder : InOrder l.store
  supplies : Supplies B.runtime (held l.store) version
  uniform : l.Each (fun _ a => a.variant.version = version)
  served : l.Each (fun _ a => a.Served (held l.store a.variant))
  unfetched : l.fetches = []

theorem supplied_empty {store : σ} (horder : InOrder store)
    (hsupplies : Supplies B.runtime (held store) version) :
    (empty store : Loader σ κ).Supplied B InOrder held version where
  inOrder := horder
  supplies := hsupplies
  uniform _ _ ha := nomatch ha
  served _ _ ha := nomatch ha
  unfetched := rfl

/-- **AN ATTEMPT GOES ON** and is served. -/
theorem Supplied.turn (h : l.Supplied B InOrder held version)
    (hstore : B.store.Retains InOrder held) (hturn : Turn B l n a a' l') :
    l'.Supplied B InOrder held version := by
  have hbefore : a.Served (held l.store a.variant) := h.served n a hturn.here
  obtain ⟨horder, hsame, hinf⟩ := hturn.learns hstore h.inOrder hbefore.not_keeping
  have hversion : a.variant.version = version := h.uniform n a hturn.here
  have hserved : a'.Served (held l.store a.variant) := by
    refine hturn.next.served hbefore hinf ?_
    have hvariant := h.supplies a.variant.kind
    rw [← hversion] at hvariant
    exact hvariant
  exact {
    inOrder := horder
    supplies := hsame ▸ h.supplies
    uniform := by
      refine hturn.each ?_ (fun m b _ hb => h.uniform m b hb)
      rw [hturn.next.variant_eq]
      exact hversion
    served := by
      rw [hsame]
      refine hturn.each ?_ (fun m b _ hb => h.served m b hb)
      rw [hturn.next.variant_eq]
      exact hserved
    unfetched := by
      rw [hturn.fetches]
      split
      next hfetching => exact absurd hfetching hserved.not_fetching
      next => exact h.unfetched }

theorem Supplied.load (h : l.Supplied B InOrder held version) {v : Variant}
    (hv : v.version = version) (location : String) :
    (l.load v location).2.Supplied B InOrder held version := by
  have hstore := store_load l v location
  have hfetches := fetches_load l v location
  have hattempts := load_attempts l v location
  generalize (l.load v location).2 = l' at hstore hfetches hattempts ⊢
  refine ⟨hstore ▸ h.inOrder, hstore ▸ h.supplies, ?_, ?_, hfetches.trans h.unfetched⟩
  · rcases hattempts with heq | heq
    · intro m b hb
      exact h.uniform m b (heq ▸ hb)
    · exact h.uniform.concat heq hv
  · rw [hstore]
    rcases hattempts with heq | heq
    · intro m b hb
      exact h.served m b (heq ▸ hb)
    · exact h.served.concat heq trivial

/-- **WHATEVER HAPPENS** while everybody asks for the version. -/
theorem Supplied.happens (h : l.Supplied B InOrder held version)
    (hstore : B.store.Retains InOrder held) (hl' : Happens B version l l') :
    l'.Supplied B InOrder held version := by
  cases hl' with
  | nothing => exact h
  | load asked location => exact h.load asked location
  | step event =>
      rcases turn_step B l event with hsame | ⟨n, a, a', hturn⟩
      · rw [hsame]
        exact h
      · exact h.turn hstore hturn
  | written n =>
      simp only [Loader.written]
      split
      next v location bytes product hn => exact absurd rfl ((h.served n _ hn).not_keeping bytes)
      next => exact h

theorem Supplied.outcome? (h : l.Supplied B InOrder held version)
    {outcome : Except LoadError Handle} (hout : l.outcome? n = some outcome) :
    ∃ m, outcome = .ok m := by
  obtain ⟨a, ha, hout⟩ := Option.bind_eq_some_iff.mp hout
  exact (h.served n a ha).outcome? hout

end Loader
end PhaseHost
