import PhaseHost.Proofs.Loader.Stock
import PhaseHost.Proofs.Store.Retention

/-! # Fetches balance

    As long as everybody asks for one version, what a fetch has brought to life is
    in the store and stays there, so nothing is fetched twice for good: for each
    key the fetches are its failures, and one more if something came of it.

    While an attempt is under way the account is open.  `Loader.Balanced` says what
    it is then: the one fetch more belongs to the attempt that PAID for it, which is
    on its way from its fetch or has succeeded.  Together with what the store holds
    this is `Loader.Thrifty`, the invariant of a loader that serves one version.

    An attempt puts its bytes into the store before it lets go of its key, and other
    attempts may see them in between.  `Loader.written` is the state there. -/

namespace PhaseHost

variable {σ κ : Type}

namespace Loader

variable {B : Backend σ κ} {l l' : Loader σ κ} {n m : Handle} {a a' : Attempt κ}
  {key : CacheKey} {P : AttemptStage → Bool}

/-! ## Accounts -/

/-- The number of fetches for a key. -/
def fetchesFor (l : Loader σ κ) (key : CacheKey) : Nat :=
  l.fetches.countP (fun n => l.key? n = some key)

/-- The number of failed attempts for a key. -/
def failuresFor (l : Loader σ κ) (key : CacheKey) : Nat :=
  l.attempts.countP (fun a => a.variant.key = key && a.stage.hasFailed)

/-- The account of a key: each fetch has failed, but for the one that something came
    of or may come of. -/
structure Balanced (l : Loader σ κ) (key : CacheKey) : Prop where
  paid : l.Has key AttemptStage.hasPaid → l.fetchesFor key = l.failuresFor key + 1
  even : ¬ l.Has key AttemptStage.hasPaid → l.fetchesFor key = l.failuresFor key

/-- A turn leaves the keys of all attempts. -/
theorem Turn.key?_eq (h : Turn B l n a a' l') (m : Handle) : l'.key? m = l.key? m := by
  by_cases hnm : n = m
  · subst hnm
    simp only [key?, h.here, h.here', Option.map_some, h.next.variant_eq]
  · simp only [key?, h.others hnm]

/-- A turn adds a fetch if its attempt goes to fetch. -/
theorem Turn.fetchesFor_eq (h : Turn B l n a a' l') (key : CacheKey) :
    l'.fetchesFor key
      = l.fetchesFor key + (decide (a.variant.key = key) && a'.stage.isFetching).toNat := by
  have hkey : l.key? n = some a.variant.key := by simp only [key?, h.here, Option.map_some]
  simp only [fetchesFor, h.key?_eq, h.fetches]
  cases a'.stage with
  | fetching =>
      rw [List.countP_append, List.countP_singleton, hkey]
      by_cases heq : a.variant.key = key <;> simp [heq, AttemptStage.isFetching]
  | _ => simp [AttemptStage.isFetching]

/-- A turn adds a failure if its attempt comes to one. -/
theorem Turn.failuresFor_eq (h : Turn B l n a a' l') (key : CacheKey) :
    l'.failuresFor key
      = l.failuresFor key + (decide (a.variant.key = key) && a'.stage.hasFailed).toNat := by
  -- the attempt that goes on had not failed
  have hopen := Attempt.hasFailed_of_unsettled h.next.unsettled
  obtain ⟨hlt, rfl⟩ := List.getElem?_eq_some_iff.mp h.here
  simp only [failuresFor, h.attempts, List.countP_set hlt, hopen, h.next.variant_eq,
    Bool.and_false, Bool.false_eq_true, if_false, Nat.sub_zero]
  refine congrArg (Nat.add _) ?_
  cases decide ((l.attempts[n]).variant.key = key) && a'.stage.hasFailed <;> rfl

section account

variable (h : l.Balanced key)
include h

/-- The balance stays if nothing of what it counts changes. -/
theorem Balanced.stay (hpaid : l'.Has key AttemptStage.hasPaid ↔ l.Has key AttemptStage.hasPaid)
    (hfetches : l'.fetchesFor key = l.fetchesFor key)
    (hfailures : l'.failuresFor key = l.failuresFor key) : l'.Balanced key where
  paid hyes := by rw [hfetches, hfailures, h.paid (hpaid.mp hyes)]
  even hno := by rw [hfetches, hfailures, h.even (fun hyes => hno (hpaid.mpr hyes))]

/-- A fetch is paid for. -/
theorem Balanced.pay (hno : ¬ l.Has key AttemptStage.hasPaid)
    (hyes : l'.Has key AttemptStage.hasPaid)
    (hfetches : l'.fetchesFor key = l.fetchesFor key + 1)
    (hfailures : l'.failuresFor key = l.failuresFor key) : l'.Balanced key where
  paid _ := by rw [hfetches, hfailures, h.even hno]
  even hno' := absurd hyes hno'

/-- What was paid for is lost. -/
theorem Balanced.lose (hyes : l.Has key AttemptStage.hasPaid)
    (hno : ¬ l'.Has key AttemptStage.hasPaid)
    (hfetches : l'.fetchesFor key = l.fetchesFor key)
    (hfailures : l'.failuresFor key = l.failuresFor key + 1) : l'.Balanced key where
  paid hyes' := absurd hyes' hno
  even _ := by rw [hfetches, hfailures, h.paid hyes]

end account

/-! ## Loaders of one version -/

/-- The invariant of a loader that is asked for one version only. -/
structure Thrifty (B : Backend σ κ) (InOrder : σ → Prop) (held : σ → Variant → Option Bytes)
    (version : String) (l : Loader σ κ) : Prop where
  flight : l.Flight
  uniform : l.Each (fun _ a => a.variant.version = version)
  inOrder : InOrder l.store
  stocked : l.Stocked B.runtime (held l.store)
  /-- Nobody is on the way from a fetch for what has been loaded. -/
  spent : l.Each (fun _ a => a.stage.underFetch = true →
    ¬ l.Has a.variant.key AttemptStage.hasSucceeded)
  balanced : ∀ key, l.Balanced key

variable {InOrder : σ → Prop} {held : σ → Variant → Option Bytes} {version : String}
  {stock : Variant → Option Bytes}

/-! ### Turns -/

/-- After a turn, too, nobody is on the way from a fetch for what has been loaded. -/
theorem Thrifty.spent_turn (h : l.Thrifty B InOrder held version) (hturn : Turn B l n a a' l')
    (hstocked : l.Stocked B.runtime stock) (hinf : Attempt.Informed (stock a.variant) a a') :
    l'.Each (fun _ b => b.stage.underFetch = true →
      ¬ l'.Has b.variant.key AttemptStage.hasSucceeded) := by
  refine hturn.each ?_ ?_
  · rw [hturn.next.variant_eq]
    intro hunder hhas
    rcases hturn.has_iff.mp hhas with ⟨-, hsucceeded⟩ | hother
    · exact Attempt.outcome?_of_hasSucceeded hsucceeded (Attempt.outcome?_of_underFetch hunder)
    · have hbefore : l.Has a.variant.key AttemptStage.hasSucceeded :=
        (Loader.has_iff hturn.here).mpr (Or.inr hother)
      have hspent := h.spent n a hturn.here
      have hnext := hturn.next
      cases hnext with
      | miss => exact hstocked.not_missed hbefore hinf rfl rfl
      | unusable dead => exact hstocked.not_dead hturn.here rfl _ dead
      | arrived bytes => exact hspent rfl hbefore
      | brought alive => exact hspent rfl hbefore
      | _ => exact nomatch hunder
  · intro m b hnm hb hunder hhas
    rcases hturn.has_iff.mp hhas with ⟨hkey, -⟩ | hother
    · -- two attempts for one key are not under way
      exact hnm (h.flight.unique (hkey ▸ hturn.wasUnsettled)
        ⟨b, hb, rfl, Attempt.outcome?_of_underFetch hunder⟩)
    · exact h.spent m b hb hunder ((Loader.has_iff hturn.here).mpr (Or.inr hother))

/-- Before its turn, an attempt has paid for its key, or one that succeeded has. -/
theorem Turn.hasPaid_iff_before (hturn : Turn B l n a a' l') (hl : l.Flight) :
    l.Has a.variant.key AttemptStage.hasPaid ↔
      a.stage.hasPaid = true ∨ l.Has a.variant.key AttemptStage.hasSucceeded := by
  rw [Loader.has_iff hturn.here, hl.hasOther_hasPaid_iff hturn.wasUnsettled,
    hturn.hasSucceeded_iff, and_iff_right rfl]

/-- After its turn, an attempt has paid for its key, or one that succeeded has. -/
theorem Turn.hasPaid_iff_after (hturn : Turn B l n a a' l') (hl : l.Flight) :
    l'.Has a.variant.key AttemptStage.hasPaid ↔
      a'.stage.hasPaid = true ∨ l.Has a.variant.key AttemptStage.hasSucceeded := by
  rw [hturn.has_iff, hl.hasOther_hasPaid_iff hturn.wasUnsettled, hturn.hasSucceeded_iff,
    and_iff_right rfl]

/-- A turn keeps the accounts: whoever starts a fetch pays for it, and whoever fails
    has paid. -/
theorem Balanced.turn (hkey : l.Balanced key) (h : l.Thrifty B InOrder held version)
    (hturn : Turn B l n a a' l') (hstocked : l.Stocked B.runtime stock)
    (hinf : Attempt.Informed (stock a.variant) a a') : l'.Balanced key := by
  have hfetches := hturn.fetchesFor_eq key
  have hfailures := hturn.failuresFor_eq key
  by_cases heq : a.variant.key = key
  · subst heq
    rw [decide_eq_true rfl, Bool.true_and] at hfetches hfailures
    have hbefore := hturn.hasPaid_iff_before h.flight
    have hafter := hturn.hasPaid_iff_after h.flight
    have hspent := h.spent n a hturn.here
    have hnext := hturn.next
    cases hnext with
    | hit bytes => exact hkey.stay (hafter.trans hbefore.symm) hfetches hfailures
    | arrived bytes => exact hkey.stay (hafter.trans hbefore.symm) hfetches hfailures
    | brought alive => exact hkey.stay (hafter.trans hbefore.symm) hfetches hfailures
    | kept => exact hkey.stay (hafter.trans hbefore.symm) hfetches hfailures
    | miss =>
        refine hkey.pay ?_ (hafter.mpr (Or.inl rfl)) hfetches hfailures
        rintro hpaid
        rcases hbefore.mp hpaid with hself | hsucceeded
        · exact nomatch hself
        · exact hstocked.not_missed hsucceeded hinf rfl rfl
    | revived alive =>
        -- what is tried was brought to life by another attempt
        have hsucceeded := hstocked.succeeded_of_trying h.flight hturn.here rfl
        exact hkey.stay (iff_of_true (hafter.mpr (Or.inr hsucceeded))
          (hbefore.mpr (Or.inr hsucceeded))) hfetches hfailures
    | unusable dead => exact absurd dead (hstocked.not_dead hturn.here rfl _)
    | lost message =>
        refine hkey.lose (hbefore.mpr (Or.inl rfl)) ?_ hfetches hfailures
        intro hpaid
        exact (hafter.mp hpaid).elim nofun (hspent rfl)
    | refused dead =>
        refine hkey.lose (hbefore.mpr (Or.inl rfl)) ?_ hfetches hfailures
        intro hpaid
        exact (hafter.mp hpaid).elim nofun (hspent rfl)
  · rw [decide_eq_false heq, Bool.false_and] at hfetches hfailures
    refine hkey.stay ?_ hfetches hfailures
    rw [hturn.has_iff, Loader.has_iff hturn.here]
    simp only [heq, false_and]

section store

variable (hstore : B.store.Retains InOrder held)
include hstore

/-- An attempt that has nothing to put looks at the store at most, and learns what is
    held. -/
theorem Turn.learns (hturn : Turn B l n a a' l') (horder : InOrder l.store)
    (hnot : ∀ bytes, a.stage ≠ .keeping bytes) :
    InOrder l'.store ∧ held l'.store = held l.store
      ∧ Attempt.Informed (held l.store a.variant) a a' := by
  have hnext := hturn.next
  have hdeal := hturn.deal
  generalize l'.store = s' at hdeal ⊢
  cases hdeal with
  | @found v location product bytes s' get =>
      have hget := hstore.get_eq horder v
      have horder' := hstore.get_inOrder horder v
      have hheld := hstore.held_get horder v
      rw [get] at hget horder' hheld
      refine ⟨horder', hheld, ?_, nofun, nofun⟩
      intro bytes' htrying
      cases htrying
      exact hget.symm
  | @missing v location product s' get =>
      have hget := hstore.get_eq horder v
      have horder' := hstore.get_inOrder horder v
      have hheld := hstore.held_get horder v
      rw [get] at hget horder' hheld
      exact ⟨horder', hheld, nofun, fun _ _ => hget.symm, nofun⟩
  | put => exact absurd rfl (hnot _)
  | aside away =>
      refine ⟨horder, rfl, ?_, ?_, fun bytes hkeeping => absurd hkeeping (hnot bytes)⟩
      · intro bytes htrying
        cases hnext with
        | hit bytes => exact nomatch away
        | _ => exact nomatch htrying
      · intro hlooking
        rw [hlooking] at away
        exact nomatch away

omit hstore in
/-- An attempt that keeps bytes puts them. -/
theorem Turn.puts (hturn : Turn B l n a a' l') {bytes : Bytes}
    (hkeeping : a.stage = .keeping bytes) : l'.store = B.store.put a.variant bytes l.store := by
  have hdeal := hturn.deal
  generalize l'.store = s' at hdeal ⊢
  cases hdeal with
  | put =>
      cases hkeeping
      rfl
  | found get => exact nomatch hkeeping
  | missing get => exact nomatch hkeeping
  | aside away =>
      rw [hkeeping] at away
      exact nomatch away

/-- What is held after dealing with the store, and what the attempt learns. -/
theorem Thrifty.deal (h : l.Thrifty B InOrder held version) (hturn : Turn B l n a a' l') :
    InOrder l'.store ∧ l.Stocked B.runtime (held l'.store)
      ∧ Attempt.Informed (held l'.store a.variant) a a' := by
  by_cases hkeeping : ∃ bytes, a.stage = .keeping bytes
  · obtain ⟨bytes, hkeeping⟩ := hkeeping
    have hheld : held l'.store = restock (held l.store) a.variant bytes := by
      rw [hturn.puts hkeeping]
      exact funext (hstore.held_put h.inOrder a.variant bytes)
    have huniform : l.Each (fun _ b => b.variant.version = a.variant.version) :=
      fun m b hb => (h.uniform m b hb).trans (h.uniform n a hturn.here).symm
    rw [hheld]
    refine ⟨hturn.puts hkeeping ▸ hstore.put_inOrder h.inOrder a.variant bytes,
      h.stocked.restock h.flight huniform hturn.here rfl hkeeping, ?_, ?_, ?_⟩
    · intro bytes' htrying
      have hnext := hturn.next
      cases hnext with
      | hit => exact nomatch hkeeping
      | _ => exact nomatch htrying
    · intro hlooking
      exact nomatch hlooking.symm.trans hkeeping
    · intro bytes' hkeeping'
      obtain rfl := AttemptStage.keeping.inj (hkeeping.symm.trans hkeeping')
      exact if_pos rfl
  · obtain ⟨horder, hheld, hinf⟩ := hturn.learns hstore h.inOrder (not_exists.mp hkeeping)
    rw [hheld]
    exact ⟨horder, h.stocked, hinf⟩

/-- **AN ATTEMPT GOES ON** and the loader stays thrifty. -/
theorem Thrifty.turn (h : l.Thrifty B InOrder held version) (hturn : Turn B l n a a' l') :
    l'.Thrifty B InOrder held version := by
  obtain ⟨horder, hstocked, hinf⟩ := h.deal hstore hturn
  exact {
    flight := h.flight.turn hturn
    uniform := by
      refine hturn.each ?_ (fun m b _ hb => h.uniform m b hb)
      rw [hturn.next.variant_eq]
      exact h.uniform n a hturn.here
    inOrder := horder
    stocked := hstocked.turn hturn hinf
    spent := h.spent_turn hturn hstocked hinf
    balanced := fun key => (h.balanced key).turn h hturn hstocked hinf }

end store

/-! ### Loads and puts -/

/-- What holds of all attempts and of a new one holds of all with it. -/
theorem Each.concat {Q : Handle → Attempt κ → Prop} (h : l.Each Q) {b : Attempt κ}
    (hl' : l'.attempts = l.attempts ++ [b]) (hb : Q l.attempts.length b) : l'.Each Q := by
  intro m c hc
  rw [hl', getElem?_concat_iff] at hc
  rcases hc with hc | ⟨rfl, rfl⟩
  · exact h m c hc
  · exact hb

/-- A new attempt has nothing to show yet. -/
theorem has_concat {b : Attempt κ} (hl' : l'.attempts = l.attempts ++ [b])
    (hb : P b.stage = false) : l'.Has key P ↔ l.Has key P := by
  simp only [Has, hl', getElem?_concat_iff]
  constructor
  · rintro ⟨m, c, hc | ⟨rfl, rfl⟩, hkey, hP⟩
    · exact ⟨m, c, hc, hkey, hP⟩
    · rw [hb] at hP
      exact nomatch hP
  · rintro ⟨m, c, hc, hkey, hP⟩
    exact ⟨m, c, Or.inl hc, hkey, hP⟩

/-- Only attempts that were started have fetched. -/
theorem Flight.lt_of_mem_fetches (h : l.Flight) (hn : n ∈ l.fetches) : n < l.attempts.length := by
  obtain ⟨a, ha, -⟩ := h.started n hn
  exact (List.getElem?_eq_some_iff.mp ha).1

/-- A new attempt has not fetched. -/
theorem fetchesFor_concat (h : l.Flight) {b : Attempt κ} (hl' : l'.attempts = l.attempts ++ [b])
    (hfetches : l'.fetches = l.fetches) (key : CacheKey) :
    l'.fetchesFor key = l.fetchesFor key := by
  simp only [fetchesFor, hfetches]
  refine List.countP_congr (fun m hm => ?_)
  have hkey : l'.key? m = l.key? m := by
    simp only [key?]
    rw [hl', List.getElem?_append_left (h.lt_of_mem_fetches hm)]
  rw [hkey]

/-- A new attempt has not failed. -/
theorem failuresFor_concat {b : Attempt κ} (hl' : l'.attempts = l.attempts ++ [b])
    (hb : b.stage.hasFailed = false) (key : CacheKey) :
    l'.failuresFor key = l.failuresFor key := by
  simp only [failuresFor, hl', List.countP_append, List.countP_singleton, hb, Bool.and_false,
    Bool.false_eq_true, if_false, Nat.add_zero]

/-- A call for the version leaves the loader thrifty. -/
theorem Thrifty.load (h : l.Thrifty B InOrder held version) {v : Variant}
    (hv : v.version = version) (location : String) :
    (l.load v location).2.Thrifty B InOrder held version := by
  by_cases hex : ∃ n, l.Unsettled v.key n
  · obtain ⟨n, hn⟩ := hex
    rw [h.flight.load_joined location hn]
    exact h
  · have hflight := h.flight.load v location
    have hstarted := congrArg Prod.snd (h.flight.load_started location (not_exists.mp hex))
    have hattempts := congrArg attempts hstarted
    have hfetches := congrArg fetches hstarted
    have hsame := congrArg Loader.store hstarted
    generalize (l.load v location).2 = l' at hflight hattempts hfetches hsame ⊢
    exact {
      flight := hflight
      uniform := h.uniform.concat hattempts hv
      inOrder := hsame ▸ h.inOrder
      stocked := {
        alive := hsame ▸ h.stocked.alive
        holds := hsame ▸ h.stocked.holds.concat hattempts trivial
        source := fun w hw => (has_concat hattempts rfl).mpr (h.stocked.source w (hsame ▸ hw)) }
      spent := by
        refine Each.concat (l := l) ?_ hattempts nofun
        intro m b hb hunder hhas
        exact h.spent m b hb hunder ((has_concat hattempts rfl).mp hhas)
      balanced := fun key => (h.balanced key).stay (has_concat hattempts rfl)
        (fetchesFor_concat h.flight hattempts hfetches key)
        (failuresFor_concat hattempts rfl key) }

/-- The bytes of an attempt are put into the store, before the attempt goes on. -/
def written (B : Backend σ κ) (l : Loader σ κ) (n : Handle) : Loader σ κ :=
  match l.attempts[n]? with
  | some ⟨v, _, .keeping bytes, _⟩ => { l with store := B.store.put v bytes l.store }
  | _ => l

/-- A write changes no attempt. -/
theorem attempts_written (B : Backend σ κ) (l : Loader σ κ) (n : Handle) :
    (l.written B n).attempts = l.attempts := by
  simp only [written]
  split <;> rfl

theorem Flight.written (h : l.Flight) (B : Backend σ κ) (n : Handle) : (l.written B n).Flight := by
  simp only [Loader.written]
  split
  · exact ⟨h.keyed, h.listed, h.once, h.started, h.noted⟩
  · exact h

/-- A write leaves the loader thrifty. -/
theorem Thrifty.written (h : l.Thrifty B InOrder held version)
    (hstore : B.store.Retains InOrder held) (n : Handle) :
    (l.written B n).Thrifty B InOrder held version := by
  simp only [Loader.written]
  split
  next v location bytes product hn =>
    have huniform : l.Each (fun _ a => a.variant.version = v.version) :=
      fun m b hb => (h.uniform m b hb).trans (h.uniform n _ hn).symm
    have hheld : held (B.store.put v bytes l.store) = restock (held l.store) v bytes :=
      funext (hstore.held_put h.inOrder v bytes)
    obtain ⟨halive, hholds, hsource⟩ := h.stocked.restock h.flight huniform hn rfl rfl
    rw [← hheld] at halive hholds hsource
    exact {
      flight := ⟨h.flight.keyed, h.flight.listed, h.flight.once, h.flight.started, h.flight.noted⟩
      uniform := h.uniform
      inOrder := hstore.put_inOrder h.inOrder v bytes
      stocked := ⟨halive, hholds, hsource⟩
      spent := h.spent
      balanced := fun key => ⟨(h.balanced key).paid, (h.balanced key).even⟩ }
  next => exact h

/-! ## Whatever happens -/

/-- What can happen to a loader while everybody asks for one version. -/
inductive Happens (B : Backend σ κ) (version : String) (l : Loader σ κ) : Loader σ κ → Prop
  | nothing : Happens B version l l
  | load {v : Variant} (asked : v.version = version) (location : String) :
      Happens B version l (l.load v location).2
  | step (event : LoaderEvent) : Happens B version l (l.step B event)
  | written (n : Handle) : Happens B version l (l.written B n)

/-- A loader starts thrifty over a store that holds nothing. -/
theorem thrifty_empty {store : σ} (horder : InOrder store) (hempty : ∀ v, held store v = none)
    (version : String) :
    (empty store : Loader σ κ).Thrifty B InOrder held version where
  flight := flight_empty store
  uniform _ _ ha := nomatch ha
  inOrder := horder
  stocked := {
    alive := fun v _ hv => nomatch (hempty v).symm.trans hv
    holds := fun _ _ ha => nomatch ha
    source := by
      intro v hv
      have hheld : (held store v).isSome = true := hv
      rw [hempty v] at hheld
      exact nomatch hheld }
  spent _ _ ha := nomatch ha
  balanced _ := {
    paid := fun ⟨_, _, ha, _⟩ => nomatch ha
    even := fun _ => rfl }

/-- Whatever happens for the version leaves the loader thrifty. -/
theorem Thrifty.happens (h : l.Thrifty B InOrder held version)
    (hstore : B.store.Retains InOrder held) (hl' : Happens B version l l') :
    l'.Thrifty B InOrder held version := by
  cases hl' with
  | nothing => exact h
  | load asked location => exact h.load asked location
  | step event =>
      rcases turn_step B l event with hsame | ⟨n, a, a', hturn⟩
      · rw [hsame]
        exact h
      · exact h.turn hstore hturn
  | written n => exact h.written hstore n

/-- **WHEN NOTHING IS UNDER WAY** for a key, its account is closed. -/
theorem Thrifty.fetchesFor_of_over (h : l.Thrifty B InOrder held version)
    (hover : ∀ n, ¬ l.Unsettled key n) :
    l.fetchesFor key
      = l.failuresFor key + if l.Has key AttemptStage.hasSucceeded then 1 else 0 := by
  by_cases hsucceeded : l.Has key AttemptStage.hasSucceeded
  · rw [if_pos hsucceeded]
    obtain ⟨n, a, ha, hkey, hstage⟩ := hsucceeded
    exact (h.balanced key).paid ⟨n, a, ha, hkey, (Bool.or_eq_true _ _).mpr (Or.inr hstage)⟩
  · rw [if_neg hsucceeded]
    refine (h.balanced key).even ?_
    rintro ⟨n, a, ha, hkey, hpaid⟩
    rcases Attempt.unsettled_or_succeeded_of_hasPaid hpaid with hun | hstage
    · exact hover n ⟨a, ha, hkey, hun⟩
    · exact hsucceeded ⟨n, a, ha, hkey, hstage⟩

end Loader
end PhaseHost
