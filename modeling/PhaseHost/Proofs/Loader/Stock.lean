import PhaseHost.Proofs.Loader.Flight
import PhaseHost.Proofs.Store.Shelf

/-! # What attempts know of the store

    An attempt learns from the store what is held for its variant, and it puts
    something there.  `Attempt.Holds` is what its stage tells of that:

    * the bytes it tries are those that are held;
    * the bytes it keeps come to life;
    * something is held once it has succeeded.

    `Loader.Stocked` says so of all attempts, for any account of what is held, and
    that whatever is held comes to life and has been brought there by an attempt
    that has made something.  Two things can change: an attempt goes on, for which
    what is held stays, or bytes are put, for which the attempts stay. -/

namespace PhaseHost

variable {σ κ : Type}

/-! ## Stages -/

namespace AttemptStage

/-- Whether a fetch was started and the attempt has not ended. -/
def underFetch : AttemptStage → Bool
  | .fetching => true
  | .making _ => true
  | .keeping _ => true
  | _ => false

def hasSucceeded : AttemptStage → Bool
  | .settled (.ok _) => true
  | _ => false

def hasFailed : AttemptStage → Bool
  | .settled (.error _) => true
  | _ => false

def isFetching : AttemptStage → Bool
  | .fetching => true
  | _ => false

/-- Whether the attempt has something for its fetch, or may get it. -/
def hasPaid (stage : AttemptStage) : Bool :=
  stage.underFetch || stage.hasSucceeded

end AttemptStage

namespace Attempt

/-- What is held for the variant of an attempt, as far as its stage tells. -/
def Holds (R : Runtime κ) (held? : Option Bytes) (a : Attempt κ) : Prop :=
  match a.stage with
  | .trying bytes => held? = some bytes
  | .keeping bytes => ∃ c, R.instantiate a.variant bytes = .ok c
  | .settled (.ok _) => held?.isSome = true
  | _ => True

/-- Going on goes by what is held. -/
structure Informed (held? : Option Bytes) (a a' : Attempt κ) : Prop where
  hit : ∀ bytes, a'.stage = .trying bytes → held? = some bytes
  miss : a.stage = .looking → a'.stage = .fetching → held? = none
  kept : ∀ bytes, a.stage = .keeping bytes → held? = some bytes

variable {R : Runtime κ} {n : Handle} {a a' : Attempt κ} {held? : Option Bytes}

/-- An attempt that goes on holds what its next stage tells, if what it tried comes
    to life. -/
theorem Next.holds (h : Next R n a a') (ha : a.Holds R held?) (hinf : Informed held? a a') :
    a'.Holds R held? := by
  cases h with
  | hit bytes => exact hinf.hit bytes rfl
  | revived alive =>
      have hheld : held? = some _ := ha
      exact Option.isSome_iff_exists.mpr ⟨_, hheld⟩
  | brought alive => exact ⟨_, alive⟩
  | kept => exact Option.isSome_iff_exists.mpr ⟨_, hinf.kept _ rfl⟩
  | miss => trivial
  | unusable dead => trivial
  | arrived bytes => trivial
  | lost message => trivial
  | refused dead => trivial

/-- What is held may become something else, but for what is being tried. -/
theorem Holds.of_isSome {held?' : Option Bytes} (h : a.Holds R held?)
    (hnot : ∀ bytes, a.stage ≠ .trying bytes) (hsome : held?'.isSome = true) :
    a.Holds R held?' := by
  obtain ⟨v, location, stage, product⟩ := a
  cases stage with
  | trying bytes => exact absurd rfl (hnot bytes)
  | keeping bytes => exact h
  | settled outcome =>
      cases outcome with
      | ok m => exact hsome
      | error e => trivial
  | _ => trivial

theorem outcome?_of_hasSucceeded (h : a.stage.hasSucceeded = true) : a.outcome? ≠ none := by
  obtain ⟨v, location, stage, product⟩ := a
  cases stage with
  | settled outcome => exact nofun
  | _ => exact nomatch h

theorem hasFailed_of_unsettled (h : a.outcome? = none) : a.stage.hasFailed = false := by
  obtain ⟨v, location, stage, product⟩ := a
  cases stage with
  | settled outcome => exact nomatch h
  | _ => rfl

theorem outcome?_of_underFetch (h : a.stage.underFetch = true) : a.outcome? = none := by
  obtain ⟨v, location, stage, product⟩ := a
  cases stage with
  | settled outcome => exact nomatch h
  | _ => rfl

/-- An attempt that has not ended and is not on the way from a fetch is before it. -/
theorem beforeFetch_of_unsettled (hun : a.outcome? = none) (hunder : a.stage.underFetch ≠ true) :
    a.stage.beforeFetch = true := by
  obtain ⟨v, location, stage, product⟩ := a
  cases stage with
  | looking => rfl
  | trying bytes => rfl
  | settled outcome => exact nomatch hun
  | _ => exact absurd rfl hunder

/-- An attempt that made something has not ended, or has succeeded. -/
theorem unsettled_or_succeeded_of_hasMade (h : a.stage.hasMade = true) :
    a.outcome? = none ∨ a.stage.hasSucceeded = true := by
  obtain ⟨v, location, stage, product⟩ := a
  cases stage with
  | keeping bytes => exact Or.inl rfl
  | settled outcome =>
      cases outcome with
      | ok m => exact Or.inr rfl
      | error e => exact nomatch h
  | _ => exact nomatch h

theorem unsettled_or_succeeded_of_hasPaid (h : a.stage.hasPaid = true) :
    a.outcome? = none ∨ a.stage.hasSucceeded = true :=
  ((Bool.or_eq_true _ _).mp h).imp outcome?_of_underFetch id

end Attempt

namespace Loader

variable {B : Backend σ κ} {l l' : Loader σ κ} {n m : Handle} {a a' : Attempt κ}
  {key : CacheKey} {P : AttemptStage → Bool}

/-! ## Attempts of a key -/

/-- Some attempt for a key is in a stage of some sort. -/
def Has (l : Loader σ κ) (key : CacheKey) (P : AttemptStage → Bool) : Prop :=
  ∃ (n : Handle) (a : Attempt κ), l.attempts[n]? = some a ∧ a.variant.key = key
    ∧ P a.stage = true

instance (l : Loader σ κ) (key : CacheKey) (P : AttemptStage → Bool) :
    Decidable (l.Has key P) :=
  decidable_of_iff (∃ a ∈ l.attempts, a.variant.key = key ∧ P a.stage = true) <| by
    constructor
    · rintro ⟨a, ha, hkey, hP⟩
      obtain ⟨n, hn⟩ := List.mem_iff_getElem?.mp ha
      exact ⟨n, a, hn, hkey, hP⟩
    · rintro ⟨n, a, hn, hkey, hP⟩
      exact ⟨a, List.mem_of_getElem? hn, hkey, hP⟩

/-- Some other attempt is. -/
def HasOther (l : Loader σ κ) (n : Handle) (key : CacheKey) (P : AttemptStage → Bool) : Prop :=
  ∃ (m : Handle) (a : Attempt κ), n ≠ m ∧ l.attempts[m]? = some a ∧ a.variant.key = key
    ∧ P a.stage = true

/-- An attempt for a key is this one or another one. -/
theorem has_iff (hn : l.attempts[n]? = some a) :
    l.Has key P ↔ (a.variant.key = key ∧ P a.stage = true) ∨ l.HasOther n key P := by
  constructor
  · rintro ⟨m, b, hm, hkey, hP⟩
    by_cases hnm : n = m
    · subst hnm
      obtain rfl : a = b := Option.some.inj (hn.symm.trans hm)
      exact Or.inl ⟨hkey, hP⟩
    · exact Or.inr ⟨m, b, hnm, hm, hkey, hP⟩
  · rintro (⟨hkey, hP⟩ | ⟨m, b, -, hm, hkey, hP⟩)
    · exact ⟨n, a, hn, hkey, hP⟩
    · exact ⟨m, b, hm, hkey, hP⟩

/-- A turn bears on the attempt that is turned, and on no other. -/
theorem Turn.has_iff (h : Turn B l n a a' l') :
    l'.Has key P ↔ (a.variant.key = key ∧ P a'.stage = true) ∨ l.HasOther n key P := by
  rw [Loader.has_iff h.here', h.next.variant_eq]
  refine or_congr_right ⟨?_, ?_⟩
  · rintro ⟨m, b, hnm, hm, hb⟩
    exact ⟨m, b, hnm, (h.others hnm).symm.trans hm, hb⟩
  · rintro ⟨m, b, hnm, hm, hb⟩
    exact ⟨m, b, hnm, (h.others hnm).trans hm, hb⟩

/-- Beside an attempt that has not ended, those of its key that have something have
    succeeded. -/
theorem Flight.hasOther_succeeded (h : l.Flight) (hn : l.Unsettled key n)
    (hP : ∀ a : Attempt κ, P a.stage = true →
      a.outcome? = none ∨ a.stage.hasSucceeded = true)
    (hother : l.HasOther n key P) : l.HasOther n key AttemptStage.hasSucceeded := by
  obtain ⟨m, b, hnm, hm, hkey, hb⟩ := hother
  rcases hP b hb with hun | hsucceeded
  · exact absurd (h.unique hn ⟨b, hm, hkey, hun⟩) hnm
  · exact ⟨m, b, hnm, hm, hkey, hsucceeded⟩

/-- Beside an attempt in flight, the others of its key have something for their fetch only if they
    have succeeded. -/
theorem Flight.hasOther_hasPaid_iff (h : l.Flight) (hn : l.Unsettled key n) :
    l.HasOther n key AttemptStage.hasPaid ↔ l.HasOther n key AttemptStage.hasSucceeded := by
  constructor
  · exact h.hasOther_succeeded hn (fun _ => Attempt.unsettled_or_succeeded_of_hasPaid)
  · rintro ⟨m, b, hnm, hm, hkey, hsucceeded⟩
    exact ⟨m, b, hnm, hm, hkey, (Bool.or_eq_true _ _).mpr (Or.inr hsucceeded)⟩

/-- An attempt that goes on has not succeeded, so if one for the key has it is another. -/
theorem Turn.hasSucceeded_iff (h : Turn B l n a a' l') :
    l.Has key AttemptStage.hasSucceeded ↔ l.HasOther n key AttemptStage.hasSucceeded := by
  rw [Loader.has_iff h.here]
  refine or_iff_right ?_
  rintro ⟨-, hsucceeded⟩
  exact Attempt.outcome?_of_hasSucceeded hsucceeded h.next.unsettled

/-- What holds of the attempt that went on and of all others holds of each. -/
theorem Turn.each {Q : Handle → Attempt κ → Prop} (h : Turn B l n a a' l') (hn : Q n a')
    (hothers : ∀ m b, n ≠ m → l.attempts[m]? = some b → Q m b) : l'.Each Q := by
  intro m b hb
  by_cases hnm : n = m
  · subst hnm
    obtain rfl : a' = b := Option.some.inj (h.here'.symm.trans hb)
    exact hn
  · exact hothers m b hnm ((h.others hnm).symm.trans hb)

/-- What has been loaded has been loaded for good. -/
theorem Turn.has_succeeded (h : Turn B l n a a' l') (hl : l.Has key AttemptStage.hasSucceeded) :
    l'.Has key AttemptStage.hasSucceeded :=
  h.has_iff.mpr (Or.inr (h.hasSucceeded_iff.mp hl))

/-! ## The stock -/

/-- What is held for each variant, as far as attempts know. -/
structure Stocked (R : Runtime κ) (held : Variant → Option Bytes) (l : Loader σ κ) : Prop where
  alive : ∀ v bytes, held v = some bytes → ∃ c, R.instantiate v bytes = .ok c
  holds : l.Each (fun _ a => a.Holds R (held a.variant))
  source : ∀ v, (held v).isSome = true → l.Has v.key AttemptStage.hasMade

variable {R : Runtime κ} {held : Variant → Option Bytes} {v : Variant} {bytes : Bytes}

/-- What has been loaded is held. -/
theorem Stocked.held_of_succeeded (h : l.Stocked R held)
    (hv : l.Has v.key AttemptStage.hasSucceeded) : (held v).isSome = true := by
  obtain ⟨n, ⟨w, location, stage, product⟩, hn, hkey, hsucceeded⟩ := hv
  obtain rfl := Variant.key_injective hkey
  have hholds := h.holds n _ hn
  cases stage with
  | settled outcome =>
      cases outcome with
      | ok m => exact hholds
      | error e => exact nomatch hsucceeded
  | _ => exact nomatch hsucceeded

/-- What is tried comes to life. -/
theorem Stocked.not_dead (h : l.Stocked R held) (hn : l.attempts[n]? = some a)
    (htrying : a.stage = .trying bytes) (e : LoadError) :
    R.instantiate a.variant bytes ≠ .error e := by
  have hholds := h.holds n a hn
  simp only [Attempt.Holds, htrying] at hholds
  obtain ⟨c, halive⟩ := h.alive _ _ hholds
  rw [halive]
  exact nofun

/-- What has been loaded is found. -/
theorem Stocked.not_missed (h : l.Stocked R held)
    (hloaded : l.Has a.variant.key AttemptStage.hasSucceeded)
    (hinf : Attempt.Informed (held a.variant) a a') (hlooking : a.stage = .looking) :
    a'.stage ≠ .fetching := by
  intro hfetching
  have hheld := h.held_of_succeeded hloaded
  rw [hinf.miss hlooking hfetching] at hheld
  exact nomatch hheld

/-- What is tried was loaded before. -/
theorem Stocked.succeeded_of_trying (h : l.Stocked R held) (hflight : l.Flight)
    (hn : l.attempts[n]? = some a) (htrying : a.stage = .trying bytes) :
    l.Has a.variant.key AttemptStage.hasSucceeded := by
  have hholds := h.holds n a hn
  simp only [Attempt.Holds, htrying] at hholds
  rcases (Loader.has_iff hn).mp (h.source _ (Option.isSome_iff_exists.mpr ⟨_, hholds⟩))
    with ⟨-, hmade⟩ | hother
  · rw [htrying] at hmade
    exact nomatch hmade
  · refine (Loader.has_iff hn).mpr (Or.inr ?_)
    exact hflight.hasOther_succeeded
      ⟨a, hn, rfl, by simp only [Attempt.outcome?, htrying]⟩
      (fun _ => Attempt.unsettled_or_succeeded_of_hasMade) hother

/-- Going on by what is held keeps the stock. -/
theorem Stocked.turn (h : l.Stocked B.runtime held) (hturn : Turn B l n a a' l')
    (hinf : Attempt.Informed (held a.variant) a a') : l'.Stocked B.runtime held where
  alive := h.alive
  holds := by
    refine hturn.each ?_ (fun m b _ hb => h.holds m b hb)
    rw [hturn.next.variant_eq]
    exact hturn.next.holds (h.holds n a hturn.here) hinf
  source := by
    intro v hv
    rcases (Loader.has_iff hturn.here).mp (h.source v hv) with ⟨hkey, hmade⟩ | hother
    · -- what an attempt has made it keeps until it has succeeded
      refine hturn.has_iff.mpr (Or.inl ⟨hkey, ?_⟩)
      have hnext := hturn.next
      cases hnext with
      | kept => rfl
      | _ => exact nomatch hmade
    · exact hturn.has_iff.mpr (Or.inr hother)

/-- What is held after a put. -/
def restock (held : Variant → Option Bytes) (v : Variant) (bytes : Bytes) :
    Variant → Option Bytes :=
  fun w => if w = v then some bytes else if w.version = v.version then held w else none

/-- Putting what an attempt has brought to life keeps the stock. -/
theorem Stocked.restock (h : l.Stocked R held) (hflight : l.Flight)
    (huniform : l.Each (fun _ a => a.variant.version = v.version))
    (hn : l.attempts[n]? = some a) (hv : a.variant = v) (hkeeping : a.stage = .keeping bytes) :
    l.Stocked R (restock held v bytes) := by
  subst hv
  have hheld : ∀ w, w ≠ a.variant → w.version = a.variant.version →
      Loader.restock held a.variant bytes w = held w := by
    intro w hw hversion
    simp only [Loader.restock]
    rw [if_neg hw, if_pos hversion]
  have hself : Loader.restock held a.variant bytes a.variant = some bytes := if_pos rfl
  have halive : ∃ c, R.instantiate a.variant bytes = .ok c := by
    have hholds := h.holds n a hn
    simp only [Attempt.Holds, hkeeping] at hholds
    exact hholds
  have hunsettled : l.Unsettled a.variant.key n :=
    ⟨a, hn, rfl, Attempt.outcome?_of_underFetch (by rw [hkeeping]; rfl)⟩
  refine ⟨?_, ?_, ?_⟩
  · intro w bytes' hw
    by_cases hwv : w = a.variant
    · subst hwv
      rw [hself] at hw
      cases hw
      exact halive
    · simp only [Loader.restock, if_neg hwv] at hw
      split at hw
      · exact h.alive w bytes' hw
      · cases hw
  · intro m b hb
    by_cases hbv : b.variant = a.variant
    · refine (h.holds m b hb).of_isSome ?_ ?_
      · -- nothing else is tried for the key
        intro bytes' htrying
        have hm : l.Unsettled a.variant.key m :=
          ⟨b, hb, congrArg Variant.key hbv, by simp only [Attempt.outcome?, htrying]⟩
        obtain rfl := hflight.unique hunsettled hm
        obtain rfl : a = b := Option.some.inj (hn.symm.trans hb)
        rw [hkeeping] at htrying
        cases htrying
      · rw [hbv, hself]
        rfl
    · rw [hheld b.variant hbv (huniform m b hb)]
      exact h.holds m b hb
  · intro w hw
    by_cases hwv : w = a.variant
    · subst hwv
      exact ⟨n, a, hn, rfl, by rw [hkeeping]; rfl⟩
    · simp only [Loader.restock, if_neg hwv] at hw
      split at hw
      · exact h.source w hw
      · cases hw

end Loader
end PhaseHost
