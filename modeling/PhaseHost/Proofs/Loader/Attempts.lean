import PhaseHost.Loader.Basic
import PhaseHost.Proofs.Entries

/-! # How attempts go on

    An event of a loader moves at most one attempt, and only along the arrows
    of `Attempt.Next`.  So what holds of single attempts is shown arrow by
    arrow, and no later proof opens a function of the loader.

    What is shown here: an attempt has a capability exactly in the stages behind
    its making, an attempt that ended well names itself, and a capability stays
    in its place once it is made.  And an attempt that has not ended can go on,
    which always shows (`Loader.look_moves` and the like). -/

namespace PhaseHost

variable {σ κ : Type}

/-- Whether the capability of an attempt has been made by a stage. -/
def AttemptStage.hasMade : AttemptStage → Bool
  | .keeping _ => true
  | .settled (.ok _) => true
  | _ => false

/-- Whether an attempt asks the store next, or puts something into it. -/
def AttemptStage.atStore : AttemptStage → Bool
  | .looking => true
  | .keeping _ => true
  | _ => false

namespace Attempt

/-- The stage of an attempt tells what the attempt has, and an attempt that
    ended well names itself. -/
structure Coherent (n : Handle) (a : Attempt κ) : Prop where
  made : a.product.isSome = a.stage.hasMade
  own : ∀ m, a.stage = .settled (.ok m) → m = n

/-- What an event can make of the `n`-th attempt. -/
inductive Next (R : Runtime κ) (n : Handle) : Attempt κ → Attempt κ → Prop
  | hit {v location product} (bytes) :
      Next R n ⟨v, location, .looking, product⟩ ⟨v, location, .trying bytes, product⟩
  | miss {v location product} :
      Next R n ⟨v, location, .looking, product⟩ ⟨v, location, .fetching, product⟩
  | revived {v location bytes product c} (alive : R.instantiate v bytes = .ok c) :
      Next R n ⟨v, location, .trying bytes, product⟩
        ⟨v, location, .settled (.ok n), some c⟩
  | unusable {v location bytes product e} (dead : R.instantiate v bytes = .error e) :
      Next R n ⟨v, location, .trying bytes, product⟩ ⟨v, location, .fetching, product⟩
  | arrived {v location product} (bytes) :
      Next R n ⟨v, location, .fetching, product⟩ ⟨v, location, .making bytes, product⟩
  | lost {v location product} (message) :
      Next R n ⟨v, location, .fetching, product⟩
        ⟨v, location, .settled (.error (.fetch location message)), product⟩
  | brought {v location bytes product c} (alive : R.instantiate v bytes = .ok c) :
      Next R n ⟨v, location, .making bytes, product⟩
        ⟨v, location, .keeping bytes, some c⟩
  | refused {v location bytes product e} (dead : R.instantiate v bytes = .error e) :
      Next R n ⟨v, location, .making bytes, product⟩
        ⟨v, location, .settled (.error e), product⟩
  | kept {v location bytes product} :
      Next R n ⟨v, location, .keeping bytes, product⟩
        ⟨v, location, .settled (.ok n), product⟩

variable {R : Runtime κ} {n : Handle} {a a' : Attempt κ}

/-- Going on keeps stage and capability in step. -/
theorem Next.coherent (h : Next R n a a') (ha : a.Coherent n) : a'.Coherent n := by
  obtain ⟨made, -⟩ := ha
  cases h with
  | hit bytes => exact ⟨made, nofun⟩
  | miss => exact ⟨made, nofun⟩
  | revived alive => exact ⟨rfl, fun m hm => by cases hm; rfl⟩
  | unusable dead => exact ⟨made, nofun⟩
  | arrived bytes => exact ⟨made, nofun⟩
  | lost message => exact ⟨made, nofun⟩
  | brought alive => exact ⟨rfl, nofun⟩
  | refused dead => exact ⟨made, nofun⟩
  | kept => exact ⟨made, fun m hm => by cases hm; rfl⟩

/-- Going on leaves a capability alone that has been made: the two arrows that
    make one start from stages before its making. -/
theorem Next.product_eq (h : Next R n a a') (ha : a.Coherent n) {c : κ}
    (hc : a.product = some c) : a'.product = some c := by
  have made := ha.made
  rw [hc] at made
  cases h with
  | revived alive => exact nomatch made
  | brought alive => exact nomatch made
  | hit bytes => exact hc
  | miss => exact hc
  | unusable dead => exact hc
  | arrived bytes => exact hc
  | lost message => exact hc
  | refused dead => exact hc
  | kept => exact hc

end Attempt

namespace Loader

variable {l : Loader σ κ} {n m : Handle}

/-- What going on has to do with the store. -/
inductive Deal (S : Store σ) (s : σ) : Attempt κ → Attempt κ → σ → Prop
  | found {v location product bytes s'} (get : S.get v.key s = (some bytes, s')) :
      Deal S s ⟨v, location, .looking, product⟩ ⟨v, location, .trying bytes, product⟩ s'
  | missing {v location product s'} (get : S.get v.key s = (none, s')) :
      Deal S s ⟨v, location, .looking, product⟩ ⟨v, location, .fetching, product⟩ s'
  | put {v location bytes product a'} :
      Deal S s ⟨v, location, .keeping bytes, product⟩ a' (S.put v bytes s)
  | aside {a a'} (away : a.stage.atStore = false) : Deal S s a a' s

/-- An event TURNS the `n`-th attempt: it goes on along an arrow, dealing with the
    store if it is there, a fetch that it starts is noted, and its key is let go of
    if it ends. -/
structure Turn (B : Backend σ κ) (l : Loader σ κ) (n : Handle) (a a' : Attempt κ)
    (l' : Loader σ κ) : Prop where
  here : l.attempts[n]? = some a
  next : Attempt.Next B.runtime n a a'
  deal : Deal B.store l.store a a' l'.store
  attempts : l'.attempts = l.attempts.set n a'
  inFlight : l'.inFlight
    = if a'.outcome?.isSome then l.inFlight.filter (fun p => p.1 ≠ a.variant.key)
      else l.inFlight
  fetches : l'.fetches
    = match a'.stage with
      | .fetching => l.fetches ++ [n]
      | _ => l.fetches

/-- Asking the store is a turn of the attempt, unless it is not about to ask. -/
theorem turn_look (B : Backend σ κ) (l : Loader σ κ) (n : Handle) :
    l.look B n = l ∨ ∃ a a', Turn B l n a a' (l.look B n) := by
  simp only [look]
  split
  next v location product hn =>
    split
    next bytes store hs =>
      exact Or.inr ⟨_, _, hn, .hit bytes, .found hs, modify_eq_set _ hn, rfl, rfl⟩
    next store hs =>
      exact Or.inr ⟨_, _, hn, .miss, .missing hs, modify_eq_set _ hn, rfl, rfl⟩
  next => exact Or.inl rfl

/-- Bringing bytes to life is a turn of the attempt, unless it has none. -/
theorem turn_make (B : Backend σ κ) (l : Loader σ κ) (n : Handle) :
    l.make B n = l ∨ ∃ a a', Turn B l n a a' (l.make B n) := by
  simp only [make]
  split
  next v location bytes product hn =>
    split
    next c hc =>
      -- the capability and the stage are changed one after the other, in one place
      refine Or.inr ⟨_, _, hn, .revived hc, .aside rfl, ?_, rfl, rfl⟩
      show (l.attempts.modify n _).modify n _ = _
      rw [List.modify_modify_eq]
      exact modify_eq_set _ hn
    next e he =>
      exact Or.inr ⟨_, _, hn, .unusable he, .aside rfl, modify_eq_set _ hn, rfl, rfl⟩
  next v location bytes product hn =>
    split
    next c hc =>
      refine Or.inr ⟨_, _, hn, .brought hc, .aside rfl, ?_, rfl, rfl⟩
      show (l.attempts.modify n _).modify n _ = _
      rw [List.modify_modify_eq]
      exact modify_eq_set _ hn
    next e he =>
      exact Or.inr ⟨_, _, hn, .refused he, .aside rfl, modify_eq_set _ hn, rfl, rfl⟩
  next => exact Or.inl rfl

/-- The end of a fetch is a turn of the attempt, unless it waits for none. -/
theorem turn_fetched (B : Backend σ κ) (l : Loader σ κ) (n : Handle)
    (result : Except String Bytes) :
    l.fetched n result = l ∨ ∃ a a', Turn B l n a a' (l.fetched n result) := by
  simp only [fetched]
  split
  next v location product hn =>
    cases result with
    | ok bytes =>
        exact Or.inr ⟨_, _, hn, .arrived bytes, .aside rfl, modify_eq_set _ hn, rfl, rfl⟩
    | error message =>
        exact Or.inr ⟨_, _, hn, .lost message, .aside rfl, modify_eq_set _ hn, rfl, rfl⟩
  next => exact Or.inl rfl

/-- Keeping bytes is a turn of the attempt, unless it has none to keep. -/
theorem turn_keep (B : Backend σ κ) (l : Loader σ κ) (n : Handle) :
    l.keep B n = l ∨ ∃ a a', Turn B l n a a' (l.keep B n) := by
  simp only [keep]
  split
  next v location bytes product hn =>
    exact Or.inr ⟨_, _, hn, .kept, .put, modify_eq_set _ hn, rfl, rfl⟩
  next => exact Or.inl rfl

/-- **ONE ATTEMPT AT A TIME**: an event changes nothing or turns one attempt. -/
theorem turn_step (B : Backend σ κ) (l : Loader σ κ) (event : LoaderEvent) :
    l.step B event = l ∨ ∃ n a a', Turn B l n a a' (l.step B event) := by
  cases event with
  | look n => exact (turn_look B l n).imp id (fun h => ⟨n, h⟩)
  | make n => exact (turn_make B l n).imp id (fun h => ⟨n, h⟩)
  | fetched n result => exact (turn_fetched B l n result).imp id (fun h => ⟨n, h⟩)
  | keep n => exact (turn_keep B l n).imp id (fun h => ⟨n, h⟩)

/-- What an event changes about the attempts: nothing, or one of them goes on. -/
def GoesOn (R : Runtime κ) (l l' : Loader σ κ) : Prop :=
  l'.attempts = l.attempts ∨
    ∃ n a a', l.attempts[n]? = some a ∧ Attempt.Next R n a a'
      ∧ l'.attempts = l.attempts.set n a'

/-- By an event at most one attempt goes on. -/
theorem goesOn_step (B : Backend σ κ) (l : Loader σ κ) (event : LoaderEvent) :
    GoesOn B.runtime l (l.step B event) := by
  rcases turn_step B l event with hsame | ⟨n, a, a', hturn⟩
  · exact Or.inl (congrArg Loader.attempts hsame)
  · exact Or.inr ⟨n, a, a', hturn.here, hturn.next, hturn.attempts⟩

/-! ## What holds of every attempt -/

/-- Something holds of every attempt under its number. -/
def Each (P : Handle → Attempt κ → Prop) (l : Loader σ κ) : Prop :=
  ∀ n (a : Attempt κ), l.attempts[n]? = some a → P n a

/-- What arrows keep holds of attempts that go on. -/
theorem Each.goesOn {P : Handle → Attempt κ → Prop} {R : Runtime κ} {l' : Loader σ κ}
    (hl : l.Each P) (hkeep : ∀ n a a', Attempt.Next R n a a' → P n a → P n a')
    (h : GoesOn R l l') : l'.Each P := by
  intro m b hb
  rcases h with heq | ⟨n, a, a', hn, hnext, heq⟩
  · rw [heq] at hb
    exact hl m b hb
  · -- every attempt but the one that goes on is as it was
    rw [heq, List.getElem?_set] at hb
    split at hb
    next hnm =>
      split at hb
      · cases hb
        exact hnm ▸ hkeep _ _ _ hnext (hl n a hn)
      · exact nomatch hb
    next => exact hl m b hb

/-- A load adds an attempt that has just begun, or none. -/
theorem load_attempts (l : Loader σ κ) (v : Variant) (location : String) :
    (l.load v location).2.attempts = l.attempts ∨
      (l.load v location).2.attempts
        = l.attempts ++ [⟨v, location, .looking, none⟩] := by
  simp only [load]
  split
  · exact Or.inl rfl
  · exact Or.inr rfl

/-- A call leaves the store alone. -/
theorem store_load (l : Loader σ κ) (v : Variant) (location : String) :
    (l.load v location).2.store = l.store := by
  simp only [load]
  split <;> rfl

/-- A call starts no fetch. -/
theorem fetches_load (l : Loader σ κ) (v : Variant) (location : String) :
    (l.load v location).2.fetches = l.fetches := by
  simp only [load]
  split <;> rfl

/-- What holds of attempts that have just begun survives a load. -/
theorem Each.load {P : Handle → Attempt κ → Prop} (hl : l.Each P)
    (hnew : ∀ n v location, P n ⟨v, location, .looking, none⟩) (v : Variant)
    (location : String) : (l.load v location).2.Each P := by
  intro m b hb
  rcases load_attempts l v location with heq | heq
  · rw [heq] at hb
    exact hl m b hb
  · rw [heq, getElem?_concat_iff] at hb
    rcases hb with hb | ⟨rfl, rfl⟩
    · exact hl m b hb
    · exact hnew _ v location

/-! ## Coherence -/

/-- Every attempt is in step with its stage. -/
def Coherent (l : Loader σ κ) : Prop :=
  ∀ n (a : Attempt κ), l.attempts[n]? = some a → a.Coherent n

theorem coherent_empty (store : σ) : (empty store : Loader σ κ).Coherent := by
  intro n a ha
  exact nomatch ha

/-- An event leaves the attempts in step with their stages. -/
theorem Coherent.step (hl : l.Coherent) (B : Backend σ κ) (event : LoaderEvent) :
    (l.step B event).Coherent :=
  Each.goesOn hl (fun _ _ _ => Attempt.Next.coherent) (goesOn_step B l event)

/-- A call leaves the attempts in step with their stages. -/
theorem Coherent.load (hl : l.Coherent) (v : Variant) (location : String) :
    (l.load v location).2.Coherent :=
  Each.load hl (fun _ _ _ => ⟨rfl, nofun⟩) v location

/-- Only the place of a capability that is there already may be taken. -/
theorem Coherent.replaceProduct (hl : l.Coherent) {c : κ} (hn : l.product? n = some c)
    (c' : κ) : (l.replaceProduct n c').Coherent := by
  intro m b hb
  obtain ⟨a, ha, hac⟩ := Option.bind_eq_some_iff.mp hn
  rw [show (l.replaceProduct n c').attempts = l.attempts.set n { a with product := some c' }
    from modify_eq_set _ ha, List.getElem?_set] at hb
  split at hb
  next hnm =>
    split at hb
    · cases hb
      have h := hl n a ha
      refine ⟨?_, fun k hk => hnm ▸ h.own k hk⟩
      rw [← h.made, hac]
      rfl
    · exact nomatch hb
  next => exact hl m b hb

/-! ## What has been made stays -/

/-- What an attempt has made it keeps. -/
theorem product?_goesOn {R : Runtime κ} {l' : Loader σ κ} (hl : l.Coherent)
    (h : GoesOn R l l') {c : κ} (hm : l.product? m = some c) :
    l'.product? m = some c := by
  obtain ⟨b, hb, hbc⟩ := Option.bind_eq_some_iff.mp hm
  refine Option.bind_eq_some_iff.mpr ?_
  rcases h with heq | ⟨n, a, a', hn, hnext, heq⟩
  · exact ⟨b, heq ▸ hb, hbc⟩
  · by_cases hnm : n = m
    · -- its own attempt goes on, which leaves a capability alone
      subst hnm
      have hab : a = b := Option.some.inj (hn.symm.trans hb)
      subst hab
      refine ⟨a', ?_, hnext.product_eq (hl n a hn) hbc⟩
      rw [heq, List.getElem?_set_self (List.getElem?_eq_some_iff.mp hn).1]
    · exact ⟨b, by rw [heq, List.getElem?_set_ne hnm]; exact hb, hbc⟩

/-- No event takes a capability away or changes it. -/
theorem product?_step (hl : l.Coherent) (B : Backend σ κ) (event : LoaderEvent) {c : κ}
    (hm : l.product? m = some c) : (l.step B event).product? m = some c :=
  product?_goesOn hl (goesOn_step B l event) hm

/-- No load takes a capability away or changes it. -/
theorem product?_load (v : Variant) (location : String) {c : κ}
    (hm : l.product? m = some c) : (l.load v location).2.product? m = some c := by
  obtain ⟨b, hb, hbc⟩ := Option.bind_eq_some_iff.mp hm
  refine Option.bind_eq_some_iff.mpr ⟨b, ?_, hbc⟩
  rcases load_attempts l v location with heq | heq
  · rw [heq]
    exact hb
  · rw [heq, List.getElem?_append_left (List.getElem?_eq_some_iff.mp hb).1]
    exact hb

/-- A capability that is put in the place of one takes only that place. -/
theorem product?_replaceProduct {c : κ} (hn : l.product? n = some c) (c' : κ) (m : Handle) :
    (l.replaceProduct n c').product? m = if n = m then some c' else l.product? m := by
  obtain ⟨a, ha, -⟩ := Option.bind_eq_some_iff.mp hn
  show ((l.attempts.modify n _)[m]?).bind Attempt.product = _
  by_cases hnm : n = m
  · subst hnm
    rw [if_pos rfl, List.getElem?_modify_eq, ha]
    rfl
  · rw [if_neg hnm, List.getElem?_modify_ne _ _ hnm]
    rfl

/-- A capability in its own place changes nothing. -/
theorem replaceProduct_self {c : κ} (hn : l.product? n = some c) : l.replaceProduct n c = l := by
  obtain ⟨a, ha, hc⟩ := Option.bind_eq_some_iff.mp hn
  have hsame : ({ a with product := some c } : Attempt κ) = a := by rw [← hc]
  obtain ⟨hlt, rfl⟩ := List.getElem?_eq_some_iff.mp ha
  simp only [replaceProduct]
  rw [modify_eq_set _ ha, hsame, List.set_getElem_self]

/-- An attempt that ended well has made the capability it names. -/
theorem product?_of_outcome? (hl : l.Coherent) (h : l.outcome? n = some (.ok m)) :
    ∃ c, l.product? m = some c := by
  obtain ⟨a, ha, hout⟩ := Option.bind_eq_some_iff.mp h
  have hstage : a.stage = .settled (.ok m) := by
    simp only [Attempt.outcome?] at hout
    split at hout
    next outcome heq => rw [heq, Option.some.inj hout]
    next => exact nomatch hout
  have hself : m = n := (hl n a ha).own m hstage
  have hmade : a.product.isSome = true := by rw [(hl n a ha).made, hstage]; rfl
  obtain ⟨c, hc⟩ := Option.isSome_iff_exists.mp hmade
  exact ⟨c, Option.bind_eq_some_iff.mpr ⟨a, hself ▸ ha, hc⟩⟩

/-! ## Attempts that can go on -/

variable {B : Backend σ κ}

/-- How far an attempt has come. -/
def stage? (l : Loader σ κ) (n : Handle) : Option AttemptStage :=
  (l.attempts[n]?).map Attempt.stage

theorem stage?_of_here {a : Attempt κ} (here : l.attempts[n]? = some a) :
    l.stage? n = some a.stage :=
  congrArg (Option.map Attempt.stage) here

/-- An attempt that is moved on is at the new stage. -/
theorem stage?_advance (l : Loader σ κ) (n : Handle) (stage : AttemptStage) :
    (l.advance n stage).stage? n = (l.stage? n).map (fun _ => stage) := by
  show ((l.attempts.modify n _)[n]?).map Attempt.stage = ((l.attempts[n]?).map Attempt.stage).map _
  rw [List.getElem?_modify_eq, Option.map_map]
  show ((l.attempts[n]?).map _).map Attempt.stage = _
  rw [Option.map_map]
  rfl

/-- An attempt that is sent to another stage is not where it was. -/
theorem ne_of_advance {l' l₀ : Loader σ κ} {stage stage' : AttemptStage}
    (here : l.stage? n = some stage) (hl' : l'.stage? n = (l₀.advance n stage').stage? n)
    (hne : stage' ≠ stage) : l' ≠ l := by
  rintro rfl
  rw [stage?_advance, here] at hl'
  obtain ⟨_, -, heq⟩ := Option.map_eq_some_iff.mp hl'.symm
  exact hne heq

/-- An attempt that is about to ask the store can. -/
theorem look_moves (here : l.stage? n = some .looking) : l.look B n ≠ l := by
  obtain ⟨⟨v, location, stage, product⟩, hn, hstage⟩ := Option.map_eq_some_iff.mp here
  obtain rfl : stage = .looking := hstage
  simp only [look, hn]
  split
  · exact ne_of_advance here rfl (by rintro ⟨⟩)
  · exact ne_of_advance here rfl (by rintro ⟨⟩)

/-- An attempt with bytes from the store can bring them to life or give them up. -/
theorem make_moves_trying {bytes : Bytes} (here : l.stage? n = some (.trying bytes)) :
    l.make B n ≠ l := by
  obtain ⟨⟨v, location, stage, product⟩, hn, hstage⟩ := Option.map_eq_some_iff.mp here
  obtain rfl : stage = .trying bytes := hstage
  simp only [make, hn]
  split
  · exact ne_of_advance here rfl (by rintro ⟨⟩)
  · exact ne_of_advance here rfl (by rintro ⟨⟩)

/-- An attempt with fetched bytes can bring them to life or fail. -/
theorem make_moves_making {bytes : Bytes} (here : l.stage? n = some (.making bytes)) :
    l.make B n ≠ l := by
  obtain ⟨⟨v, location, stage, product⟩, hn, hstage⟩ := Option.map_eq_some_iff.mp here
  obtain rfl : stage = .making bytes := hstage
  simp only [make, hn]
  split
  · exact ne_of_advance here rfl (by rintro ⟨⟩)
  · exact ne_of_advance here rfl (by rintro ⟨⟩)

/-- An attempt with bytes to keep can keep them. -/
theorem keep_moves {bytes : Bytes} (here : l.stage? n = some (.keeping bytes)) :
    l.keep B n ≠ l := by
  obtain ⟨⟨v, location, stage, product⟩, hn, hstage⟩ := Option.map_eq_some_iff.mp here
  obtain rfl : stage = .keeping bytes := hstage
  simp only [keep, hn]
  exact ne_of_advance here rfl (by rintro ⟨⟩)

/-- An attempt that waits for a fetch can hear of its end. -/
theorem fetched_moves (here : l.stage? n = some .fetching) (result : Except String Bytes) :
    l.fetched n result ≠ l := by
  obtain ⟨⟨v, location, stage, product⟩, hn, hstage⟩ := Option.map_eq_some_iff.mp here
  obtain rfl : stage = .fetching := hstage
  simp only [fetched, hn]
  cases result with
  | ok bytes => exact ne_of_advance here rfl (by rintro ⟨⟩)
  | error message => exact ne_of_advance here rfl (by rintro ⟨⟩)

end Loader
end PhaseHost
