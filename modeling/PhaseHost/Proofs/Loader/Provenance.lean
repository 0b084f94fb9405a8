import PhaseHost.Play.StandIn
import PhaseHost.Proofs.Loader.Balance
import PhaseHost.Proofs.Store.Inventory

/-! # Where kept bytes come from

    Attempts for any number of versions overlap, and whatever one of them puts into
    the store takes the entries of other versions off the shelf.  So what is there
    now is a matter of which attempt has put something last, and where its bytes
    come from is a matter of what happened to that attempt while others went on.

    Two trails record this.  `arrivals` lists the bytes that fetches brought, each
    with the attempt that made the fetch and the variant it made it for; `writes`
    lists the bytes that attempts have put.

    * `Loader.Traced` follows bytes through the stages: what an attempt brings to
      life or keeps has arrived for it, and what is kept has come to life.
    * `Store.Accounted` says of the entries that each was put by an attempt, and that
      all are of the version of the attempt that has put something last.

    A put takes a while.  The bytes may be in the store before the attempt lets go
    of its key, and it lets go even if nothing could be stored; so both are acts of
    their own here, and other attempts may move in between. -/

namespace PhaseHost

variable {σ κ : Type}

/-- What can happen to a shared loader whose puts take a while. -/
inductive SlowAct where
  | act (x : LoaderAct)
  /-- The bytes of an attempt get into the store. -/
  | put (n : Handle)
  /-- An attempt lets go of its key, whether its bytes were stored or not. -/
  | release (n : Handle)
  deriving Repr

/-- Fetched bytes, with the attempt that has them and the variant it is for. -/
structure Delivery where
  attempt : Handle
  variant : Variant
  bytes : Bytes
  deriving DecidableEq, Repr

namespace Attempt

/-- What an attempt has to put into the store. -/
def offer? (n : Handle) (a : Attempt κ) : Option Delivery :=
  match a.stage with
  | .keeping bytes => some ⟨n, a.variant, bytes⟩
  | _ => none

/-- What an attempt gets from its fetch by going on. -/
def arrival? (n : Handle) (a a' : Attempt κ) : Option Delivery :=
  match a.stage, a'.stage with
  | .fetching, .making bytes => some ⟨n, a.variant, bytes⟩
  | _, _ => none

end Attempt

namespace Loader

/-- An attempt lets go of its key. -/
def release (B : Backend σ κ) (l : Loader σ κ) (n : Handle) : Loader σ κ :=
  { l.keep B n with store := l.store }

/-- What an act does. -/
def slow (B : Backend σ κ) (l : Loader σ κ) : SlowAct → Loader σ κ
  | .act x => l.act B x
  | .put n => l.written B n
  | .release n => l.release B n

/-- What a sequence of acts does. -/
def slowly (B : Backend σ κ) (l : Loader σ κ) (list : List SlowAct) : Loader σ κ :=
  list.foldl (slow B) l

/-- The bytes that a fetch brings by an act. -/
def arrival? (l : Loader σ κ) : SlowAct → Option Delivery
  | .act (.move (.fetched n (.ok bytes))) =>
    match l.attempts[n]? with
    | some ⟨v, _, .fetching, _⟩ => some ⟨n, v, bytes⟩
    | _ => none
  | _ => none

/-- The bytes that an act puts into the store. -/
def write? (l : Loader σ κ) : SlowAct → Option Delivery
  | .act (.move (.keep n)) => (l.attempts[n]?).bind (Attempt.offer? n)
  | .put n => (l.attempts[n]?).bind (Attempt.offer? n)
  | _ => none

/-- The bytes that fetches brought along a sequence of acts, in order. -/
def arrivals (B : Backend σ κ) (l : Loader σ κ) (list : List SlowAct) : List Delivery :=
  trail (slow B) arrival? l list

/-- The bytes that were put along a sequence of acts, in order. -/
def writes (B : Backend σ κ) (l : Loader σ κ) (list : List SlowAct) : List Delivery :=
  trail (slow B) write? l list

variable {B : Backend σ κ} {l l' : Loader σ κ} {n : Handle} {a a' : Attempt κ}

theorem slowly_concat (B : Backend σ κ) (l : Loader σ κ) (list : List SlowAct) (x : SlowAct) :
    l.slowly B (list ++ [x]) = (l.slowly B list).slow B x :=
  List.foldl_append

/-- To keep bytes is to put them and to let go of the key. -/
theorem release_written (B : Backend σ κ) (l : Loader σ κ) (n : Handle) :
    (l.written B n).release B n = l.keep B n := by
  simp only [release, written]
  split
  next v location bytes product hn =>
    simp only [keep]
    rw [hn]
    rfl
  next hother =>
    simp only [keep]

/-! ## What arrives -/

/-- An attempt that waits for its fetch is moved on by nothing but its fetch. -/
theorem step_of_fetching (B : Backend σ κ) (hn : l.attempts[n]? = some a)
    (hstage : a.stage = .fetching) :
    l.look B n = l ∧ l.make B n = l ∧ l.keep B n = l := by
  obtain ⟨v, location, stage, product⟩ := a
  cases hstage
  refine ⟨?_, ?_, ?_⟩
  · simp only [look]
    rw [hn]
  · simp only [make]
    rw [hn]
  · simp only [keep]
    rw [hn]

/-- Nothing arrives for an attempt that waits for no fetch. -/
theorem arrival?_of_not_fetching (h : a.stage ≠ .fetching) : a.arrival? n a' = none := by
  simp only [Attempt.arrival?]
  split
  next hstage _ => exact absurd hstage h
  next => rfl

/-- What arrives by an event arrives for the attempt that the event turns. -/
theorem turn_arrival (B : Backend σ κ) (l : Loader σ κ) (event : LoaderEvent) :
    (l.step B event = l ∧ l.arrival? (.act (.move event)) = none) ∨
      ∃ n a a', Turn B l n a a' (l.step B event)
        ∧ l.arrival? (.act (.move event)) = a.arrival? n a' := by
  -- nothing arrives by an event other than the end of a fetch
  have haside : ∀ {n l'}, l.arrival? (.act (.move event)) = none →
      (∀ a : Attempt κ, l.attempts[n]? = some a → a.stage = .fetching → l' = l) →
      (l' = l ∨ ∃ a a', Turn B l n a a' l') →
      (l' = l ∧ l.arrival? (.act (.move event)) = none) ∨ ∃ n a a', Turn B l n a a' l'
        ∧ l.arrival? (.act (.move event)) = a.arrival? n a' := by
    intro n l' hnone hfetching hturn
    rcases hturn with hsame | ⟨a, a', hturn⟩
    · exact Or.inl ⟨hsame, hnone⟩
    · by_cases hstage : a.stage = .fetching
      · exact Or.inl ⟨hfetching a hturn.here hstage, hnone⟩
      · exact Or.inr ⟨n, a, a', hturn, hnone.trans (arrival?_of_not_fetching hstage).symm⟩
  cases event with
  | look n =>
      exact haside rfl (fun a hn hstage => (step_of_fetching B hn hstage).1) (turn_look B l n)
  | make n =>
      exact haside rfl (fun a hn hstage => (step_of_fetching B hn hstage).2.1) (turn_make B l n)
  | keep n =>
      exact haside rfl (fun a hn hstage => (step_of_fetching B hn hstage).2.2) (turn_keep B l n)
  | fetched n result =>
      simp only [step, fetched]
      split
      next v location product hn =>
        cases result with
        | ok bytes =>
            refine Or.inr ⟨n, _, _,
              ⟨hn, .arrived bytes, .aside rfl, modify_eq_set _ hn, rfl, rfl⟩, ?_⟩
            simp only [arrival?]
            rw [hn]
            rfl
        | error message =>
            exact Or.inr ⟨n, _, _,
              ⟨hn, .lost message, .aside rfl, modify_eq_set _ hn, rfl, rfl⟩, rfl⟩
      next hother =>
        refine Or.inl ⟨rfl, ?_⟩
        cases result with
        | ok bytes => simp only [arrival?]
        | error message => rfl

/-! ## Through the stages -/

end Loader

/-- Whether the fetch of an attempt is behind it. -/
def AttemptStage.afterFetch : AttemptStage → Bool
  | .making _ => true
  | .keeping _ => true
  | .settled _ => true
  | _ => false

namespace Attempt

variable {R : Runtime κ} {n : Handle} {a a' : Attempt κ} {arrivals : List Delivery}

/-- What an attempt brings to life or keeps has arrived for it, and what it keeps has
    come to life. -/
def Carries (R : Runtime κ) (arrivals : List Delivery) (n : Handle) (a : Attempt κ) : Prop :=
  match a.stage with
  | .making bytes => ⟨n, a.variant, bytes⟩ ∈ arrivals
  | .keeping bytes =>
    ⟨n, a.variant, bytes⟩ ∈ arrivals ∧ ∃ c, R.instantiate a.variant bytes = .ok c
  | _ => True

/-- What has arrived counts from then on. -/
theorem Carries.mono {more : List Delivery} (h : a.Carries R arrivals n) :
    a.Carries R (arrivals ++ more) n := by
  obtain ⟨v, location, stage, product⟩ := a
  cases stage with
  | making bytes => exact List.mem_append_left _ h
  | keeping bytes => exact ⟨List.mem_append_left _ h.1, h.2⟩
  | _ => trivial

/-- An attempt that goes on carries what it carried, and what has arrived now. -/
theorem Next.carries (h : Next R n a a') (ha : a.Carries R arrivals n) :
    a'.Carries R (arrivals ++ (a.arrival? n a').toList) n := by
  cases h with
  | arrived bytes => exact List.mem_append_right _ List.mem_cons_self
  | brought alive => exact ⟨List.mem_append_left _ ha, _, alive⟩
  | _ => trivial

/-- No attempt goes back behind its fetch. -/
theorem Next.afterFetch_of (h : Next R n a a') (ha : a.stage.afterFetch = true) :
    a'.stage.afterFetch = true := by
  cases h with
  | brought alive => rfl
  | refused dead => rfl
  | kept => rfl
  | _ => exact nomatch ha

/-- What arrives by going on arrives for an attempt that waited for its fetch. -/
theorem Next.of_arrival? {d : Delivery} (h : Next R n a a') (hd : a.arrival? n a' = some d) :
    a.stage = .fetching ∧ d.attempt = n ∧ d.variant = a.variant
      ∧ a'.stage.afterFetch = true := by
  cases h with
  | arrived bytes =>
      cases hd
      exact ⟨rfl, rfl, rfl, rfl⟩
  | _ => cases hd

/-- An attempt offers what it carries. -/
theorem Carries.of_offer? {d : Delivery} (h : a.Carries R arrivals n)
    (hd : a.offer? n = some d) :
    d ∈ arrivals ∧ ∃ c, R.instantiate d.variant d.bytes = .ok c := by
  obtain ⟨v, location, stage, product⟩ := a
  cases stage with
  | keeping bytes =>
      cases hd
      exact h
  | _ => cases hd

end Attempt

namespace Loader

variable {B : Backend σ κ} {l l' : Loader σ κ} {n : Handle} {a a' : Attempt κ}
  {arrivals writes : List Delivery}

/-- An arrival is of a fetch that was made for its variant, by an attempt that has it
    behind itself. -/
def Fetched (l : Loader σ κ) (d : Delivery) : Prop :=
  d.attempt ∈ l.fetches ∧ ∃ a, l.attempts[d.attempt]? = some a ∧ a.variant = d.variant
    ∧ a.stage.afterFetch = true

/-- The invariant about the way of bytes from fetches into the store. -/
structure Traced (R : Runtime κ) (arrivals writes : List Delivery) (l : Loader σ κ) : Prop where
  flight : l.Flight
  fetched : ∀ d ∈ arrivals, l.Fetched d
  /-- A fetch brings something once. -/
  once : (arrivals.map Delivery.attempt).Nodup
  carried : l.Each (Attempt.Carries R arrivals)
  accepted : ∀ w ∈ writes, w ∈ arrivals ∧ ∃ c, R.instantiate w.variant w.bytes = .ok c

theorem traced_empty (R : Runtime κ) (store : σ) :
    (empty store : Loader σ κ).Traced R [] [] where
  flight := flight_empty store
  fetched := nofun
  once := List.nodup_nil
  carried _ _ ha := nomatch ha
  accepted := nofun

/-- A fetch that was started stays on record. -/
theorem Turn.mem_fetches_of_mem (h : Turn B l n a a' l') {m : Handle} (hm : m ∈ l.fetches) :
    m ∈ l'.fetches := by
  rw [h.fetches]
  split
  · exact List.mem_append_left _ hm
  · exact hm

/-- An arrival stays one of a fetch that was made. -/
theorem Fetched.turn {d : Delivery} (h : l.Fetched d) (hturn : Turn B l n a a' l') :
    l'.Fetched d := by
  obtain ⟨hfetch, b, hb, hvariant, hafter⟩ := h
  refine ⟨hturn.mem_fetches_of_mem hfetch, ?_⟩
  by_cases hn : n = d.attempt
  · subst hn
    obtain rfl : a = b := Option.some.inj (hturn.here.symm.trans hb)
    exact ⟨a', hturn.here', hturn.next.variant_eq.trans hvariant,
      hturn.next.afterFetch_of hafter⟩
  · exact ⟨b, (hturn.others hn).trans hb, hvariant, hafter⟩

/-- **AN ATTEMPT GOES ON**, and what arrives for it is its own. -/
theorem Traced.turn (h : l.Traced B.runtime arrivals writes) (hturn : Turn B l n a a' l') :
    l'.Traced B.runtime (arrivals ++ (a.arrival? n a').toList) writes where
  flight := h.flight.turn hturn
  fetched := by
    intro d hd
    rcases List.mem_append.mp hd with hold | hnew
    · exact (h.fetched d hold).turn hturn
    · obtain ⟨hstage, rfl, hvariant, hafter⟩ := hturn.next.of_arrival? (Option.mem_toList.mp hnew)
      exact ⟨hturn.mem_fetches_of_mem (h.flight.noted _ a hturn.here hstage),
        a', hturn.here', hturn.next.variant_eq.trans hvariant.symm, hafter⟩
  once := by
    cases harrival : a.arrival? n a' with
    | none =>
        rw [Option.toList_none, List.append_nil]
        exact h.once
    | some d =>
        obtain ⟨hstage, rfl, -, -⟩ := hturn.next.of_arrival? harrival
        rw [Option.toList_some, List.map_append]
        refine List.nodup_append.mpr ⟨h.once, List.nodup_singleton _, ?_⟩
        intro m hm m' hm'
        obtain rfl := List.mem_singleton.mp hm'
        rintro rfl
        -- whatever has arrived for it is behind an attempt
        obtain ⟨d', hd', heq⟩ := List.mem_map.mp hm
        obtain ⟨-, b, hb, -, hafter⟩ := h.fetched d' hd'
        rw [heq] at hb
        obtain rfl : a = b := Option.some.inj (hturn.here.symm.trans hb)
        rw [hstage] at hafter
        exact nomatch hafter
  carried := hturn.each (hturn.next.carries (h.carried n a hturn.here))
    (fun m b _ hb => (h.carried m b hb).mono)
  accepted w hw := ⟨List.mem_append_left _ (h.accepted w hw).1, (h.accepted w hw).2⟩

/-- Only attempts, their table and their fetches matter. -/
theorem Traced.of_eq (h : l.Traced B.runtime arrivals writes)
    (hattempts : l'.attempts = l.attempts) (hflight : l'.inFlight = l.inFlight)
    (hfetches : l'.fetches = l.fetches) : l'.Traced B.runtime arrivals writes := by
  obtain ⟨store, attempts, inFlight, fetches⟩ := l
  obtain ⟨store', attempts', inFlight', fetches'⟩ := l'
  cases hattempts
  cases hflight
  cases hfetches
  exact ⟨⟨h.flight.keyed, h.flight.listed, h.flight.once, h.flight.started, h.flight.noted⟩,
    h.fetched, h.once, h.carried, h.accepted⟩

/-- An event keeps track of the bytes. -/
theorem Traced.step (h : l.Traced B.runtime arrivals writes) (event : LoaderEvent) :
    (l.step B event).Traced B.runtime
      (arrivals ++ (l.arrival? (.act (.move event))).toList) writes := by
  rcases turn_arrival B l event with ⟨hsame, hnone⟩ | ⟨n, a, a', hturn, harrival⟩
  · rw [hsame, hnone, Option.toList_none, List.append_nil]
    exact h
  · rw [harrival]
    exact h.turn hturn

/-- A call keeps track of the bytes. -/
theorem Traced.load (h : l.Traced B.runtime arrivals writes) (v : Variant) (location : String) :
    (l.load v location).2.Traced B.runtime arrivals writes := by
  by_cases hex : ∃ n, l.Unsettled v.key n
  · obtain ⟨n, hn⟩ := hex
    rw [h.flight.load_joined location hn]
    exact h
  · have hflight := h.flight.load v location
    rw [h.flight.load_started location (not_exists.mp hex)] at hflight ⊢
    exact {
      flight := hflight
      fetched := by
        intro d hd
        obtain ⟨hfetch, a, ha, hd⟩ := h.fetched d hd
        exact ⟨hfetch, a, getElem?_concat_iff.mpr (Or.inl ha), hd⟩
      once := h.once
      carried := h.carried.concat rfl trivial
      accepted := h.accepted }

/-- What an act puts into the store was carried by an attempt. -/
theorem Traced.write (h : l.Traced B.runtime arrivals writes) (x : SlowAct) :
    l.Traced B.runtime arrivals (writes ++ (l.write? x).toList) := by
  have hoffer : ∀ n w, (l.attempts[n]?).bind (Attempt.offer? n) = some w →
      w ∈ arrivals ∧ ∃ c, B.runtime.instantiate w.variant w.bytes = .ok c := by
    intro n w hw
    obtain ⟨a, ha, hw⟩ := Option.bind_eq_some_iff.mp hw
    exact (h.carried n a ha).of_offer? hw
  refine ⟨h.flight, h.fetched, h.once, h.carried, ?_⟩
  intro w hw
  rcases List.mem_append.mp hw with hold | hnew
  · exact h.accepted w hold
  · have hwrite := Option.mem_toList.mp hnew
    unfold write? at hwrite
    split at hwrite
    · exact hoffer _ w hwrite
    · exact hoffer _ w hwrite
    · cases hwrite

/-- **EVERY ACT** keeps track of the bytes. -/
theorem Traced.slow (h : l.Traced B.runtime arrivals writes) (x : SlowAct) :
    (l.slow B x).Traced B.runtime (arrivals ++ (l.arrival? x).toList)
      (writes ++ (l.write? x).toList) := by
  have hwritten := h.write x
  generalize writes ++ (l.write? x).toList = writes' at hwritten ⊢
  cases x with
  | act y =>
      cases y with
      | load v location =>
          show (l.load v location).2.Traced B.runtime (arrivals ++ []) writes'
          rw [List.append_nil]
          exact hwritten.load v location
      | move event => exact hwritten.step event
  | put n =>
      show (l.written B n).Traced B.runtime (arrivals ++ []) writes'
      rw [List.append_nil]
      simp only [Loader.written]
      split
      · exact hwritten.of_eq rfl rfl rfl
      · exact hwritten
  | release n =>
      -- letting go of a key is what keeping does beside the store
      exact (hwritten.step (.keep n)).of_eq rfl rfl rfl

/-- **IN EVERY RUN** there is track of the bytes. -/
theorem traced_slowly (B : Backend σ κ) (store : σ) (list : List SlowAct) :
    ((empty store : Loader σ κ).slowly B list).Traced B.runtime
      (Loader.arrivals B (empty store) list) (Loader.writes B (empty store) list) := by
  induction list using List.reverseRecOn with
  | nil => exact traced_empty B.runtime store
  | append_singleton list x ih =>
      simp only [Loader.arrivals, Loader.writes] at ih ⊢
      rw [slowly_concat, trail_concat, trail_concat]
      exact ih.slow x

end Loader

/-! ## Into the store -/

/-- What an act has to do with the store, with what it writes. -/
inductive Store.Visit (S : Store σ) (s : σ) : Option Delivery → σ → Prop
  | aside : Visit S s none s
  | look (v : Variant) : Visit S s none (S.get v.key s).2
  | write (w) : Visit S s (some w) (S.put w.variant w.bytes s)

namespace Loader

variable {B : Backend σ κ}

/-- Asking the store is a look into it. -/
theorem visit_look (B : Backend σ κ) (l : Loader σ κ) (n : Handle) :
    B.store.Visit l.store none (l.look B n).store := by
  simp only [look]
  split
  next v location product hn =>
    have hvisit := Store.Visit.look (S := B.store) (s := l.store) v
    split
    next bytes store hs =>
      rw [hs] at hvisit
      exact hvisit
    next store hs =>
      rw [hs] at hvisit
      exact hvisit
  next => exact .aside

/-- Bringing bytes to life leaves the store alone. -/
theorem store_make (B : Backend σ κ) (l : Loader σ κ) (n : Handle) :
    (l.make B n).store = l.store := by
  simp only [make]
  split
  · split <;> rfl
  · split <;> rfl
  · rfl

/-- The end of a fetch leaves the store alone. -/
theorem store_fetched (l : Loader σ κ) (n : Handle) (result : Except String Bytes) :
    (l.fetched n result).store = l.store := by
  simp only [fetched]
  split
  · cases result <;> rfl
  · rfl

/-- Bytes are put for the attempt that offers them. -/
theorem visit_written (B : Backend σ κ) (l : Loader σ κ) (n : Handle) :
    B.store.Visit l.store ((l.attempts[n]?).bind (Attempt.offer? n)) (l.written B n).store := by
  cases hn : l.attempts[n]? with
  | none =>
      simp only [written]
      rw [hn]
      exact .aside
  | some a =>
      obtain ⟨v, location, stage, product⟩ := a
      simp only [written]
      rw [hn]
      cases stage with
      | keeping bytes => exact .write ⟨n, v, bytes⟩
      | _ => exact .aside

/-- An act visits the store at most once, and writes what the attempt offers. -/
theorem visit_slow (B : Backend σ κ) (l : Loader σ κ) (x : SlowAct) :
    B.store.Visit l.store (l.write? x) (l.slow B x).store := by
  cases x with
  | act y =>
      cases y with
      | load v location =>
          show B.store.Visit l.store none (l.load v location).2.store
          rw [store_load]
          exact .aside
      | move event =>
          cases event with
          | look n => exact visit_look B l n
          | make n =>
              show B.store.Visit l.store none (l.make B n).store
              rw [store_make]
              exact .aside
          | fetched n result =>
              show B.store.Visit l.store none (l.fetched n result).store
              rw [store_fetched]
              exact .aside
          | keep n =>
              show B.store.Visit l.store _ (l.keep B n).store
              rw [← release_written]
              exact visit_written B l n
  | put n => exact visit_written B l n
  | release n => exact .aside

end Loader

section accounts

variable {S : Store σ} {Open : σ → Prop} {entries : σ → List MemoryEntry} {s s' : σ}
  {writes : List Delivery} {write? : Option Delivery}

/-- The invariant about what a store keeps that was empty to start with. -/
structure Store.Accounted (Open : σ → Prop) (entries : σ → List MemoryEntry)
    (writes : List Delivery) (s : σ) : Prop where
  opened : entries s ≠ [] → Open s
  tidy : MemoryStore.labels.Tidy (entries s)
  source : ∀ e ∈ entries s, ∃ w ∈ writes, e = w.variant.entry w.bytes
  newest : ∀ e ∈ entries s, ∃ w, writes.getLast? = some w ∧ e.version = w.variant.version

/-- An empty store has nothing to account for. -/
theorem Store.accounted_of_empty (h : entries s = []) : Accounted Open entries [] s where
  opened hne := absurd h hne
  tidy := h ▸ Labels.tidy_nil _
  source := h ▸ nofun
  newest := h ▸ nofun

/-- A store that is open keeps what is put; one that is not has nothing to forget. -/
theorem Store.Accounted.put (h : Accounted Open entries writes s)
    (hstore : S.Shelves Open entries) (w : Delivery) :
    Accounted Open entries (writes ++ [w]) (S.put w.variant w.bytes s) := by
  by_cases hopen : Open s
  · have hentries := hstore.entries_put hopen w.variant w.bytes
    refine ⟨fun _ => hstore.open_put hopen w.variant w.bytes, ?_, ?_, ?_⟩
    · rw [hentries]
      exact h.tidy.shelve rfl rfl
    · rw [hentries]
      intro e he
      rcases Labels.mem_shelve.mp he with rfl | ⟨hold, -, -⟩
      · exact ⟨w, List.mem_append_right _ List.mem_cons_self, rfl⟩
      · obtain ⟨w', hw', heq⟩ := h.source e hold
        exact ⟨w', List.mem_append_left _ hw', heq⟩
    · rw [hentries]
      intro e he
      exact ⟨w, List.getLast?_concat, Labels.version_of_mem_shelve he⟩
  · have hempty : entries s = [] := by
      by_contra hne
      exact hopen (h.opened hne)
    have hentries := (hstore.entries_forgotten hopen w.variant w.bytes).trans hempty
    exact ⟨fun hne => absurd hentries hne, hentries ▸ Labels.tidy_nil _, hentries ▸ nofun,
      hentries ▸ nofun⟩

/-- A visit leaves the entries accounted for. -/
theorem Store.Accounted.visit (h : Accounted Open entries writes s)
    (hstore : S.Shelves Open entries) (hvisit : S.Visit s write? s') :
    Accounted Open entries (writes ++ write?.toList) s' := by
  cases hvisit with
  | aside =>
      rw [Option.toList_none, List.append_nil]
      exact h
  | look v =>
      have hentries := hstore.entries_get s v.key
      rw [Option.toList_none, List.append_nil]
      refine ⟨?_, ?_, ?_, ?_⟩
      · rw [hentries]
        exact fun hne => hstore.open_get (h.opened hne) v.key
      · exact hentries ▸ h.tidy
      · exact hentries ▸ h.source
      · exact hentries ▸ h.newest
  | write w => exact h.put hstore w

/-- What a visit changes about the entries: nothing, or what is written goes on the
    shelf under the key of its own variant. -/
theorem Store.Visit.entries_eq (hvisit : S.Visit s write? s') (hstore : S.Shelves Open entries) :
    entries s' = entries s ∨ ∃ w, write? = some w
      ∧ entries s' = MemoryStore.labels.shelve (w.variant.entry w.bytes) (entries s) := by
  cases hvisit with
  | aside => exact Or.inl rfl
  | look v => exact Or.inl (hstore.entries_get s v.key)
  | write w =>
      by_cases hopen : Open s
      · exact Or.inr ⟨w, rfl, hstore.entries_put hopen w.variant w.bytes⟩
      · exact Or.inl (hstore.entries_forgotten hopen w.variant w.bytes)

end accounts

namespace Loader

variable {entries : σ → List MemoryEntry}

/-- In every run the entries are accounted for. -/
theorem accounted_slowly {B : Backend σ κ} {Open : σ → Prop} {store : σ}
    (hstore : B.store.Shelves Open entries) (hempty : entries store = []) (list : List SlowAct) :
    Store.Accounted Open entries (writes B (empty store) list)
      ((empty store : Loader σ κ).slowly B list).store := by
  induction list using List.reverseRecOn with
  | nil => exact Store.accounted_of_empty hempty
  | append_singleton list x ih =>
      simp only [writes] at ih ⊢
      rw [slowly_concat, trail_concat]
      exact ih.visit hstore (visit_slow B _ x)

section found

variable {B : Backend σ κ} {store : σ} {v : Variant} {bytes : Bytes}

/-- Whatever is found for a variant was put for this variant. -/
theorem written_of_found (hkept : B.store.KeptBy entries) (hempty : entries store = [])
    {list : List SlowAct}
    (hget : (B.store.get v.key ((empty store : Loader σ κ).slowly B list).store).1 = some bytes) :
    ∃ w ∈ writes B (empty store) list, w.variant = v ∧ w.bytes = bytes := by
  obtain ⟨Open, hstore⟩ := hkept.shelves
  obtain ⟨e, he, hkey, hbytes⟩ := hstore.found hget
  obtain ⟨w, hw, rfl⟩ := (accounted_slowly hstore hempty list).source e he
  exact ⟨w, hw, Variant.key_injective hkey, hbytes⟩

end found

/-- **WHAT IS KEPT WAS FETCHED FOR ITS VARIANT**.  Over a store that starts without
    entries and is written by a loader alone, however the attempts of the loader
    overlap and whatever versions and builds they are for:

    * there are at most two entries, and all are of the version of the attempt that
      has put something last;
    * each entry is of a variant and the bytes that were put for it;
    * whatever was put is what a fetch brought for this very variant, and it has come
      to life for it;
    * an attempt that gets bytes from its fetch has made one for its variant, and it
      gets something only once;
    * so an attempt whose fetched bytes do not come to life never puts anything;
    * whatever an act changes about the entries, it is that an attempt puts its bytes
      under the key of its own variant;
    * and whatever is found for a variant was put for this variant. -/
theorem entries_come_from_fetches (B : Backend σ κ) (hkept : B.store.KeptBy entries) (store : σ)
    (hempty : entries store = []) (list : List SlowAct) :
    let l := (empty store).slowly B list
    let arrivals := arrivals B (empty store) list
    let writes := writes B (empty store) list
    ((entries l.store).length ≤ 2 ∧ ∀ e ∈ entries l.store, ∃ w, writes.getLast? = some w
      ∧ e.version = w.variant.version) ∧
    (∀ e ∈ entries l.store, ∃ w ∈ writes, e = ⟨w.variant.key, w.variant.version, w.bytes⟩) ∧
    (∀ w ∈ writes, w ∈ arrivals ∧ ∃ c, B.runtime.instantiate w.variant w.bytes = .ok c) ∧
    ((∀ d ∈ arrivals, d.attempt ∈ l.fetches ∧
      ∃ a, l.attempts[d.attempt]? = some a ∧ a.variant = d.variant) ∧
      (arrivals.map Delivery.attempt).Nodup) ∧
    (∀ d ∈ arrivals, ∀ e, B.runtime.instantiate d.variant d.bytes = .error e →
      ∀ w ∈ writes, w.attempt ≠ d.attempt) ∧
    (∀ x, entries (l.slow B x).store = entries l.store ∨
      ∃ w, l.write? x = some w
        ∧ (∃ a, l.attempts[w.attempt]? = some a ∧ a.variant = w.variant)
        ∧ entries (l.slow B x).store = MemoryStore.labels.shelve
            ⟨w.variant.key, w.variant.version, w.bytes⟩ (entries l.store)) ∧
    (∀ v bytes, (B.store.get v.key l.store).1 = some bytes →
      ∃ w ∈ writes, w.variant = v ∧ w.bytes = bytes) := by
  intro l arrivals writes
  obtain ⟨Open, hstore⟩ := hkept.shelves
  have htraced : l.Traced B.runtime arrivals writes := traced_slowly B store list
  have haccounted : Store.Accounted Open entries writes l.store :=
    accounted_slowly hstore hempty list
  refine ⟨⟨haccounted.tidy.length_le_two, haccounted.newest⟩, haccounted.source,
    htraced.accepted, ⟨?_, htraced.once⟩, ?_, ?_, ?_⟩
  · intro d hd
    obtain ⟨hfetch, a, ha, hvariant, -⟩ := htraced.fetched d hd
    exact ⟨hfetch, a, ha, hvariant⟩
  · intro d hd e hdead w hw hattempt
    obtain ⟨harrived, c, halive⟩ := htraced.accepted w hw
    -- one attempt has one arrival, so what was put are the bytes that are dead
    obtain rfl := List.inj_on_of_nodup_map htraced.once harrived hd hattempt
    rw [halive] at hdead
    exact nomatch hdead
  · intro x
    rcases (visit_slow B l x).entries_eq hstore with hsame | ⟨w, hw, hshelved⟩
    · exact Or.inl hsame
    · have hwrite := (htraced.write x).accepted w
        (List.mem_append_right _ (Option.mem_toList.mpr hw))
      obtain ⟨-, a, ha, hvariant, -⟩ := htraced.fetched w hwrite.1
      exact Or.inr ⟨w, hw, ⟨a, ha, hvariant⟩, hshelved⟩
  · intro v bytes hget
    exact written_of_found hkept hempty hget

/-- A reader of one version and an engine of another are fetched at the same time, and
    so is a module that does not come to life.  The reader is put first; the engine is
    put before the reader lets go of its key. -/
def overlap : List SlowAct :=
  [.act (.load ⟨.reader, "1"⟩ "r"), .act (.load ⟨.engine, "2"⟩ "e"),
    .act (.load ⟨.reader, "2"⟩ "x"), .act (.move (.look 0)), .act (.move (.look 1)),
    .act (.move (.look 2)), .act (.move (.fetched 1 (.ok (Utf8.encode "engine")))),
    .act (.move (.fetched 0 (.ok (Utf8.encode "reader")))),
    .act (.move (.fetched 2 (.ok [0]))), .act (.move (.make 0)), .act (.move (.make 2)),
    .act (.move (.make 1)), .put 0, .put 1, .release 0, .release 1]

/-- What is kept in the end is the engine, and the module that is dead was never put. -/
theorem overlap_keeps_engine :
    StandIn.backend.store.KeptBy MemoryStore.entries ∧ MemoryStore.empty.entries = [] ∧
    ((empty MemoryStore.empty).slowly StandIn.backend overlap).store.entries ≠ [] ∧
    (∀ e ∈ ((empty MemoryStore.empty).slowly StandIn.backend overlap).store.entries,
      e.version = "2") ∧
    ∀ w ∈ writes StandIn.backend (empty MemoryStore.empty) overlap, w.attempt ≠ 2 := by
  have hlast : (writes StandIn.backend (empty MemoryStore.empty) overlap).getLast?
      = some ⟨1, ⟨.engine, "2"⟩, Utf8.encode "engine"⟩ := by decide
  have harrived : ⟨2, ⟨.reader, "2"⟩, [0]⟩
      ∈ arrivals StandIn.backend (empty MemoryStore.empty) overlap := by decide
  obtain ⟨⟨-, hnewest⟩, -, -, -, hdead, -⟩ :=
    entries_come_from_fetches StandIn.backend .memory MemoryStore.empty rfl overlap
  have hrefused : StandIn.backend.runtime.instantiate ⟨.reader, "2"⟩ [0] = .error
      (.instantiate (Variant.key ⟨.reader, "2"⟩) "entry point did not register a capability") := by
    rfl
  refine ⟨.memory, rfl, by decide, ?_, hdead _ harrived _ hrefused⟩
  intro e he
  obtain ⟨w, hw, hversion⟩ := hnewest e he
  rw [hlast] at hw
  cases hw
  exact hversion

end Loader
end PhaseHost
