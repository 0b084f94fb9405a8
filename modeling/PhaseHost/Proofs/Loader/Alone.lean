import PhaseHost.Proofs.Loader.Provenance

/-! # One load by itself

    A load that nothing else comes in between asks the store, tries what it finds
    there, and fetches if that does not come to life.  So it has a few ways to end,
    and on each of them the store, the fetches and the error are told exactly.

    * `Course` lists how far the attempt of such a load can be, with what has become of
      the store and of the fetches by then.  Whatever serves the attempt keeps it on its
      course (`OnCourse.serve`), in whatever order that happens.
    * Going on is a DESCENT: each arrow of an attempt leaves less to do, and while there
      is something to do, something serves the attempt that does it.  So every such load
      can be brought to its end.

    What the store holds never decides whether a load succeeds that would succeed
    without a store: bytes that do not come to life cost the fetch that would have
    been made anyway. -/

namespace PhaseHost

variable {σ κ : Type}

/-- What comes of a load without a store: what was fetched is brought to life. -/
def Runtime.fresh (R : Runtime κ) (v : Variant) (location : String) :
    Except String Bytes → Except LoadError κ
  | .ok bytes => R.instantiate v bytes
  | .error message => .error (.fetch location message)

/-- A load, by what the loader was when it was made, and how its fetch ends whenever it
    makes one. -/
structure Errand (σ κ : Type) where
  before : Loader σ κ
  variant : Variant
  location : String
  result : Except String Bytes

/-- The number of the attempt that the load starts. -/
def Errand.number (e : Errand σ κ) : Handle :=
  e.before.attempts.length

/-- What would come of the load without a store. -/
def Errand.fresh (B : Backend σ κ) (e : Errand σ κ) : Except LoadError κ :=
  B.runtime.fresh e.variant e.location e.result

/-- What happens to an attempt and to nothing else; a fetch ends with the one result. -/
inductive LoaderEvent.Serves (n : Handle) (result : Except String Bytes) : LoaderEvent → Prop
  | look : Serves n result (.look n)
  | make : Serves n result (.make n)
  | fetched : Serves n result (.fetched n result)
  | keep : Serves n result (.keep n)

/-! ## The course of an attempt -/

namespace Errand

/-- The store was asked, and nothing that it holds comes to life. -/
structure Cold (B : Backend σ κ) (e : Errand σ κ) (s : σ) : Prop where
  asked : (B.store.get e.variant.key e.before.store).2 = s
  dead : ∀ bytes c, (B.store.get e.variant.key e.before.store).1 = some bytes →
    B.runtime.instantiate e.variant bytes ≠ .ok c

/-- The store was asked, and it holds bytes. -/
def Holds (B : Backend σ κ) (e : Errand σ κ) (bytes : Bytes) (s : σ) : Prop :=
  B.store.get e.variant.key e.before.store = (some bytes, s)

/-- How far the attempt can be, with the store and the fetches as they are by then. -/
inductive Course (B : Backend σ κ) (e : Errand σ κ) : Attempt κ → σ → List Handle → Prop
  | looking : Course B e ⟨e.variant, e.location, .looking, none⟩ e.before.store e.before.fetches
  | trying {bytes s} (held : e.Holds B bytes s) :
      Course B e ⟨e.variant, e.location, .trying bytes, none⟩ s e.before.fetches
  | revived {bytes s c} (held : e.Holds B bytes s)
      (alive : B.runtime.instantiate e.variant bytes = .ok c) :
      Course B e ⟨e.variant, e.location, .settled (.ok e.number), some c⟩ s e.before.fetches
  | fetching {s} (cold : e.Cold B s) :
      Course B e ⟨e.variant, e.location, .fetching, none⟩ s (e.before.fetches ++ [e.number])
  | lost {s message} (cold : e.Cold B s) (failed : e.result = .error message) :
      Course B e ⟨e.variant, e.location, .settled (.error (.fetch e.location message)), none⟩ s
        (e.before.fetches ++ [e.number])
  | making {s bytes} (cold : e.Cold B s) (brought : e.result = .ok bytes) :
      Course B e ⟨e.variant, e.location, .making bytes, none⟩ s (e.before.fetches ++ [e.number])
  | refused {s bytes error} (cold : e.Cold B s) (brought : e.result = .ok bytes)
      (dead : B.runtime.instantiate e.variant bytes = .error error) :
      Course B e ⟨e.variant, e.location, .settled (.error error), none⟩ s
        (e.before.fetches ++ [e.number])
  | keeping {s bytes c} (cold : e.Cold B s) (brought : e.result = .ok bytes)
      (alive : B.runtime.instantiate e.variant bytes = .ok c) :
      Course B e ⟨e.variant, e.location, .keeping bytes, some c⟩ s
        (e.before.fetches ++ [e.number])
  | kept {s bytes c} (cold : e.Cold B s) (brought : e.result = .ok bytes)
      (alive : B.runtime.instantiate e.variant bytes = .ok c) :
      Course B e ⟨e.variant, e.location, .settled (.ok e.number), some c⟩
        (B.store.put e.variant bytes s) (e.before.fetches ++ [e.number])

/-- The attempt of a load is on its course. -/
def OnCourse (B : Backend σ κ) (e : Errand σ κ) (l : Loader σ κ) : Prop :=
  ∃ a, l.attempts[e.number]? = some a ∧ e.Course B a l.store l.fetches

end Errand

namespace Loader

variable {l : Loader σ κ} {a : Attempt κ} {n : Handle} {event : LoaderEvent}
  {result : Except String Bytes}

theorem advance_here (here : l.attempts[n]? = some a) (stage : AttemptStage) :
    (l.advance n stage).attempts[n]? = some { a with stage := stage } := by
  show (l.attempts.modify n _)[n]? = _
  rw [List.getElem?_modify_eq, here]
  rfl

/-- What serves an attempt turns it or changes nothing. -/
theorem turn_serves (B : Backend σ κ) (l : Loader σ κ) (h : event.Serves n result) :
    l.step B event = l ∨ ∃ a a', Turn B l n a a' (l.step B event) := by
  cases h with
  | look => exact turn_look B l n
  | make => exact turn_make B l n
  | fetched => exact turn_fetched B l n result
  | keep => exact turn_keep B l n

end Loader

namespace Errand

variable {B : Backend σ κ} {e : Errand σ κ} {l : Loader σ κ} {a a' : Attempt κ}
  {event : LoaderEvent} {s s' : σ} {fetches : List Handle}

open Loader

/-- An attempt that waits for its fetch goes on with the result of the fetch only. -/
theorem OnCourse.serve_fetching (here : l.attempts[e.number]? = some a)
    (h : e.Course B a l.store l.fetches) (hstage : a.stage = .fetching)
    (hserves : event.Serves e.number e.result) : e.OnCourse B (l.step B event) := by
  obtain ⟨hlook, hmake, hkeep⟩ := step_of_fetching B here hstage
  have hstep : l.step B event = l ∨ event = .fetched e.number e.result := by
    cases hserves with
    | look => exact Or.inl hlook
    | make => exact Or.inl hmake
    | keep => exact Or.inl hkeep
    | fetched => exact Or.inr rfl
  rcases hstep with hstay | rfl
  · rw [hstay]
    exact ⟨a, here, h⟩
  generalize hs : l.store = s, hf : l.fetches = fetches at h
  cases h with
  | fetching cold =>
      show e.OnCourse B (l.fetched e.number e.result)
      simp only [fetched, here]
      cases hresult : e.result with
      | ok bytes =>
          refine ⟨_, advance_here here (.making bytes), ?_⟩
          show e.Course B _ l.store l.fetches
          rw [hs, hf]
          exact .making cold hresult
      | error message =>
          refine ⟨_, advance_here here (.settled (.error (.fetch e.location message))), ?_⟩
          show e.Course B _ l.store l.fetches
          rw [hs, hf]
          exact .lost cold hresult
  | looking => cases hstage
  | trying held => cases hstage
  | revived held alive => cases hstage
  | lost cold failed => cases hstage
  | making cold brought => cases hstage
  | refused cold brought dead => cases hstage
  | keeping cold brought alive => cases hstage
  | kept cold brought alive => cases hstage

/-- Any other attempt goes on along its arrow, dealing with the store as it is. -/
theorem Course.turn (h : e.Course B a s fetches) (hstage : a.stage ≠ .fetching)
    (hnext : Attempt.Next B.runtime e.number a a') (hdeal : Deal B.store s a a' s') :
    e.Course B a' s' (match a'.stage with
      | .fetching => fetches ++ [e.number]
      | _ => fetches) := by
  cases h with
  | looking =>
      cases hnext with
      | hit bytes =>
          cases hdeal with
          | found get => exact .trying get
          | aside away => exact nomatch away
      | miss =>
          cases hdeal with
          | missing get =>
              refine .fetching ⟨congrArg Prod.snd get, ?_⟩
              intro bytes c hheld
              rw [get] at hheld
              exact nomatch hheld
          | aside away => exact nomatch away
  | trying held =>
      cases hnext with
      | revived alive =>
          cases hdeal with
          | aside away => exact .revived held alive
      | unusable dead =>
          cases hdeal with
          | aside away =>
              refine .fetching ⟨congrArg Prod.snd held, ?_⟩
              intro bytes' c hheld alive
              -- the bytes that are held are those that were found dead
              rw [held] at hheld
              obtain rfl := Option.some.inj hheld
              rw [dead] at alive
              exact nomatch alive
  | fetching cold => exact absurd rfl hstage
  | making cold brought =>
      cases hnext with
      | brought alive =>
          cases hdeal with
          | aside away => exact .keeping cold brought alive
      | refused dead =>
          cases hdeal with
          | aside away => exact .refused cold brought dead
  | keeping cold brought alive =>
      cases hnext with
      | kept =>
          cases hdeal with
          | put => exact .kept cold brought alive
          | aside away => exact nomatch away
  | revived held alive => exact nomatch hnext
  | lost cold failed => exact nomatch hnext
  | refused cold brought dead => exact nomatch hnext
  | kept cold brought alive => exact nomatch hnext

/-- **ON COURSE**: whatever serves the attempt of a load keeps it on its course. -/
theorem OnCourse.serve (h : e.OnCourse B l) (hserves : event.Serves e.number e.result) :
    e.OnCourse B (l.step B event) := by
  obtain ⟨a, here, hcourse⟩ := h
  by_cases hstage : a.stage = .fetching
  · exact serve_fetching here hcourse hstage hserves
  rcases turn_serves B l hserves with hstay | ⟨a₁, a', hturn⟩
  · rw [hstay]
    exact ⟨a, here, hcourse⟩
  · obtain rfl : a = a₁ := Option.some.inj (here.symm.trans hturn.here)
    refine ⟨a', hturn.here', ?_⟩
    rw [hturn.fetches]
    exact hcourse.turn hstage hturn.next hturn.deal

end Errand

namespace Loader

variable {B : Backend σ κ} {l : Loader σ κ} {e : Errand σ κ}

/-- What a sequence of events does. -/
def run (B : Backend σ κ) (l : Loader σ κ) (events : List LoaderEvent) : Loader σ κ :=
  events.foldl (step B) l

theorem onCourse_run (h : e.OnCourse B l) (events : List LoaderEvent)
    (hserves : ∀ event ∈ events, event.Serves e.number e.result) :
    e.OnCourse B (l.run B events) := by
  induction events generalizing l with
  | nil => exact h
  | cons event events ih =>
      obtain ⟨hfirst, hrest⟩ := List.forall_mem_cons.mp hserves
      exact ih (h.serve hfirst) hrest

end Loader

/-! ## Its end -/

/-- How many arrows are left at most. -/
def AttemptStage.left : AttemptStage → Nat
  | .looking => 5
  | .trying _ => 4
  | .fetching => 3
  | .making _ => 2
  | .keeping _ => 1
  | .settled _ => 0

theorem Attempt.Next.left_lt {R : Runtime κ} {n : Handle} {a a' : Attempt κ}
    (h : Next R n a a') : a'.stage.left < a.stage.left := by
  cases h <;> simp only [AttemptStage.left, Nat.lt_add_one, Nat.reduceLT]

namespace Loader

variable {B : Backend σ κ} {l : Loader σ κ} {a : Attempt κ} {n : Handle}

/-- Something serves an attempt that has not ended. -/
theorem exists_turn (B : Backend σ κ) (result : Except String Bytes)
    (here : l.attempts[n]? = some a) (hun : a.outcome? = none) :
    ∃ event, event.Serves n result ∧ ∃ a', Turn B l n a a' (l.step B event) := by
  have hstage := stage?_of_here here
  have hown {l' : Loader σ κ} (h : ∃ b a', Turn B l n b a' l') : ∃ a', Turn B l n a a' l' := by
    obtain ⟨b, a', hturn⟩ := h
    obtain rfl : a = b := Option.some.inj (here.symm.trans hturn.here)
    exact ⟨a', hturn⟩
  cases hs : a.stage with
  | looking =>
      rw [hs] at hstage
      exact ⟨_, .look, hown ((turn_look B l n).resolve_left (look_moves hstage))⟩
  | trying bytes =>
      rw [hs] at hstage
      exact ⟨_, .make, hown ((turn_make B l n).resolve_left (make_moves_trying hstage))⟩
  | fetching =>
      rw [hs] at hstage
      have hmoves := fetched_moves hstage result
      exact ⟨_, .fetched, hown ((turn_fetched B l n result).resolve_left hmoves)⟩
  | making bytes =>
      rw [hs] at hstage
      exact ⟨_, .make, hown ((turn_make B l n).resolve_left (make_moves_making hstage))⟩
  | keeping bytes =>
      rw [hs] at hstage
      exact ⟨_, .keep, hown ((turn_keep B l n).resolve_left (keep_moves hstage))⟩
  | settled outcome =>
      simp only [Attempt.outcome?, hs] at hun
      cases hun

/-- **DESCENT**: every attempt can be served until it has ended. -/
theorem exists_end (B : Backend σ κ) (result : Except String Bytes)
    (here : l.attempts[n]? = some a) :
    ∃ more, (∀ event ∈ more, event.Serves n result) ∧ ((l.run B more).outcome? n).isSome := by
  induction hleft : a.stage.left using Nat.strongRecOn generalizing l a with
  | ind left ih =>
      cases hout : a.outcome? with
      | some outcome =>
          refine ⟨[], nofun, ?_⟩
          show ((l.attempts[n]?).bind Attempt.outcome?).isSome
          rw [here, Option.bind_some, hout]
          rfl
      | none =>
          obtain ⟨event, hserves, a', hturn⟩ := exists_turn B result here hout
          obtain ⟨more, hmore, hend⟩ :=
            ih a'.stage.left (hleft ▸ hturn.next.left_lt) hturn.here' rfl
          exact ⟨event :: more, List.forall_mem_cons.mpr ⟨hserves, hmore⟩, hend⟩

end Loader

/-! ## What it comes to -/

namespace Errand

variable {B : Backend σ κ} {e : Errand σ κ} {l : Loader σ κ} {a : Attempt κ}
  {entries : σ → List MemoryEntry} {Open : σ → Prop} {outcome : Except LoadError Handle}

open Loader

/-- A load that starts an attempt starts it on its course. -/
theorem onCourse_load (hfree : e.before.current? e.variant.key = none) :
    e.OnCourse B (e.before.load e.variant e.location).2 := by
  simp only [load, hfree]
  exact ⟨_, getElem?_concat_iff.mpr (Or.inr ⟨rfl, rfl⟩), .looking⟩

theorem Course.location_eq {s : σ} {fetches : List Handle} (h : e.Course B a s fetches) :
    a.location = e.location := by
  cases h <;> rfl

/-- What a load comes to: with bytes of the store that come to life, these and nothing
    else; without such bytes, what the fetch brings. -/
theorem Course.settled {s : σ} {fetches : List Handle} (h : e.Course B a s fetches)
    (hout : a.outcome? = some outcome) :
    (∃ bytes c, e.Holds B bytes s ∧ B.runtime.instantiate e.variant bytes = .ok c
        ∧ outcome = .ok e.number ∧ a.product = some c ∧ fetches = e.before.fetches)
    ∨ (fetches = e.before.fetches ++ [e.number] ∧ ∃ s', e.Cold B s'
      ∧ ((∃ bytes c, e.result = .ok bytes ∧ e.fresh B = .ok c ∧ outcome = .ok e.number
          ∧ a.product = some c ∧ s = B.store.put e.variant bytes s')
        ∨ ∃ error, e.fresh B = .error error ∧ outcome = .error error ∧ s = s')) := by
  cases h with
  | looking => exact nomatch hout
  | trying held => exact nomatch hout
  | fetching cold => exact nomatch hout
  | making cold brought => exact nomatch hout
  | keeping cold brought alive => exact nomatch hout
  | revived held alive =>
      obtain rfl := Option.some.inj hout
      exact Or.inl ⟨_, _, held, alive, rfl, rfl, rfl⟩
  | lost cold failed =>
      obtain rfl := Option.some.inj hout
      exact Or.inr ⟨rfl, _, cold, Or.inr ⟨_, congrArg (B.runtime.fresh _ _) failed, rfl, rfl⟩⟩
  | refused cold brought dead =>
      obtain rfl := Option.some.inj hout
      have hfresh := (congrArg (B.runtime.fresh e.variant e.location) brought).trans dead
      exact Or.inr ⟨rfl, _, cold, Or.inr ⟨_, hfresh, rfl, rfl⟩⟩
  | kept cold brought alive =>
      obtain rfl := Option.some.inj hout
      have hfresh := (congrArg (B.runtime.fresh e.variant e.location) brought).trans alive
      exact Or.inr ⟨rfl, _, cold, Or.inl ⟨_, _, brought, hfresh, rfl, rfl, rfl⟩⟩

theorem Holds.entries_eq {s : σ} {bytes : Bytes} (h : e.Holds B bytes s)
    (hkept : B.store.KeptWhile Open entries) : entries s = entries e.before.store := by
  have hs : (B.store.get e.variant.key e.before.store).2 = s := congrArg Prod.snd h
  rw [← hs]
  exact hkept.shelves.entries_get _ _

theorem Cold.entries_eq {s : σ} (h : e.Cold B s) (hkept : B.store.KeptWhile Open entries) :
    entries s = entries e.before.store := by
  rw [← h.asked]
  exact hkept.shelves.entries_get _ _

/-- Bytes that are put are found, and what is left beside them is of their version. -/
theorem Cold.put {s : σ} (h : e.Cold B s) (hkept : B.store.KeptWhile Open entries)
    (hopen : Open e.before.store) (bytes : Bytes) :
    (B.store.get e.variant.key (B.store.put e.variant bytes s)).1 = some bytes
      ∧ ∀ entry ∈ entries (B.store.put e.variant bytes s), entry.version = e.variant.version := by
  have hopen' : Open s := by
    rw [← h.asked]
    exact hkept.shelves.open_get hopen _
  refine ⟨hkept.get_put hopen' e.variant bytes, ?_⟩
  intro entry hmem
  rw [hkept.shelves.entries_put hopen'] at hmem
  exact Labels.version_of_mem_shelve hmem

end Errand

namespace Loader

variable {entries : σ → List MemoryEntry} {Open : σ → Prop}

/-- **NO STORE MAKES A LOAD FAIL**, whatever it holds under whatever keys.

    Let a load start an attempt, and let nothing else come in between.  It can be brought
    to its end, and at its end:  If the bytes that the store holds for the variant come to
    life, the load has what they came to, it has fetched nothing, and the store is as it
    was.  Otherwise it has made one fetch, of its location, and it ends as it would without
    a store: with what the fetched bytes came to, and then they are found under the key of
    the variant and all entries are of its version; or with the error of the fetch or of
    bringing the fetched bytes to life, and then the store is as it was.  So whenever the
    fetched bytes come to life, the load succeeds. -/
theorem store_makes_no_load_fail (B : Backend σ κ) (hkept : B.store.KeptWhile Open entries)
    (l : Loader σ κ) (v : Variant) (location : String) (hfree : l.current? v.key = none)
    (result : Except String Bytes) (events : List LoaderEvent)
    (hserves : ∀ event ∈ events, event.Serves (l.load v location).1 result) :
    let n := (l.load v location).1
    let l' := (l.load v location).2.run B events
    let held? := (B.store.get v.key l.store).1
    let fresh := B.runtime.fresh v location result
    (∃ more, (∀ event ∈ more, event.Serves n result)
        ∧ ((l'.run B more).outcome? n).isSome)
    ∧ ∀ outcome, l'.outcome? n = some outcome →
      (∀ bytes c, held? = some bytes → B.runtime.instantiate v bytes = .ok c →
        outcome = .ok n ∧ l'.product? n = some c ∧ l'.fetches = l.fetches
        ∧ entries l'.store = entries l.store)
      ∧ ((∀ bytes c, held? = some bytes → B.runtime.instantiate v bytes ≠ .ok c) →
        l'.fetches = l.fetches ++ [n]
        ∧ (l'.attempts[n]?).map Attempt.location = some location
        ∧ (∀ c, fresh = .ok c → outcome = .ok n ∧ l'.product? n = some c
          ∧ (Open l.store → ∃ bytes, result = .ok bytes
            ∧ (B.store.get v.key l'.store).1 = some bytes
            ∧ ∀ entry ∈ entries l'.store, entry.version = v.version))
        ∧ ∀ error, fresh = .error error → outcome = .error error
          ∧ entries l'.store = entries l.store)
      ∧ ∀ c, fresh = .ok c → outcome = .ok n := by
  intro n l' held? fresh
  let e : Errand σ κ := ⟨l, v, location, result⟩
  have hn : n = e.number := by
    show (l.load v location).1 = l.attempts.length
    simp only [load, hfree]
  have hserves' : ∀ event ∈ events, event.Serves e.number e.result := by
    rw [← hn]
    exact hserves
  have hstart : e.OnCourse B (l.load v location).2 := Errand.onCourse_load (e := e) hfree
  obtain ⟨a, here, hcourse⟩ := onCourse_run hstart events hserves'
  rw [hn]
  refine ⟨exists_end B result here, ?_⟩
  intro outcome hout
  have houta : a.outcome? = some outcome := by
    rw [outcome?, here] at hout
    exact hout
  have hproduct : l'.product? e.number = a.product := by
    rw [product?, here]
    rfl
  rw [hproduct]
  rcases hcourse.settled houta with
    ⟨bytes, c, held, alive, rfl, hc, hfetches⟩ | ⟨hfetches, s', cold, hend⟩
  · -- what the store holds comes to life
    have hheld : held? = some bytes := congrArg Prod.fst held
    refine ⟨?_, fun hdead => absurd alive (hdead bytes c hheld), fun _ _ => rfl⟩
    intro bytes' c' hheld' alive'
    obtain rfl : bytes = bytes' := Option.some.inj (hheld.symm.trans hheld')
    obtain rfl : c = c' := Except.ok.inj (alive.symm.trans alive')
    exact ⟨rfl, hc, hfetches, held.entries_eq hkept⟩
  · -- nothing that the store holds does
    have hdead : ∀ bytes c, held? = some bytes → B.runtime.instantiate v bytes ≠ .ok c := cold.dead
    have hlocation : (l'.attempts[e.number]?).map Attempt.location = some location := by
      rw [here]
      exact congrArg some hcourse.location_eq
    refine ⟨fun bytes c hheld alive => absurd alive (hdead bytes c hheld), ?_⟩
    rcases hend with ⟨bytes, c, hresult, hfresh, rfl, hc, hstore⟩ | ⟨error, hfresh, rfl, hstore⟩
    · refine ⟨fun _ => ⟨hfetches, hlocation, ?_, ?_⟩, fun _ _ => rfl⟩
      · intro c' hfresh'
        obtain rfl : c = c' := Except.ok.inj (hfresh.symm.trans hfresh')
        refine ⟨rfl, hc, ?_⟩
        intro hopen
        rw [hstore]
        exact ⟨bytes, hresult, cold.put hkept hopen bytes⟩
      · intro error hfresh'
        cases hfresh.symm.trans hfresh'
    · refine ⟨fun _ => ⟨hfetches, hlocation, ?_, ?_⟩, ?_⟩
      · intro c hfresh'
        cases hfresh.symm.trans hfresh'
      · intro error' hfresh'
        obtain rfl : error = error' := Except.error.inj (hfresh.symm.trans hfresh')
        rw [hstore]
        exact ⟨rfl, cold.entries_eq hkept⟩
      · intro c hfresh'
        cases hfresh.symm.trans hfresh'

/-- A store that holds bytes for the reader of a version which do not come to life. -/
def leftover : MemoryStore :=
  ⟨[⟨Variant.key ⟨.reader, "1"⟩, "1", Utf8.encode "bad leftover"⟩]⟩

/-- The leftover is found dead, the module is fetched, and it takes the place of the
    leftover. -/
theorem leftover_is_replaced :
    let l := ((empty leftover).load ⟨.reader, "1"⟩ "r").2.run StandIn.backend
      [.look 0, .make 0, .fetched 0 (.ok (Utf8.encode "reader")), .make 0, .keep 0]
    l.outcome? 0 = some (.ok 0) ∧ l.fetches = [0]
      ∧ (StandIn.backend.store.get (Variant.key ⟨.reader, "1"⟩) l.store).1
        = some (Utf8.encode "reader") := by
  intro l
  have hserves : ∀ event ∈ [.look 0, .make 0, .fetched 0 (.ok (Utf8.encode "reader")), .make 0,
      .keep 0], LoaderEvent.Serves 0 (.ok (Utf8.encode "reader")) event := by
    simp only [List.forall_mem_cons]
    exact ⟨.look, .make, .fetched, .make, .keep, nofun⟩
  have hdead : ∀ bytes c,
      (StandIn.backend.store.get (Variant.key ⟨.reader, "1"⟩) leftover).1 = some bytes →
      StandIn.backend.runtime.instantiate ⟨.reader, "1"⟩ bytes ≠ .ok c := by
    intro bytes c hheld halive
    obtain rfl : Utf8.encode "bad leftover" = bytes := Option.some.inj hheld
    exact nomatch halive
  obtain ⟨outcome, hout⟩ : ∃ outcome, l.outcome? 0 = some outcome :=
    Option.isSome_iff_exists.mp (by decide)
  obtain ⟨-, hend⟩ := store_makes_no_load_fail StandIn.backend .memory (empty leftover)
    ⟨.reader, "1"⟩ "r" rfl (.ok (Utf8.encode "reader")) _ hserves
  obtain ⟨-, hcold, -⟩ := hend outcome hout
  obtain ⟨hfetches, -, hfresh, -⟩ := hcold hdead
  obtain ⟨rfl, -, hstore⟩ := hfresh (.lines .reader) rfl
  obtain ⟨bytes, hbytes, hget, -⟩ := hstore trivial
  obtain rfl := Except.ok.inj hbytes
  exact ⟨hout, hfetches, hget⟩

end Loader
end PhaseHost
