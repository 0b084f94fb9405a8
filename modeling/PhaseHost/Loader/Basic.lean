import PhaseHost.Capability

/-! # Loading

    A load of a variant either joins the attempt that is under way for its key
    or starts a new one.  An attempt asks the store first; bytes from the store
    that do not come to life are as good as none.  Bytes that were fetched are
    put into the store once they have come to life.

    An attempt waits between its steps, so attempts interleave: a run is any
    sequence of events.  The number of an attempt is also the identity of the
    capability it makes. -/

namespace PhaseHost

/-- The number of an attempt, and the identity of what it made. -/
abbrev Handle := Nat

/-- How far an attempt has come. -/
inductive AttemptStage where
  /-- It is about to ask the store. -/
  | looking
  /-- It brings bytes from the store to life. -/
  | trying (bytes : Bytes)
  /-- It waits for a fetch. -/
  | fetching
  /-- It brings fetched bytes to life. -/
  | making (bytes : Bytes)
  /-- It puts fetched bytes into the store. -/
  | keeping (bytes : Bytes)
  | settled (outcome : Except LoadError Handle)
  deriving Repr

/-- One attempt to load a variant. -/
structure Attempt (κ : Type) where
  variant : Variant
  location : String
  stage : AttemptStage
  /-- The capability it has made. -/
  product : Option κ

/-- The outcome of an attempt that has ended. -/
def Attempt.outcome? {κ : Type} (a : Attempt κ) : Option (Except LoadError Handle) :=
  match a.stage with
  | .settled outcome => some outcome
  | _ => none

/-- A loader with its store. -/
structure Loader (σ κ : Type) where
  store : σ
  /-- All attempts, in the order they were started. -/
  attempts : List (Attempt κ)
  /-- The attempt under way for each key. -/
  inFlight : List (CacheKey × Handle)
  /-- The attempts whose fetches were started, in order. -/
  fetches : List Handle

/-- What can happen to an attempt. -/
inductive LoaderEvent where
  /-- It asks the store. -/
  | look (n : Handle)
  /-- Its bytes come to life, or not. -/
  | make (n : Handle)
  /-- Its fetch ends. -/
  | fetched (n : Handle) (result : Except String Bytes)
  /-- It puts its bytes into the store. -/
  | keep (n : Handle)
  deriving Repr

namespace Loader

variable {σ κ : Type}

/-- A loader that has loaded nothing. -/
def empty (store : σ) : Loader σ κ := ⟨store, [], [], []⟩

/-- The attempt under way for a key. -/
def current? (l : Loader σ κ) (key : CacheKey) : Option Handle :=
  (l.inFlight.find? (fun p => p.1 = key)).map Prod.snd

/-- Load a variant: the number of the attempt that will tell, joined or new. -/
def load (l : Loader σ κ) (v : Variant) (location : String) : Handle × Loader σ κ :=
  match l.current? v.key with
  | some n => (n, l)
  | none =>
    let n := l.attempts.length
    (n, { l with
      attempts := l.attempts ++ [⟨v, location, .looking, none⟩]
      inFlight := (v.key, n) :: l.inFlight })

/-- The outcome of an attempt. -/
def outcome? (l : Loader σ κ) (n : Handle) : Option (Except LoadError Handle) :=
  (l.attempts[n]?).bind Attempt.outcome?

/-- The location that an attempt waits for. -/
def awaited? (l : Loader σ κ) (n : Handle) : Option String :=
  match l.attempts[n]? with
  | some ⟨_, location, .fetching, _⟩ => some location
  | _ => none

/-- The attempts that wait for a fetch, with their locations. -/
def awaited (l : Loader σ κ) : List (Handle × String) :=
  l.fetches.filterMap (fun n => (l.awaited? n).map (fun location => (n, location)))

/-- The capability an attempt has made. -/
def product? (l : Loader σ κ) (n : Handle) : Option κ :=
  (l.attempts[n]?).bind Attempt.product

/-- Put a capability in the place of the one an attempt has made. -/
def replaceProduct (l : Loader σ κ) (n : Handle) (c : κ) : Loader σ κ :=
  { l with attempts := l.attempts.modify n (fun a => { a with product := some c }) }

/-- Move an attempt on. -/
def advance (l : Loader σ κ) (n : Handle) (stage : AttemptStage) : Loader σ κ :=
  { l with attempts := l.attempts.modify n (fun a => { a with stage := stage }) }

/-- End an attempt and let go of its key. -/
def settle (l : Loader σ κ) (n : Handle) (key : CacheKey)
    (outcome : Except LoadError Handle) : Loader σ κ :=
  { l.advance n (.settled outcome) with inFlight := l.inFlight.filter (fun p => p.1 ≠ key) }

/-- Start the fetch of an attempt. -/
def startFetch (l : Loader σ κ) (n : Handle) : Loader σ κ :=
  { l.advance n .fetching with fetches := l.fetches ++ [n] }

/-- Ask the store for an attempt. -/
def look (B : Backend σ κ) (l : Loader σ κ) (n : Handle) : Loader σ κ :=
  match l.attempts[n]? with
  | some ⟨v, _, .looking, _⟩ =>
    match B.store.get v.key l.store with
    | (some bytes, store) => { l with store := store }.advance n (.trying bytes)
    | (none, store) => { l with store := store }.startFetch n
  | _ => l

/-- Bring the bytes of an attempt to life. -/
def make (B : Backend σ κ) (l : Loader σ κ) (n : Handle) : Loader σ κ :=
  match l.attempts[n]? with
  | some ⟨v, _, .trying bytes, _⟩ =>
    match B.runtime.instantiate v bytes with
    | .ok c => (l.replaceProduct n c).settle n v.key (.ok n)
    | .error _ => l.startFetch n
  | some ⟨v, _, .making bytes, _⟩ =>
    match B.runtime.instantiate v bytes with
    | .ok c => (l.replaceProduct n c).advance n (.keeping bytes)
    | .error e => l.settle n v.key (.error e)
  | _ => l

/-- End the fetch of an attempt. -/
def fetched (l : Loader σ κ) (n : Handle) (result : Except String Bytes) : Loader σ κ :=
  match l.attempts[n]? with
  | some ⟨v, location, .fetching, _⟩ =>
    match result with
    | .ok bytes => l.advance n (.making bytes)
    | .error message => l.settle n v.key (.error (.fetch location message))
  | _ => l

/-- Put the bytes of an attempt into the store. -/
def keep (B : Backend σ κ) (l : Loader σ κ) (n : Handle) : Loader σ κ :=
  match l.attempts[n]? with
  | some ⟨v, _, .keeping bytes, _⟩ =>
    { l with store := B.store.put v bytes l.store }.settle n v.key (.ok n)
  | _ => l

/-- What an event does. -/
def step (B : Backend σ κ) (l : Loader σ κ) : LoaderEvent → Loader σ κ
  | .look n => l.look B n
  | .make n => l.make B n
  | .fetched n result => l.fetched n result
  | .keep n => l.keep B n

/-- The number of attempts under way. -/
def busy (l : Loader σ κ) : Nat :=
  l.inFlight.length

end Loader
end PhaseHost
