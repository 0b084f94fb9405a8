import PhaseHost.Proofs.Loader.Attempts
import PhaseHost.Proofs.Trail

/-! # Calls of one key share one attempt

    Many callers share a loader, so a run of it mixes calls with the moves of
    attempts.  A call takes an attempt and returns the outcome of that attempt
    and of no other.

    `Loader.Flight` is the invariant of the table in flight:

    * no key occurs twice in it;
    * it lists an attempt under a key exactly as long as that attempt has not
      ended.

    The second part needs the first.  An attempt that ends lets go of its KEY,
    and only because nothing else is under way for that key does this remove
    its own entry and no other.

    Fetches are accounted for by the stages: an attempt can start a fetch only
    before its first one, so no attempt starts two, and two attempts of one key
    never wait for a fetch at the same time. -/

namespace PhaseHost

variable {σ κ : Type}

/-- What can happen to a loader that is shared. -/
inductive LoaderAct where
  /-- A variant is asked for at a location. -/
  | load (v : Variant) (location : String)
  /-- An attempt moves. -/
  | move (event : LoaderEvent)
  deriving Repr

/-- A call, with the attempt it takes. -/
structure LoadCall where
  variant : Variant
  location : String
  attempt : Handle
  deriving DecidableEq, Repr

/-- What an attempt may tell that was started by a call: it names itself, or the
    location of the call, or what the runtime says of the variant of the call. -/
def LoadCall.Tells (R : Runtime κ) (first : LoadCall) : Except LoadError Handle → Prop
  | .ok m => m = first.attempt
  | .error e => (∃ message, e = .fetch first.location message)
      ∨ ∃ bytes, R.instantiate first.variant bytes = .error e

/-- Whether an attempt has not come to its fetch yet. -/
def AttemptStage.beforeFetch : AttemptStage → Bool
  | .looking => true
  | .trying _ => true
  | _ => false

namespace Attempt

variable {R : Runtime κ} {n : Handle} {a a' : Attempt κ}

/-- An attempt is for one variant as long as it lasts. -/
theorem Next.variant_eq (h : Next R n a a') : a'.variant = a.variant := by
  cases h <;> rfl

/-- An attempt has one location as long as it lasts. -/
theorem Next.location_eq (h : Next R n a a') : a'.location = a.location := by
  cases h <;> rfl

/-- Only an attempt that has not ended goes on. -/
theorem Next.unsettled (h : Next R n a a') : a.outcome? = none := by
  cases h <;> rfl

/-- Nothing goes back to before its fetch. -/
theorem Next.afterFetch (h : Next R n a a') (ha : a.stage.beforeFetch = false) :
    a'.stage.beforeFetch = false := by
  cases h with
  | hit bytes => exact nomatch ha
  | revived alive => exact nomatch ha
  | miss => rfl
  | unusable dead => rfl
  | arrived bytes => rfl
  | lost message => rfl
  | brought alive => rfl
  | refused dead => rfl
  | kept => rfl

/-- A fetch is started from before it. -/
theorem Next.beforeFetch (h : Next R n a a') (ha' : a'.stage = .fetching) :
    a.stage.beforeFetch = true := by
  cases h with
  | miss => rfl
  | unusable dead => rfl
  | hit bytes => exact nomatch ha'
  | revived alive => exact nomatch ha'
  | arrived bytes => exact nomatch ha'
  | lost message => exact nomatch ha'
  | brought alive => exact nomatch ha'
  | refused dead => exact nomatch ha'
  | kept => exact nomatch ha'

/-- An attempt tells no more than it may. -/
def Honest (R : Runtime κ) (n : Handle) (a : Attempt κ) : Prop :=
  ∀ outcome, a.outcome? = some outcome → LoadCall.Tells R ⟨a.variant, a.location, n⟩ outcome

/-- An attempt that goes on is honest. -/
theorem Next.honest (h : Next R n a a') : a'.Honest R n := by
  intro outcome hout
  cases h with
  | revived alive => cases hout; rfl
  | kept => cases hout; rfl
  | lost message => cases hout; exact Or.inl ⟨message, rfl⟩
  | refused dead => cases hout; exact Or.inr ⟨_, dead⟩
  | hit bytes => exact nomatch hout
  | miss => exact nomatch hout
  | unusable dead => exact nomatch hout
  | arrived bytes => exact nomatch hout
  | brought alive => exact nomatch hout

/-- What an attempt keeps all along: what it is for, and its outcome once it has one. -/
structure Keeps (a a' : Attempt κ) : Prop where
  variant : a'.variant = a.variant
  location : a'.location = a.location
  outcome : ∀ outcome, a.outcome? = some outcome → a'.outcome? = some outcome

theorem Keeps.refl (a : Attempt κ) : Keeps a a :=
  ⟨rfl, rfl, fun _ h => h⟩

/-- What is kept twice is kept. -/
theorem Keeps.trans {a'' : Attempt κ} (h : Keeps a a') (h' : Keeps a' a'') : Keeps a a'' :=
  ⟨h'.variant.trans h.variant, h'.location.trans h.location,
    fun outcome ho => h'.outcome outcome (h.outcome outcome ho)⟩

/-- An attempt that goes on keeps its variant, its location and an outcome it has. -/
theorem Next.keeps (h : Next R n a a') : Keeps a a' := by
  refine ⟨h.variant_eq, h.location_eq, ?_⟩
  intro outcome ho
  rw [h.unsettled] at ho
  exact nomatch ho

end Attempt

namespace Loader

/-- What an act does. -/
def act (B : Backend σ κ) (l : Loader σ κ) : LoaderAct → Loader σ κ
  | .load v location => (l.load v location).2
  | .move event => l.step B event

/-- What a sequence of acts does. -/
def acts (B : Backend σ κ) (l : Loader σ κ) (list : List LoaderAct) : Loader σ κ :=
  list.foldl (act B) l

/-- The call that an act makes. -/
def called? (l : Loader σ κ) : LoaderAct → Option LoadCall
  | .load v location => some ⟨v, location, (l.load v location).1⟩
  | .move _ => none

/-- The calls along a sequence of acts, in order. -/
def calls (B : Backend σ κ) (l : Loader σ κ) (list : List LoaderAct) : List LoadCall :=
  trail (act B) called? l list

/-- An attempt for a key has not ended. -/
def Unsettled (l : Loader σ κ) (key : CacheKey) (n : Handle) : Prop :=
  ∃ a, l.attempts[n]? = some a ∧ a.variant.key = key ∧ a.outcome? = none

/-- The key of an attempt. -/
def key? (l : Loader σ κ) (n : Handle) : Option CacheKey :=
  (l.attempts[n]?).map (fun a => a.variant.key)

end Loader

/-- What a call has returned: the outcome of its attempt. -/
def LoadCall.returned? (c : LoadCall) (l : Loader σ κ) : Option (Except LoadError Handle) :=
  l.outcome? c.attempt

namespace Loader

variable {B : Backend σ κ} {l l' : Loader σ κ} {n m : Handle} {a a' : Attempt κ}
  {key : CacheKey}

theorem acts_concat (B : Backend σ κ) (l : Loader σ κ) (list : List LoaderAct)
    (x : LoaderAct) : l.acts B (list ++ [x]) = (l.acts B list).act B x :=
  List.foldl_append

/-! ## Attempts keep what they are -/

/-- The attempt that has its turn is in its place afterwards. -/
theorem Turn.here' (h : Turn B l n a a' l') : l'.attempts[n]? = some a' := by
  rw [h.attempts, List.getElem?_set_self (List.getElem?_eq_some_iff.mp h.here).1]

/-- The others stay as they are. -/
theorem Turn.others (h : Turn B l n a a' l') (hnm : n ≠ m) :
    l'.attempts[m]? = l.attempts[m]? := by
  rw [h.attempts, List.getElem?_set_ne hnm]

/-- No act of a loader takes an attempt away. -/
theorem keeps_act (B : Backend σ κ) (x : LoaderAct) (hm : l.attempts[m]? = some a) :
    ∃ a', (l.act B x).attempts[m]? = some a' ∧ a.Keeps a' := by
  cases x with
  | load v location =>
      refine ⟨a, ?_, .refl a⟩
      show (l.load v location).2.attempts[m]? = some a
      rcases load_attempts l v location with heq | heq
      · rw [heq]
        exact hm
      · rw [heq, getElem?_concat_iff]
        exact Or.inl hm
  | move event =>
      show ∃ a', (l.step B event).attempts[m]? = some a' ∧ a.Keeps a'
      rcases turn_step B l event with hsame | ⟨n, b, b', hturn⟩
      · exact ⟨a, by rw [hsame]; exact hm, .refl a⟩
      · by_cases hnm : n = m
        · subst hnm
          obtain rfl : b = a := Option.some.inj (hturn.here.symm.trans hm)
          exact ⟨b', hturn.here', hturn.next.keeps⟩
        · exact ⟨a, (hturn.others hnm).trans hm, .refl a⟩

/-- No sequence of acts takes an attempt away. -/
theorem keeps_acts (B : Backend σ κ) (hm : l.attempts[m]? = some a) (list : List LoaderAct) :
    ∃ a', (l.acts B list).attempts[m]? = some a' ∧ a.Keeps a' := by
  induction list using List.reverseRecOn with
  | nil => exact ⟨a, hm, .refl a⟩
  | append_singleton list x ih =>
      obtain ⟨b, hb, hkeeps⟩ := ih
      obtain ⟨b', hb', hkeeps'⟩ := keeps_act B x hb
      rw [acts_concat]
      exact ⟨b', hb', hkeeps.trans hkeeps'⟩

/-- An outcome stays. -/
theorem outcome?_acts (B : Backend σ κ) {outcome : Except LoadError Handle}
    (h : l.outcome? n = some outcome) (list : List LoaderAct) :
    (l.acts B list).outcome? n = some outcome := by
  obtain ⟨a, ha, hout⟩ := Option.bind_eq_some_iff.mp h
  obtain ⟨a', ha', hkeeps⟩ := keeps_acts B ha list
  exact Option.bind_eq_some_iff.mpr ⟨a', ha', hkeeps.outcome outcome hout⟩

/-- In every run all attempts are honest. -/
theorem honest_acts (B : Backend σ κ) (store : σ) (list : List LoaderAct) :
    ((empty store : Loader σ κ).acts B list).Each (Attempt.Honest B.runtime) := by
  induction list using List.reverseRecOn with
  | nil => exact fun n a ha => nomatch ha
  | append_singleton list x ih =>
      rw [acts_concat]
      cases x with
      | load v location => exact ih.load (fun _ _ _ => nofun) v location
      | move event =>
          exact ih.goesOn (fun _ _ _ hnext _ => hnext.honest) (goesOn_step B _ event)

/-! ## The table in flight -/

/-- The table lists the attempts that have not ended, one for each key, and the
    fetches that were started are those of attempts that have come to theirs. -/
structure Flight (l : Loader σ κ) : Prop where
  keyed : Keyed l.inFlight
  listed : ∀ key n, (key, n) ∈ l.inFlight ↔ l.Unsettled key n
  once : l.fetches.Nodup
  started : ∀ n ∈ l.fetches, ∃ a, l.attempts[n]? = some a ∧ a.stage.beforeFetch = false
  noted : ∀ n (a : Attempt κ), l.attempts[n]? = some a → a.stage = .fetching → n ∈ l.fetches

theorem flight_empty (store : σ) : (empty store : Loader σ κ).Flight where
  keyed := Keyed.nil
  listed _ _ := ⟨nofun, fun ⟨_, ha, _⟩ => nomatch ha⟩
  once := List.nodup_nil
  started := nofun
  noted _ _ ha := nomatch ha

/-- No two attempts for one key are under way. -/
theorem Flight.unique (h : l.Flight) (hn : l.Unsettled key n) (hm : l.Unsettled key m) :
    n = m :=
  h.keyed.unique ((h.listed key n).mpr hn) ((h.listed key m).mpr hm)

/-! ### Loads -/

/-- A load of a key that is under way takes the attempt and changes nothing. -/
theorem Flight.load_joined (h : l.Flight) {v : Variant} (location : String)
    (hn : l.Unsettled v.key n) : l.load v location = (n, l) := by
  have hfind := h.keyed.find?_iff.mpr ((h.listed v.key n).mpr hn)
  simp only [load, current?]
  rw [hfind]
  rfl

/-- A load of a key that is not under way starts an attempt. -/
theorem Flight.load_started (h : l.Flight) {v : Variant} (location : String)
    (hno : ∀ n, ¬ l.Unsettled v.key n) :
    l.load v location = (l.attempts.length,
      { l with
        attempts := l.attempts ++ [⟨v, location, .looking, none⟩]
        inFlight := (v.key, l.attempts.length) :: l.inFlight }) := by
  have hfind := Keyed.find?_eq_none (fun n hmem => hno n ((h.listed v.key n).mp hmem))
  simp only [load, current?]
  rw [hfind]
  rfl

/-- What is not settled after an attempt was added. -/
theorem unsettled_append {b : Attempt κ} (hl' : l'.attempts = l.attempts ++ [b])
    (hb : b.outcome? = none) :
    l'.Unsettled key n ↔ l.Unsettled key n ∨ (n = l.attempts.length ∧ b.variant.key = key) := by
  simp only [Unsettled, hl', getElem?_concat_iff]
  constructor
  · rintro ⟨a, ha | ⟨rfl, rfl⟩, hkey, hout⟩
    · exact Or.inl ⟨a, ha, hkey, hout⟩
    · exact Or.inr ⟨rfl, hkey⟩
  · rintro (⟨a, ha, hkey, hout⟩ | ⟨rfl, hkey⟩)
    · exact ⟨a, Or.inl ha, hkey, hout⟩
    · exact ⟨b, Or.inr ⟨rfl, rfl⟩, hkey, hb⟩

/-- A call leaves the table in order. -/
theorem Flight.load (h : l.Flight) (v : Variant) (location : String) :
    (l.load v location).2.Flight := by
  by_cases hex : ∃ n, l.Unsettled v.key n
  · obtain ⟨n, hn⟩ := hex
    rw [h.load_joined location hn]
    exact h
  · have hno : ∀ n, ¬ l.Unsettled v.key n := not_exists.mp hex
    rw [h.load_started location hno]
    exact {
      keyed := h.keyed.cons (fun n hmem => hno n ((h.listed _ _).mp hmem))
      listed := by
        intro key n
        rw [unsettled_append rfl rfl, List.mem_cons, h.listed key n, or_comm]
        refine or_congr_right ?_
        constructor
        · intro heq
          cases heq
          exact ⟨rfl, rfl⟩
        · rintro ⟨rfl, rfl⟩
          rfl
      once := h.once
      started := by
        intro n hn
        obtain ⟨a, ha, hstage⟩ := h.started n hn
        exact ⟨a, getElem?_concat_iff.mpr (Or.inl ha), hstage⟩
      noted := by
        intro n a ha hstage
        rcases getElem?_concat_iff.mp ha with ha | ⟨-, rfl⟩
        · exact h.noted n a ha hstage
        · -- an attempt that has just begun waits for no fetch
          exact nomatch hstage }

/-! ### Moves -/

/-- Of all attempts only the one that has its turn may settle. -/
theorem Turn.unsettled (h : Turn B l n a a' l') :
    l'.Unsettled key m ↔ l.Unsettled key m ∧ (n = m → a'.outcome? = none) := by
  by_cases hnm : n = m
  · subst hnm
    constructor
    · rintro ⟨b, hb, hkey, hout⟩
      obtain rfl : a' = b := Option.some.inj (h.here'.symm.trans hb)
      exact ⟨⟨a, h.here, h.next.variant_eq ▸ hkey, h.next.unsettled⟩, fun _ => hout⟩
    · rintro ⟨⟨b, hb, hkey, -⟩, hout⟩
      obtain rfl : a = b := Option.some.inj (h.here.symm.trans hb)
      exact ⟨a', h.here', h.next.variant_eq.symm ▸ hkey, hout rfl⟩
  · simp only [Unsettled, h.others hnm]
    exact ⟨fun hm => ⟨hm, fun heq => absurd heq hnm⟩, And.left⟩

/-- The attempt that is turned was under way for its key. -/
theorem Turn.wasUnsettled (h : Turn B l n a a' l') : l.Unsettled a.variant.key n :=
  ⟨a, h.here, rfl, h.next.unsettled⟩

/-- An attempt that ends gives its key up, and nothing else is removed: whatever
    is listed under the key is the attempt itself. -/
theorem Flight.listed_turn (h : l.Flight) (hturn : Turn B l n a a' l') (key : CacheKey)
    (m : Handle) : (key, m) ∈ l'.inFlight ↔ l'.Unsettled key m := by
  rw [hturn.inFlight, hturn.unsettled, ← h.listed key m]
  cases hout : a'.outcome? with
  | none =>
      rw [if_neg (by exact nofun)]
      exact ⟨fun hm => ⟨hm, fun _ => rfl⟩, And.left⟩
  | some outcome =>
      rw [Option.isSome_some, if_pos rfl, Keyed.mem_filter_ne]
      refine and_congr_right (fun hm => ?_)
      have hmun : l.Unsettled key m := (h.listed key m).mp hm
      constructor
      · rintro hkey rfl
        obtain ⟨b, hb, hbkey, -⟩ := hmun
        obtain rfl : a = b := Option.some.inj (hturn.here.symm.trans hb)
        exact absurd hbkey.symm hkey
      · rintro hne rfl
        exact nomatch hne (h.unique hturn.wasUnsettled hmun)

/-- A turn leaves the table in order. -/
theorem Flight.turn (h : l.Flight) (hturn : Turn B l n a a' l') : l'.Flight where
  keyed := by
    rw [hturn.inFlight]
    split
    · exact h.keyed.filter _
    · exact h.keyed
  listed := h.listed_turn hturn
  once := by
    rw [hturn.fetches]
    split
    next hstage =>
      -- an attempt that starts a fetch has not come to one before
      have hnot : n ∉ l.fetches := by
        intro hn
        obtain ⟨b, hb, hafter⟩ := h.started n hn
        obtain rfl : a = b := Option.some.inj (hturn.here.symm.trans hb)
        rw [hturn.next.beforeFetch hstage] at hafter
        exact nomatch hafter
      exact List.nodup_append.mpr ⟨h.once, List.nodup_singleton n, by
        intro x hx y hy hxy
        rw [List.mem_singleton] at hy
        exact hnot (hy ▸ hxy ▸ hx)⟩
    next => exact h.once
  started := by
    intro m hm
    by_cases hnm : n = m
    · subst hnm
      refine ⟨a', hturn.here', ?_⟩
      rw [hturn.fetches] at hm
      split at hm
      next hstage => rw [hstage]; rfl
      next =>
        obtain ⟨b, hb, hafter⟩ := h.started n hm
        obtain rfl : a = b := Option.some.inj (hturn.here.symm.trans hb)
        exact hturn.next.afterFetch hafter
    · rw [hturn.others hnm]
      refine h.started m ?_
      rw [hturn.fetches] at hm
      split at hm
      · rcases List.mem_append.mp hm with hm | hm
        · exact hm
        · exact absurd (List.mem_singleton.mp hm).symm hnm
      · exact hm
  noted := by
    intro m b hb hstage
    rw [hturn.fetches]
    by_cases hnm : n = m
    · subst hnm
      obtain rfl : a' = b := Option.some.inj (hturn.here'.symm.trans hb)
      rw [hstage]
      exact List.mem_append_right _ List.mem_cons_self
    · have hm : m ∈ l.fetches := h.noted m b ((hturn.others hnm).symm.trans hb) hstage
      split
      · exact List.mem_append_left _ hm
      · exact hm

/-- An act leaves the table in order. -/
theorem Flight.act (h : l.Flight) (B : Backend σ κ) (x : LoaderAct) : (l.act B x).Flight := by
  cases x with
  | load v location => exact h.load v location
  | move event =>
      show (l.step B event).Flight
      rcases turn_step B l event with hsame | ⟨n, a, a', hturn⟩
      · rw [hsame]
        exact h
      · exact h.turn hturn

/-- In every run the table is in order. -/
theorem flight_acts (B : Backend σ κ) (store : σ) (list : List LoaderAct) :
    ((empty store : Loader σ κ).acts B list).Flight := by
  induction list using List.reverseRecOn with
  | nil => exact flight_empty store
  | append_singleton list x ih =>
      rw [acts_concat]
      exact ih.act B x

/-! ## Who started an attempt -/

/-- A list of calls accounts for the attempts of a loader: every call has taken
    an attempt for its key, and every attempt is for what its first call asked. -/
structure Accounts (calls : List LoadCall) (l : Loader σ κ) : Prop where
  taken : ∀ c ∈ calls, ∃ a, l.attempts[c.attempt]? = some a ∧ a.variant.key = c.variant.key
  first : ∀ n (a : Attempt κ), l.attempts[n]? = some a →
    calls.find? (fun c => c.attempt = n) = some ⟨a.variant, a.location, n⟩

/-- An act keeps the account of the calls: a call that starts an attempt adds to it. -/
theorem Accounts.act {calls : List LoadCall} (h : Accounts calls l) (hl : l.Flight)
    (B : Backend σ κ) (x : LoaderAct) :
    Accounts (calls ++ (l.called? x).toList) (l.act B x) := by
  have htaken : ∀ c ∈ calls, ∃ a, (l.act B x).attempts[c.attempt]? = some a
      ∧ a.variant.key = c.variant.key := by
    intro c hc
    obtain ⟨a, ha, hkey⟩ := h.taken c hc
    obtain ⟨a', ha', hkeeps⟩ := keeps_act B x ha
    exact ⟨a', ha', hkeeps.variant ▸ hkey⟩
  cases x with
  | move event =>
      show Accounts (calls ++ []) (l.step B event)
      rw [List.append_nil]
      refine ⟨htaken, ?_⟩
      intro m b hb
      rcases turn_step B l event with hsame | ⟨n, a, a', hturn⟩
      · rw [hsame] at hb
        exact h.first m b hb
      · by_cases hnm : n = m
        · subst hnm
          obtain rfl : a' = b := Option.some.inj (hturn.here'.symm.trans hb)
          rw [hturn.next.variant_eq, hturn.next.location_eq]
          exact h.first n a hturn.here
        · exact h.first m b ((hturn.others hnm).symm.trans hb)
  | load v location =>
      show Accounts (calls ++ [⟨v, location, (l.load v location).1⟩]) (l.load v location).2
      by_cases hex : ∃ n, l.Unsettled v.key n
      · -- the call joins an attempt, which has its first call already
        obtain ⟨n, hn⟩ := hex
        rw [hl.load_joined location hn]
        obtain ⟨a, ha, hkey, -⟩ := hn
        refine ⟨?_, ?_⟩
        · intro c hc
          rcases List.mem_append.mp hc with hc | hc
          · exact h.taken c hc
          · obtain rfl := List.mem_singleton.mp hc
            exact ⟨a, ha, hkey⟩
        · intro m b hb
          rw [List.find?_append, h.first m b hb]
          rfl
      · have hstarted := hl.load_started location (not_exists.mp hex)
        change ∀ c ∈ calls, ∃ a, (l.load v location).2.attempts[c.attempt]? = some a ∧ _ at htaken
        rw [hstarted] at htaken ⊢
        refine ⟨?_, ?_⟩
        · intro c hc
          rcases List.mem_append.mp hc with hc | hc
          · exact htaken c hc
          · obtain rfl := List.mem_singleton.mp hc
            exact ⟨_, List.getElem?_concat_length, rfl⟩
        · intro m b hb
          rw [List.find?_append]
          rcases getElem?_concat_iff.mp hb with hb | ⟨rfl, rfl⟩
          · rw [h.first m b hb]
            rfl
          · -- no call before has taken the new attempt
            have hnone : calls.find? (fun c => c.attempt = l.attempts.length) = none := by
              refine List.find?_eq_none.mpr ?_
              intro c hc heq
              obtain ⟨a, ha, -⟩ := h.taken c hc
              have hlt := (List.getElem?_eq_some_iff.mp ha).1
              rw [of_decide_eq_true heq] at hlt
              exact Nat.lt_irrefl _ hlt
            rw [hnone, Option.none_or]
            exact List.find?_cons_of_pos (decide_eq_true rfl)

/-- In every run attempts are accounted for by calls. -/
theorem accounts_acts (B : Backend σ κ) (store : σ) (list : List LoaderAct) :
    Accounts (calls B (empty store) list) ((empty store : Loader σ κ).acts B list) := by
  induction list using List.reverseRecOn with
  | nil => exact ⟨nofun, fun n a ha => nomatch ha⟩
  | append_singleton list x ih =>
      simp only [calls] at ih ⊢
      rw [acts_concat, trail_concat]
      exact ih.act (flight_acts B store list) B x

/-! ## Fetches that are running -/

/-- The fetches that are awaited are those of the attempts that wait for one. -/
theorem mem_awaited (h : l.Flight) {location : String} :
    (n, location) ∈ l.awaited ↔ l.awaited? n = some location := by
  simp only [awaited, List.mem_filterMap, Option.map_eq_some_iff, Prod.mk.injEq]
  constructor
  · rintro ⟨m, -, _, hm, rfl, rfl⟩
    exact hm
  · intro hn
    refine ⟨n, ?_, location, hn, rfl, rfl⟩
    simp only [awaited?] at hn
    split at hn
    next ha => exact h.noted n _ ha rfl
    next => exact nomatch hn

/-- Whoever waits for a fetch is under way. -/
theorem unsettled_of_awaited? {location : String} (hn : l.awaited? n = some location) :
    ∃ key, l.key? n = some key ∧ l.Unsettled key n := by
  simp only [awaited?] at hn
  split at hn
  next v _ product ha =>
    refine ⟨v.key, ?_, _, ha, rfl, rfl⟩
    simp only [key?]
    rw [ha]
    rfl
  next => exact nomatch hn

/-- The fetches that are running are all for different keys. -/
theorem Flight.awaited_keys (h : l.Flight) : (l.awaited.map (fun p => l.key? p.1)).Nodup := by
  have hnodup : l.awaited.Nodup := by
    refine h.once.filterMap ?_
    intro n m p hn hm
    obtain ⟨_, -, rfl⟩ := Option.map_eq_some_iff.mp hn
    obtain ⟨_, -, heq⟩ := Option.map_eq_some_iff.mp hm
    exact (congrArg Prod.fst heq).symm
  refine hnodup.map_on ?_
  rintro ⟨n, location⟩ hn ⟨m, location'⟩ hm heq
  rw [mem_awaited h] at hn hm
  obtain ⟨key, hkey, hun⟩ := unsettled_of_awaited? hn
  obtain ⟨key', hkey', hun'⟩ := unsettled_of_awaited? hm
  change l.key? n = l.key? m at heq
  rw [hkey, hkey'] at heq
  cases heq
  obtain rfl := h.unique hun hun'
  rw [hn] at hm
  cases hm
  rfl

/-- **CALLS OF ONE KEY SHARE ONE ATTEMPT**.  Along every run of a shared loader:

    * the table has one entry for each key with an attempt that has not ended, and
      no other entry;
    * a call for such a key takes that attempt, wherever its module is said to be,
      and changes nothing at all;
    * any other call starts an attempt of its own;
    * what a call returns is what its attempt tells to all its callers, for good:
      the attempt itself or an error about what the first of them asked for;
    * calls for different keys never return the same capability;
    * the fetches that are running are all for different keys. -/
theorem calls_share_one_attempt (B : Backend σ κ) (store : σ) (list : List LoaderAct) :
    let l := (empty store).acts B list
    let calls := calls B (empty store) list
    ((l.inFlight.map Prod.fst).Nodup ∧
      ∀ key n, (key, n) ∈ l.inFlight ↔ l.Unsettled key n) ∧
    (∀ v location n, l.Unsettled v.key n → l.load v location = (n, l)) ∧
    (∀ v location, (∀ n, ¬ l.Unsettled v.key n) →
      l.load v location = (l.attempts.length,
        { l with
          attempts := l.attempts ++ [⟨v, location, .looking, none⟩]
          inFlight := (v.key, l.attempts.length) :: l.inFlight })) ∧
    (∀ c ∈ calls, ∃ first, calls.find? (fun d => d.attempt = c.attempt) = some first
      ∧ first.variant.key = c.variant.key
      ∧ l.key? c.attempt = some c.variant.key
      ∧ ∀ outcome, c.returned? l = some outcome →
        first.Tells B.runtime outcome ∧ ∀ more, c.returned? (l.acts B more) = some outcome) ∧
    (∀ c ∈ calls, ∀ d ∈ calls, ∀ m, c.returned? l = some (.ok m) →
      d.returned? l = some (.ok m) → c.variant.key = d.variant.key) ∧
    (l.awaited.map (fun p => l.key? p.1)).Nodup ∧
    ∀ n location, l.awaited? n = some location → (n, location) ∈ l.awaited := by
  intro l calls
  have hflight : l.Flight := flight_acts B store list
  have haccounts : Accounts calls l := accounts_acts B store list
  have hhonest : l.Each (Attempt.Honest B.runtime) := honest_acts B store list
  -- the attempt of a call, with the call that started it
  have hcall : ∀ c ∈ calls, ∃ first, calls.find? (fun d => d.attempt = c.attempt) = some first
      ∧ first.attempt = c.attempt
      ∧ first.variant.key = c.variant.key
      ∧ l.key? c.attempt = some c.variant.key
      ∧ ∀ outcome, c.returned? l = some outcome → first.Tells B.runtime outcome := by
    intro c hc
    obtain ⟨a, ha, hkey⟩ := haccounts.taken c hc
    refine ⟨_, haccounts.first _ a ha, rfl, hkey, ?_, ?_⟩
    · simp only [key?]
      rw [ha, ← hkey]
      rfl
    · intro outcome hret
      obtain ⟨b, hb, hout⟩ := Option.bind_eq_some_iff.mp hret
      obtain rfl : a = b := Option.some.inj (ha.symm.trans hb)
      exact hhonest _ a ha outcome hout
  refine ⟨⟨hflight.keyed, hflight.listed⟩, ?_, ?_, ?_, ?_, hflight.awaited_keys, ?_⟩
  · intro v location n hn
    exact hflight.load_joined location hn
  · intro v location hno
    exact hflight.load_started location hno
  · intro c hc
    obtain ⟨first, hfirst, -, hsame, hkey, htells⟩ := hcall c hc
    refine ⟨first, hfirst, hsame, hkey, ?_⟩
    intro outcome hret
    exact ⟨htells outcome hret, outcome?_acts B hret⟩
  · intro c hc d hd m hcm hdm
    obtain ⟨first, -, hown, -, hkey, htells⟩ := hcall c hc
    obtain ⟨first', -, hown', -, hkey', htells'⟩ := hcall d hd
    -- a capability is known by the attempt that has made it
    have hm : m = c.attempt := (htells _ hcm).trans hown
    have hm' : m = d.attempt := (htells' _ hdm).trans hown'
    rw [← hm] at hkey
    rw [← hm'] at hkey'
    exact Option.some.inj (hkey.symm.trans hkey')
  · intro n location hn
    exact (mem_awaited hflight).mpr hn

end Loader
end PhaseHost
