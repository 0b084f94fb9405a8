import PhaseHost.Proofs.Loader.Provenance
import PhaseHost.Proofs.Loader.Supply
import PhaseHost.Proofs.Phase.Links
import PhaseHost.Proofs.Phase.OneVersion
import PhaseHost.Proofs.Phase.Wanted

/-! # Superseded engines

    The load of an engine is not called off when another version is wanted.  It runs
    its course: its attempt may look, fetch, come to life and put its bytes, and only
    then does the controller see that nobody wants the engine any more.

    The controller itself leaves nothing behind.  The step that ends such a load
    touches neither readiness nor slots nor the loader, so the store is as it was, and
    a session that finds both builds of its version there needs no fetch.

    The attempt does leave something behind, if it has fetched: its bytes go on the
    shelf, and with them everything of the version that is wanted goes off. -/

namespace PhaseHost

variable {σ κ : Type}

/-! ## What acts do to the store -/

/-- What a visit does to what is held. -/
theorem Store.Retains.visit {S : Store σ} {InOrder : σ → Prop} {held : σ → Variant → Option Bytes}
    {s s' : σ} {write? : Option Delivery} (h : S.Retains InOrder held)
    (hvisit : S.Visit s write? s') (hs : InOrder s) :
    InOrder s' ∧ held s' = write?.elim (held s)
      (fun w => Loader.restock (held s) w.variant w.bytes) := by
  cases hvisit with
  | aside => exact ⟨hs, rfl⟩
  | look w => exact ⟨h.get_inOrder hs w, h.held_get hs w⟩
  | write w =>
      exact ⟨h.put_inOrder hs w.variant w.bytes, funext (h.held_put hs w.variant w.bytes)⟩

/-- What is held after a visit was held before it, unless it is what the visit has written. -/
theorem Store.Retains.held_before {S : Store σ} {InOrder : σ → Prop}
    {held : σ → Variant → Option Bytes} {s s' : σ} {write? : Option Delivery} {v : Variant}
    {bytes : Bytes} (h : S.Retains InOrder held) (hvisit : S.Visit s write? s') (hs : InOrder s)
    (hheld : held s' v = some bytes) :
    held s v = some bytes ∨ ∃ w, write? = some w ∧ w.variant = v ∧ w.bytes = bytes := by
  rw [(h.visit hvisit hs).2] at hheld
  cases write? with
  | none => exact Or.inl hheld
  | some w =>
      change Loader.restock (held s) w.variant w.bytes v = some bytes at hheld
      unfold Loader.restock at hheld
      split at hheld
      next hsame => exact Or.inr ⟨w, rfl, hsame.symm, Option.some.inj hheld⟩
      next =>
        split at hheld
        next => exact Or.inl hheld
        next => cases hheld

/-- Whatever is held after some acts of a loader was held before them, or one of the acts has
    written it. -/
theorem Loader.held_slowly {B : Backend σ κ} {InOrder : σ → Prop}
    {held : σ → Variant → Option Bytes} {store : σ} (hstore : B.store.Retains InOrder held)
    (horder : InOrder store) (list : List SlowAct) :
    InOrder ((empty store : Loader σ κ).slowly B list).store ∧
    ∀ v bytes, held ((empty store : Loader σ κ).slowly B list).store v = some bytes →
      held store v = some bytes
        ∨ ∃ w ∈ writes B (empty store) list, w.variant = v ∧ w.bytes = bytes := by
  induction list using List.reverseRecOn with
  | nil => exact ⟨horder, fun v bytes hheld => Or.inl hheld⟩
  | append_singleton list x ih =>
      obtain ⟨hbefore, hsource⟩ := ih
      have hvisit := visit_slow B ((empty store).slowly B list) x
      simp only [writes] at hsource ⊢
      rw [slowly_concat, trail_concat]
      refine ⟨(hstore.visit hvisit hbefore).1, ?_⟩
      intro v bytes hv
      rcases hstore.held_before hvisit hbefore hv with hold | ⟨w, hwrite, hsame⟩
      · rcases hsource v bytes hold with hstart | ⟨w, hw, hsame⟩
        · exact Or.inl hstart
        · exact Or.inr ⟨w, List.mem_append_left _ hw, hsame⟩
      · exact Or.inr ⟨w, List.mem_append_right _ (Option.mem_toList.mpr hwrite), hsame⟩

/-- Whatever is found in a store COMES TO LIFE. -/
def Backend.Revives (B : Backend σ κ) (store : σ) : Prop :=
  ∀ (v : Variant) bytes, (B.store.get v.key store).1 = some bytes →
    ∃ c, B.runtime.instantiate v bytes = .ok c

namespace Phase

variable {B : Backend σ κ} {p q : Phase σ κ} {key : CacheKey} {t : Handle} {x : PhaseAct}

/-- What an act puts into the store. -/
def write? (p : Phase σ κ) : PhaseAct → Option Delivery
  | .control (.load event) => p.loader.write? (.act (.move event))
  | .written n => p.loader.write? (.put n)
  | _ => none

/-- Only the loader deals with the store. -/
theorem Move.store_eq {event : PhaseEvent} (hmove : Move B p event q)
    (hevent : ∀ own, event ≠ .load own) : q.loader.store = p.loader.store := by
  cases hmove with
  | request version sources => exact Loader.store_load ..
  | begin ready => exact Loader.store_load ..
  | load own => exact absurd rfl (hevent own)
  | commit waits loaded => rw [commit_loader]
  | stay idle => rfl
  | refuse waits failed => rfl
  | install waits loaded wanted => rfl
  | drop waits loaded unwanted => rfl
  | fail waits failed => rfl

/-- An act visits the store once at most, with what it writes. -/
theorem visit_act (B : Backend σ κ) (p : Phase σ κ) (x : PhaseAct) :
    B.store.Visit p.loader.store (p.write? x) (p.act B x).loader.store := by
  cases x with
  | load v location =>
      show B.store.Visit _ none (p.loader.load v location).2.store
      rw [Loader.store_load]
      exact .aside
  | written n => exact Loader.visit_slow B p.loader (.put n)
  | control event =>
      have haside : (∀ own, event ≠ .load own) →
          B.store.Visit p.loader.store none (p.act B (.control event)).loader.store := by
        intro hevent
        show B.store.Visit _ none (p.step B event).loader.store
        rw [(move_step B p event).store_eq hevent]
        exact .aside
      cases event with
      | load own => exact Loader.visit_slow B p.loader (.act (.move own))
      | request version sources => exact haside nofun
      | resume n => exact haside nofun
      | startEngine n => exact haside nofun
      | resumeEngine n => exact haside nofun

/-- Acts that write leave the controller alone. -/
theorem sameSlots_of_write? {w : Delivery} (hw : p.write? x = some w) :
    SameSlots p (p.act B x) := by
  unfold write? at hw
  split at hw
  · exact ⟨rfl, rfl, rfl, rfl⟩
  · exact ⟨rfl, rfl, rfl, rfl⟩
  · cases hw

/-! ## What a load of an engine writes -/

/-- Whoever waits for an attempt waits for one of its own key. -/
structure Own (p : Phase σ κ) : Prop where
  flight : p.loader.Flight
  own : ∀ key t, p.Waits key t → p.loader.key? t = some key

theorem own_empty (store : σ) : (empty store : Phase σ κ).Own where
  flight := Loader.flight_empty store
  own key t h := by
    cases h with
    | request waits => exact nomatch waits
    | engine waits => exact nomatch waits

/-- An attempt keeps its key. -/
theorem key?_of_keeps {l l' : Loader σ κ} (hkeeps : ∀ a, l.attempts[t]? = some a →
    ∃ a', l'.attempts[t]? = some a' ∧ a.Keeps a') (h : l.key? t = some key) :
    l'.key? t = some key := by
  obtain ⟨a, ha, rfl⟩ := Option.map_eq_some_iff.mp h
  obtain ⟨a', ha', hkept⟩ := hkeeps a ha
  exact Option.map_eq_some_iff.mpr ⟨a', ha', hkept.variant ▸ rfl⟩

/-- An event keeps it so. -/
theorem Own.move {event : PhaseEvent} (h : p.Own) (hmove : Move B p event q) : q.Own where
  flight := hmove.flight h.flight
  own key t hwaits := by
    have hold : p.Waits key t → q.loader.key? t = some key :=
      fun hbefore => key?_of_keeps (fun _ => hmove.keeps) (h.own key t hbefore)
    cases hwaits with
    | request waits =>
        rcases hmove.request_from waits with hbefore | ⟨rfl, rfl⟩
        · exact hold (.request hbefore)
        · cases hmove with
          | request version sources => exact h.flight.key?_load _ _
          | stay idle => exact hold (.request waits)
    | engine waits =>
        rcases hmove.engine_from h.flight waits with hbefore | hnew
        · exact hold (.engine hbefore)
        · exact hnew

/-- So does an act. -/
theorem Own.act (h : p.Own) (B : Backend σ κ) (x : PhaseAct) : (p.act B x).Own := by
  cases x with
  | control event => exact h.move (move_step B p event)
  | load v location =>
      refine ⟨h.flight.load v location, fun key t hwaits => ?_⟩
      have hbefore : p.Waits key t := by
        cases hwaits with
        | request waits => exact .request waits
        | engine waits => exact .engine waits
      exact key?_of_keeps (fun _ => Loader.keeps_act B (.load v location)) (h.own key t hbefore)
  | written n =>
      refine ⟨h.flight.written B n, fun key t hwaits => ?_⟩
      have hbefore : p.Waits key t := by
        cases hwaits with
        | request waits => exact .request waits
        | engine waits => exact .engine waits
      have hattempts : (p.act B (.written n)).loader.attempts = p.loader.attempts :=
        Loader.attempts_written B p.loader n
      exact key?_of_keeps (fun a ha => ⟨a, hattempts ▸ ha, .refl a⟩) (h.own key t hbefore)

/-- Whoever waits in a run waits for an attempt of one's own key. -/
theorem own_acts (B : Backend σ κ) (store : σ) (list : List PhaseAct) :
    ((empty store : Phase σ κ).acts B list).Own := by
  induction list using List.reverseRecOn with
  | nil => exact own_empty store
  | append_singleton list x ih =>
      rw [acts_concat]
      exact ih.act B x

/-- What an act writes it writes for an attempt and its variant. -/
theorem key?_of_write? {w : Delivery} (hw : p.write? x = some w) :
    p.loader.key? w.attempt = some w.variant.key := by
  have hoffer : ∀ n, (p.loader.attempts[n]?).bind (Attempt.offer? n) = some w →
      p.loader.key? w.attempt = some w.variant.key := by
    intro n hn
    obtain ⟨⟨v, location, stage, product⟩, ha, hoffer⟩ := Option.bind_eq_some_iff.mp hn
    cases stage with
    | keeping bytes =>
        cases hoffer
        exact Option.map_eq_some_iff.mpr ⟨_, ha, rfl⟩
    | _ => cases hoffer
  unfold write? at hw
  split at hw
  next event =>
    cases event with
    | keep n => exact hoffer n hw
    | look n => cases hw
    | make n => cases hw
    | fetched n result => cases hw
  next n => exact hoffer n hw
  next => cases hw

/-- The attempt of a load writes the engine of the version of the load. -/
theorem Own.variant_of_write? (h : p.Own) {w : Delivery} (hw : p.write? x = some w) {k : Nat}
    {e : EngineLoad} (hk : p.engineLoads[k]? = some e) (hwaits : e.stage = .waiting w.attempt) :
    w.variant = ⟨.engine, e.version⟩ := by
  obtain ⟨version, location, request, stage⟩ := e
  cases hwaits
  have hkey := h.own _ _ (.engine hk)
  exact Variant.key_injective (Option.some.inj ((key?_of_write? hw).symm.trans hkey))

/-! ## The end of a load -/

/-- The end of a load leaves the loader alone. -/
theorem Ends.loader {event : PhaseEvent} {k : Nat} (h : Ends B p event k) :
    (p.step B event).loader = p.loader := by
  obtain ⟨s, t, hs, hopen, ht, hover⟩ := h
  -- a stage that has changed to one that is over has not stayed
  have hnot : p.engineStage? k = some t → False := by
    intro hsame
    rw [Option.some.inj (hs.symm.trans hsame), hover] at hopen
    exact nomatch hopen
  have hmove := move_step B p event
  generalize p.step B event = q at hmove ht
  cases hmove with
  | request version sources => exact (hnot ht).elim
  | @begin n version location request ready =>
      rw [engineStage?_moveEngine] at ht
      split at ht
      · have hnow : (p.engineStage? k).map (fun _ => EngineStage.waiting
            (p.loader.load ⟨.engine, version⟩ location).1) = some t := ht
        rw [hs] at hnow
        cases hnow
        exact nomatch hover
      · exact (hnot ht).elim
  | load own => exact (hnot ht).elim
  | commit waits loaded => rw [commit_loader]
  | stay idle => rfl
  | refuse waits failed => rfl
  | install waits loaded wanted => rfl
  | drop waits loaded unwanted => rfl
  | fail waits failed => rfl

/-! ## What is found comes to life -/

/-- Acts move the loader as it could be moved alone. -/
theorem slowly_of_act (B : Backend σ κ) (p : Phase σ κ) (x : PhaseAct) :
    ∃ slow, (p.act B x).loader = p.loader.slowly B slow := by
  cases x with
  | load v location => exact ⟨[.act (.load v location)], rfl⟩
  | written n => exact ⟨[.put n], rfl⟩
  | control event =>
      show ∃ slow, (p.step B event).loader = p.loader.slowly B slow
      have hmove := move_step B p event
      generalize p.step B event = q at hmove ⊢
      cases hmove with
      | request version sources =>
          exact ⟨[.act (.load ⟨.reader, version⟩ sources.reader)], rfl⟩
      | @begin n version location request ready =>
          exact ⟨[.act (.load ⟨.engine, version⟩ location)], rfl⟩
      | load event => exact ⟨[.act (.move event)], rfl⟩
      | commit waits loaded => exact ⟨[], commit_loader ..⟩
      | stay idle => exact ⟨[], rfl⟩
      | refuse waits failed => exact ⟨[], rfl⟩
      | install waits loaded wanted => exact ⟨[], rfl⟩
      | drop waits loaded unwanted => exact ⟨[], rfl⟩
      | fail waits failed => exact ⟨[], rfl⟩

/-- What a controller does with its loader is a slow run of that loader. -/
theorem slowly_of_acts (B : Backend σ κ) (store : σ) (list : List PhaseAct) :
    ∃ slow, ((empty store : Phase σ κ).acts B list).loader
      = (Loader.empty store).slowly B slow := by
  induction list using List.reverseRecOn with
  | nil => exact ⟨[], rfl⟩
  | append_singleton list x ih =>
      obtain ⟨before, hbefore⟩ := ih
      obtain ⟨now, hnow⟩ := slowly_of_act B ((empty store).acts B list) x
      refine ⟨before ++ now, ?_⟩
      rw [acts_concat, hnow, hbefore]
      exact List.foldl_append.symm

/-- A store in working order stays so. -/
theorem inOrder_acts {InOrder : σ → Prop} {held : σ → Variant → Option Bytes} {store : σ}
    (hstore : B.store.Retains InOrder held) (horder : InOrder store) (list : List PhaseAct) :
    InOrder ((empty store : Phase σ κ).acts B list).loader.store := by
  obtain ⟨slow, hslow⟩ := slowly_of_acts B store list
  rw [hslow]
  exact (Loader.held_slowly hstore horder slow).1

/-- **A STORE STAYS ALIVE**: over one in which all comes to life, whatever is found for a variant
    after some acts comes to life for it. -/
theorem revives_acts {InOrder : σ → Prop} {held : σ → Variant → Option Bytes} {store : σ}
    (hstore : B.store.Retains InOrder held) (horder : InOrder store) (halive : B.Revives store)
    (list : List PhaseAct) : B.Revives ((empty store : Phase σ κ).acts B list).loader.store := by
  intro v bytes hget
  obtain ⟨slow, hslow⟩ := slowly_of_acts B store list
  obtain ⟨hafter, hsource⟩ := Loader.held_slowly (B := B) hstore horder slow
  rw [hslow, hstore.get_eq hafter] at hget
  rcases hsource v bytes hget with hbefore | ⟨w, hw, rfl, rfl⟩
  · exact halive v bytes ((hstore.get_eq horder v).trans hbefore)
  · exact ((Loader.traced_slowly B store slow).accepted w hw).2

/-! ## Later sessions -/

/-- A session over a store that supplies its version fetches nothing, and whatever it
    loads is loaded well. -/
theorem session_of_supplies {InOrder : σ → Prop} {held : σ → Variant → Option Bytes} {store : σ}
    {version : String} (hstore : B.store.Retains InOrder held) (horder : InOrder store)
    (hsupplies : Supplies B.runtime (held store) version) {session : List PhaseAct}
    (hsession : ∀ x ∈ session, x.IsFor version) :
    ((empty store : Phase σ κ).acts B session).loader.Supplied B InOrder held version := by
  have hrun : ((empty store : Phase σ κ).acts B session).AskedFor version
      ∧ ((empty store : Phase σ κ).acts B session).loader.Supplied B InOrder held version := by
    induction session using List.reverseRecOn with
    | nil => exact ⟨⟨nofun, nofun⟩, Loader.supplied_empty horder hsupplies⟩
    | append_singleton session x ih =>
        obtain ⟨hasked, hsupplied⟩ := ih (fun y hy => hsession y (List.mem_append_left _ hy))
        have hx := hsession x (List.mem_append_right _ List.mem_cons_self)
        rw [acts_concat]
        exact ⟨hasked.act hx, hsupplied.happens hstore (hasked.happens hx)⟩
  exact hrun.2

/-- A store offers a version if both builds are found there. -/
def Offers (S : Store σ) (store : σ) (version : String) : Prop :=
  ∀ kind, ∃ bytes, (S.get (Variant.key ⟨kind, version⟩) store).1 = some bytes

/-- **A SUPERSEDED LOAD LEAVES THE SLOTS ALONE**, and the store unless its attempt has
    fetched.  When the load of one version is under way and another version is wanted:

    * the event that ends the load changes neither readiness nor slots nor the wanted
      version nor anything in the loader;
    * whatever the attempt of the load writes is its own engine, and this leaves the slots
      alone, too.

    Over a store that retains what is put:

    * whatever anybody does to the loader but writing leaves every look-up as it was;
    * but if the attempt of the load writes, nothing of the wanted version is found any more;
    * if all that the store held at the start comes to life, and both builds of the wanted
      version are offered before the load ends, every later session that asks for this
      version alone loads what it loads without a fetch and without an error. -/
theorem superseded_load_leaves_slots (B : Backend σ κ) (store : σ) (list : List PhaseAct)
    (p : Phase σ κ) (hp : p = (empty store).acts B list) (k : Nat) (e : EngineLoad)
    (version : String) (hload : p.engineLoads[k]? = some e) (hwanted : p.wanted = some version)
    (hother : e.version ≠ version) :
    (∀ event, Ends B p event k →
      SameSlots p (p.step B event) ∧ (p.step B event).loader = p.loader) ∧
    (∀ x w, p.write? x = some w → e.stage = .waiting w.attempt →
      SameSlots p (p.act B x) ∧ w.variant = ⟨.engine, e.version⟩) ∧
    ∀ (InOrder : σ → Prop) (held : σ → Variant → Option Bytes),
      B.store.Retains InOrder held → InOrder store →
      (∀ x, p.write? x = none → ∀ v : Variant,
        (B.store.get v.key (p.act B x).loader.store).1
          = (B.store.get v.key p.loader.store).1) ∧
      (∀ x w, p.write? x = some w → e.stage = .waiting w.attempt →
        ∀ v : Variant, v.version = version →
          (B.store.get v.key (p.act B x).loader.store).1 = none) ∧
      (B.Revives store → Offers B.store p.loader.store version → ∀ event, Ends B p event k →
        ∀ session, (∀ x ∈ session, x.IsFor version) →
          let later : Phase σ κ := (empty (p.step B event).loader.store).acts B session
          later.loader.fetches = [] ∧
            ∀ n outcome, later.loader.outcome? n = some outcome → ∃ m, outcome = .ok m) := by
  subst hp
  have hown : ((empty store : Phase σ κ).acts B list).Own := own_acts B store list
  refine ⟨?_, ?_, ?_⟩
  · intro event hends
    refine ⟨hends.sameSlots hload ?_, hends.loader⟩
    rw [hwanted]
    exact fun heq => hother (Option.some.inj heq).symm
  · intro x w hwrite hwaits
    exact ⟨sameSlots_of_write? hwrite, hown.variant_of_write? hwrite hload hwaits⟩
  · intro InOrder held hretains hstart
    have horder := inOrder_acts hretains hstart (κ := κ) (B := B) list
    have halive : B.Revives store →
        B.Revives ((empty store : Phase σ κ).acts B list).loader.store :=
      fun h => revives_acts hretains hstart h list
    generalize (empty store : Phase σ κ).acts B list = p at *
    refine ⟨?_, ?_, ?_⟩
    · intro x hnone v
      obtain ⟨horder', hheld⟩ := hretains.visit (visit_act B p x) horder
      rw [hnone] at hheld
      rw [hretains.get_eq horder', hretains.get_eq horder, hheld]
      rfl
    · intro x w hwrite hwaits v hv
      have hvariant := hown.variant_of_write? hwrite hload hwaits
      obtain ⟨horder', hheld⟩ := hretains.visit (visit_act B p x) horder
      rw [hwrite] at hheld
      have hne : v.version ≠ w.variant.version := by
        rw [hvariant, hv]
        exact fun heq => hother heq.symm
      rw [hretains.get_eq horder', hheld]
      show (if v = w.variant then _ else _) = none
      rw [if_neg (fun heq => hne (congrArg Variant.version heq)), if_neg hne]
    · intro hrevives hoffers event hends session hsession
      have hsupplies : Supplies B.runtime (held p.loader.store) version := by
        intro kind
        obtain ⟨bytes, hget⟩ := hoffers kind
        obtain ⟨c, hlives⟩ := halive hrevives _ bytes hget
        exact ⟨bytes, c, (hretains.get_eq horder _).symm.trans hget, hlives⟩
      rw [hends.loader]
      have hsupplied := session_of_supplies hretains horder hsupplies hsession
      exact ⟨hsupplied.unfetched, fun n outcome => hsupplied.outcome?⟩

/-- A sequence of events as acts. -/
def controls (events : List PhaseEvent) : List PhaseAct :=
  events.map .control

/-- Another version has reader and engine in place before the controller looks at the
    engine that was loaded first. -/
def forestalled : List PhaseAct :=
  controls ([.request "1" ⟨"1/r", some "1/e"⟩] ++ bring 0 "reader" ++ [.resume 0, .startEngine 0]
    ++ bring 1 "engine" ++ [.request "2" ⟨"2/r", some "2/e"⟩] ++ bring 2 "reader"
    ++ [.resume 1, .startEngine 1] ++ bring 3 "engine" ++ [.resumeEngine 1])

/-- A session that finds both builds in the store. -/
def revisit : List PhaseAct :=
  controls [.request "2" ⟨"2/r", some "2/e"⟩, .load (.look 0), .load (.make 0), .resume 0,
    .startEngine 0, .load (.look 1), .load (.make 1), .resumeEngine 0]

/-- The engine that comes too late is dropped, and the session after that fetches nothing. -/
theorem forestalled_engine_leaves_no_trace :
    let p := (empty MemoryStore.empty).acts StandIn.backend forestalled
    p.engineLoads[0]? = some ⟨"1", "1/e", 0, .waiting 1⟩ ∧ p.wanted = some "2" ∧
    Ends StandIn.backend p (.resumeEngine 0) 0 ∧
    SameSlots p (p.step StandIn.backend (.resumeEngine 0)) ∧
    ((empty (p.step StandIn.backend (.resumeEngine 0)).loader.store).acts StandIn.backend
      revisit).loader.fetches = [] ∧
    ((empty (p.step StandIn.backend (.resumeEngine 0)).loader.store).acts StandIn.backend
      revisit).hasEngine "2" = true := by
  intro p
  have hload : p.engineLoads[0]? = some ⟨"1", "1/e", 0, .waiting 1⟩ := by decide
  have hwanted : p.wanted = some "2" := by decide
  have hends : Ends StandIn.backend p (.resumeEngine 0) 0 :=
    ⟨.waiting 1, .dropped, by decide, rfl, by decide, rfl⟩
  have hoffers : Offers StandIn.backend.store p.loader.store "2" := by
    intro kind
    cases kind with
    | reader => exact ⟨Utf8.encode "reader", by decide⟩
    | engine => exact ⟨Utf8.encode "engine", by decide⟩
  obtain ⟨hfinish, -, hstore⟩ := superseded_load_leaves_slots StandIn.backend MemoryStore.empty
    forestalled p rfl 0 _ "2" hload hwanted (by decide)
  obtain ⟨hslots, -⟩ := hfinish _ hends
  obtain ⟨-, -, hsession⟩ := hstore _ _ MemoryStore.retains (Labels.tidy_nil _)
  -- there is nothing at the start that could not come to life
  have hrevives : StandIn.backend.Revives MemoryStore.empty := nofun
  have hrevisit : ∀ x ∈ revisit, x.IsFor "2" := by decide
  obtain ⟨hunfetched, -⟩ := hsession hrevives hoffers _ hends revisit hrevisit
  exact ⟨hload, hwanted, hends, hslots, hunfetched, by decide⟩

/-- The engine of one version is still being fetched when another version has reader and
    engine in place. -/
def overtaken : List PhaseAct :=
  controls ([.request "1" ⟨"1/r", some "1/e"⟩] ++ bring 0 "reader"
    ++ [.resume 0, .startEngine 0, .load (.look 1), .request "2" ⟨"2/r", some "2/e"⟩]
    ++ bring 2 "reader" ++ [.resume 1, .startEngine 1] ++ bring 3 "engine" ++ [.resumeEngine 1])

/-- It runs its course. -/
def aftermath : List PhaseAct :=
  controls [.load (.fetched 1 (.ok (Utf8.encode "engine"))), .load (.make 1), .load (.keep 1),
    .resumeEngine 0]

/-- **A SUPERSEDED ENGINE EVICTS** both builds of the version that is wanted.  Its load is
    dropped and leaves the slots alone, but a session after that has to fetch again. -/
theorem superseded_engine_evicts :
    let p := (empty MemoryStore.empty).acts StandIn.backend overtaken
    let q := p.acts StandIn.backend aftermath
    (p.wanted = some "2" ∧ p.engineStage? 0 = some (.waiting 1) ∧
      p.loader.store.get? (Variant.key ⟨.reader, "2"⟩) = some (Utf8.encode "reader") ∧
      p.loader.store.get? (Variant.key ⟨.engine, "2"⟩) = some (Utf8.encode "engine")) ∧
    (q.engineStage? 0 = some .dropped ∧ q.readiness = p.readiness ∧ q.reader = p.reader ∧
      q.engine = p.engine ∧ q.wanted = p.wanted) ∧
    q.loader.store.get? (Variant.key ⟨.reader, "2"⟩) = none ∧
    q.loader.store.get? (Variant.key ⟨.engine, "2"⟩) = none ∧
    ((empty q.loader.store).acts StandIn.backend revisit).loader.fetches ≠ [] := by
  decide

end Phase
end PhaseHost
