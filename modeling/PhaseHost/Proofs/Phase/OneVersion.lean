import PhaseHost.Play.StandIn
import PhaseHost.Proofs.Loader.Sparing
import PhaseHost.Proofs.Phase.Moves

/-! # One version is fetched once

    A controller loads through a loader that others may use as well.  As long as
    all of them ask for one version, whatever its builds and wherever its modules
    are said to be, the loader is thrifty, so its fetches are accounted for.

    An attempt puts its bytes into the store before it lets go of its key.
    `PhaseAct.written` is the moment between the two: the bytes are there, and
    calls for the key still join the attempt. -/

namespace PhaseHost

variable {σ κ : Type}

/-- A store to start with: the one in memory without entries, or a table that can be
    opened and has no rows. -/
inductive Store.StartsEmpty : {σ : Type} → Store σ → σ → Prop
  | memory : StartsEmpty MemoryStore.store MemoryStore.empty
  | table {t : Table} {d : Disk} (usable : t.Usable d) (empty : t.stored d = []) :
      StartsEmpty t.store d

/-- A store that starts empty retains, holding nothing at first. -/
theorem Store.StartsEmpty.retains {S : Store σ} {s : σ} (h : S.StartsEmpty s) :
    ∃ (InOrder : σ → Prop) (held : σ → Variant → Option Bytes),
      S.Retains InOrder held ∧ InOrder s ∧ ∀ v, held s v = none := by
  cases h with
  | memory => exact ⟨_, _, MemoryStore.retains, Labels.tidy_nil _, fun _ => rfl⟩
  | @table t d usable empty =>
      obtain ⟨horder, hempty⟩ := Table.inOrder_of_empty usable empty
      exact ⟨_, _, t.retains, horder, hempty⟩

/-- What can happen to a controller with a loader that is shared. -/
inductive PhaseAct where
  | control (event : PhaseEvent)
  /-- Somebody else asks the loader. -/
  | load (v : Variant) (location : String)
  /-- The bytes of an attempt are in the store before it goes on. -/
  | written (n : Handle)

/-- Whoever asks for something asks for this version. -/
def PhaseAct.IsFor (version : String) : PhaseAct → Prop
  | .control (.request asked _) => asked = version
  | .load v _ => v.version = version
  | _ => True

instance (version : String) (x : PhaseAct) : Decidable (x.IsFor version) := by
  unfold PhaseAct.IsFor
  split <;> infer_instance

namespace Phase

/-- What an act does. -/
def act (B : Backend σ κ) (p : Phase σ κ) : PhaseAct → Phase σ κ
  | .control event => p.step B event
  | .load v location => { p with loader := (p.loader.load v location).2 }
  | .written n => { p with loader := p.loader.written B n }

def acts (B : Backend σ κ) (p : Phase σ κ) (list : List PhaseAct) : Phase σ κ :=
  list.foldl (act B) p

/-- The call that an act makes of the loader. -/
def loads? (p : Phase σ κ) : PhaseAct → Option LoadCall
  | .control (.request version sources) =>
    p.loader.called? (.load ⟨.reader, version⟩ sources.reader)
  | .control (.startEngine n) =>
    match p.engineLoads[n]? with
    | some ⟨version, location, _, .ready⟩ => p.loader.called? (.load ⟨.engine, version⟩ location)
    | _ => none
  | .load v location => p.loader.called? (.load v location)
  | _ => none

variable {B : Backend σ κ} {p p' : Phase σ κ} {version : String} {x : PhaseAct} {c : LoadCall}

theorem acts_concat (B : Backend σ κ) (p : Phase σ κ) (list : List PhaseAct) (x : PhaseAct) :
    p.acts B (list ++ [x]) = (p.acts B list).act B x :=
  List.foldl_append

/-- A call is a load. -/
theorem loader_act_of_loads? (B : Backend σ κ) (h : p.loads? x = some c) :
    (p.act B x).loader = (p.loader.load c.variant c.location).2
      ∧ c.attempt = (p.loader.load c.variant c.location).1 := by
  unfold loads? at h
  split at h
  · cases h
    exact ⟨rfl, rfl⟩
  next n =>
    split at h
    next version location request hready =>
      cases h
      refine ⟨?_, rfl⟩
      show (p.startEngine n).loader = _
      simp only [startEngine]
      rw [hready]
      rfl
    next => exact nomatch h
  · cases h
    exact ⟨rfl, rfl⟩
  · exact nomatch h

/-! ## Everything asked for is of one version -/

/-- Whatever a controller has been asked for is of one version. -/
structure AskedFor (version : String) (p : Phase σ κ) : Prop where
  requests : ∀ asked ∈ p.requests.map Request.version, asked = version
  engineLoads : ∀ asked ∈ p.engineLoads.map EngineLoad.version, asked = version

/-- The end of a request leaves its version as it was. -/
theorem finish_versions (p : Phase σ κ) (n : Nat) (result : Except LoadError Readiness) :
    (p.finish n result).requests.map Request.version = p.requests.map Request.version :=
  map_modify_eq (fun r : Request => { r with stage := .done result }) (fun _ => rfl) ..

/-- So does a request that is put through. -/
theorem commit_versions (p : Phase σ κ) (n : Nat) (version : String) (sources : ModuleSources)
    (handle : Handle) : (p.commit n version sources handle).requests.map Request.version
      = p.requests.map Request.version := by
  simp only [commit]
  cases sources.engine <;> exact finish_versions ..

theorem AskedFor.request_eq (h : p.AskedFor version) {n : Nat} {r : Request}
    (hn : p.requests[n]? = some r) : r.version = version :=
  h.requests _ (List.mem_map_of_mem (List.mem_of_getElem? hn))

theorem AskedFor.engineLoad_eq (h : p.AskedFor version) {n : Nat} {e : EngineLoad}
    (hn : p.engineLoads[n]? = some e) : e.version = version :=
  h.engineLoads _ (List.mem_map_of_mem (List.mem_of_getElem? hn))

/-- A load of an engine that moves on is for the version that it was for. -/
theorem AskedFor.moveEngine (h : p.AskedFor version) (n : Nat) (stage : EngineStage) :
    (p.moveEngine n stage).AskedFor version := by
  have hversions : (p.moveEngine n stage).engineLoads.map EngineLoad.version
      = p.engineLoads.map EngineLoad.version :=
    map_modify_eq (fun e : EngineLoad => { e with stage := stage }) (fun _ => rfl) ..
  refine ⟨h.requests, ?_⟩
  rw [hversions]
  exact h.engineLoads

/-- The loads of engines ask for what the requests did. -/
theorem AskedFor.move {event : PhaseEvent} (h : p.AskedFor version)
    (hx : PhaseAct.IsFor version (.control event)) (hmove : Move B p event p') :
    p'.AskedFor version := by
  cases hmove with
  | stay idle => exact h
  | request asked sources =>
      refine ⟨?_, h.engineLoads⟩
      intro v hv
      rw [show (p.request asked sources).requests = p.requests ++ [⟨asked, sources, _⟩] from rfl,
        List.map_append] at hv
      rcases List.mem_append.mp hv with hold | hnew
      · exact h.requests v hold
      · exact (List.mem_singleton.mp hnew).trans hx
  | @commit n asked sources attempt handle waits loaded =>
      refine ⟨?_, ?_⟩
      · rw [commit_versions]
        exact h.requests
      · rw [commit_engineLoads]
        split
        · split
          · exact h.engineLoads
          · intro v hv
            rw [List.map_append] at hv
            rcases List.mem_append.mp hv with hold | hnew
            · exact h.engineLoads v hold
            · exact (List.mem_singleton.mp hnew).trans (h.request_eq waits)
        · exact h.engineLoads
  | refuse waits failed =>
      refine ⟨?_, h.engineLoads⟩
      rw [finish_versions]
      exact h.requests
  | begin ready =>
      refine AskedFor.moveEngine ?_ _ _
      exact ⟨h.requests, h.engineLoads⟩
  | install waits loaded wanted =>
      refine AskedFor.moveEngine ?_ _ _
      exact ⟨h.requests, h.engineLoads⟩
  | drop waits loaded unwanted => exact h.moveEngine _ _
  | fail waits failed => exact h.moveEngine _ _
  | load event => exact ⟨h.requests, h.engineLoads⟩

/-- What an act does to the loader is something that can happen to it. -/
theorem AskedFor.happens (h : p.AskedFor version) (hx : x.IsFor version) :
    Loader.Happens B version p.loader (p.act B x).loader := by
  cases x with
  | load v location => exact .load hx location
  | written n => exact .written n
  | control event =>
      show Loader.Happens B version p.loader (p.step B event).loader
      have hmove := move_step B p event
      generalize p.step B event = p' at hmove ⊢
      cases hmove with
      | request asked sources =>
          have hasked : asked = version := hx
          exact .load hasked sources.reader
      | begin ready => exact .load (h.engineLoad_eq ready) _
      | load event => exact .step event
      | commit waits loaded =>
          rw [commit_loader]
          exact .nothing
      | _ => exact .nothing

/-- Asking for the same version again brings in no other. -/
theorem AskedFor.act (h : p.AskedFor version) (hx : x.IsFor version) :
    (p.act B x).AskedFor version := by
  cases x with
  | control event => exact h.move hx (move_step B p event)
  | load v location => exact ⟨h.requests, h.engineLoads⟩
  | written n => exact ⟨h.requests, h.engineLoads⟩

section runs

variable {InOrder : σ → Prop} {held : σ → Variant → Option Bytes}
  (hstore : B.store.Retains InOrder held)
include hstore

/-- Both invariants hold all along as long as one version is asked for. -/
theorem askedFor_thrifty_acts (hp : p.AskedFor version)
    (hl : p.loader.Thrifty B InOrder held version) {list : List PhaseAct}
    (hlist : ∀ x ∈ list, x.IsFor version) :
    (p.acts B list).AskedFor version ∧ (p.acts B list).loader.Thrifty B InOrder held version := by
  induction list using List.reverseRecOn with
  | nil => exact ⟨hp, hl⟩
  | append_singleton list x ih =>
      obtain ⟨hasked, hthrifty⟩ := ih (fun y hy => hlist y (List.mem_append_left _ hy))
      have hx := hlist x (List.mem_append_right _ List.mem_cons_self)
      rw [acts_concat]
      exact ⟨hasked.act hx, hthrifty.happens hstore (hasked.happens hx)⟩

/-- A spared attempt is spared for good. -/
theorem spared_acts (hp : p.AskedFor version) (hl : p.loader.Thrifty B InOrder held version)
    {m : Handle} (hm : p.loader.Spared m) {list : List PhaseAct}
    (hlist : ∀ x ∈ list, x.IsFor version) : (p.acts B list).loader.Spared m := by
  induction list using List.reverseRecOn with
  | nil => exact hm
  | append_singleton list x ih =>
      have hbefore := fun y hy => hlist y (List.mem_append_left _ hy)
      obtain ⟨hasked, hthrifty⟩ := askedFor_thrifty_acts hstore hp hl hbefore
      have hx := hlist x (List.mem_append_right _ List.mem_cons_self)
      rw [acts_concat]
      exact (ih hbefore).happens hstore hthrifty (hasked.happens hx)

end runs

/-- **ONE VERSION IS FETCHED ONCE**.  Over a store that starts empty, as long as every
    request and every other call asks for one version:

    * whenever no attempt for a build is under way, its fetches are as many as its
      failed attempts, and one more if an attempt has succeeded;
    * a call for a build of which an attempt has succeeded takes an attempt that
      never starts a fetch and never fails. -/
theorem one_version_fetched_once (B : Backend σ κ) (store : σ)
    (hstore : B.store.StartsEmpty store) (version : String) (list : List PhaseAct)
    (hlist : ∀ x ∈ list, x.IsFor version) (l : Loader σ κ)
    (hl : l = ((empty store).acts B list).loader) :
    (∀ kind, (∀ n, ¬ l.Unsettled (Variant.key ⟨kind, version⟩) n) →
      l.fetchesFor (Variant.key ⟨kind, version⟩) = l.failuresFor (Variant.key ⟨kind, version⟩)
        + if l.Has (Variant.key ⟨kind, version⟩) AttemptStage.hasSucceeded then 1 else 0) ∧
    (∀ before x after c, list = before ++ x :: after →
      ((empty store : Phase σ κ).acts B before).loads? x = some c →
      ((empty store : Phase σ κ).acts B before).loader.Has c.variant.key
        AttemptStage.hasSucceeded →
      c.attempt ∉ l.fetches ∧ ∀ e, c.returned? l ≠ some (.error e)) := by
  subst hl
  obtain ⟨InOrder, held, hretains, horder, hempty⟩ := hstore.retains
  have hasked : (empty store : Phase σ κ).AskedFor version := ⟨nofun, nofun⟩
  have hthrifty : (empty store : Phase σ κ).loader.Thrifty B InOrder held version :=
    Loader.thrifty_empty horder hempty version
  refine ⟨?_, ?_⟩
  · intro kind hover
    obtain ⟨-, hend⟩ := askedFor_thrifty_acts hretains hasked hthrifty hlist
    exact hend.fetchesFor_of_over hover
  · rintro before x after c rfl hcall hloaded
    have hbefore : ∀ y ∈ before, y.IsFor version :=
      fun y hy => hlist y (List.mem_append_left _ hy)
    have hx : x.IsFor version := hlist x (List.mem_append_right _ List.mem_cons_self)
    have hafter : ∀ y ∈ after, y.IsFor version :=
      fun y hy => hlist y (List.mem_append_right _ (List.mem_cons_of_mem _ hy))
    obtain ⟨hasked', hthrifty'⟩ := askedFor_thrifty_acts hretains hasked hthrifty hbefore
    obtain ⟨hload, hattempt⟩ := loader_act_of_loads? B hcall
    -- the call takes an attempt that is spared, and it stays so
    have hspared := hthrifty'.spared_load hloaded c.location
    rw [← hload, ← hattempt] at hspared
    have hend := spared_acts hretains (hasked'.act hx)
      (hthrifty'.happens hretains (hasked'.happens hx)) hspared hafter
    have hacts : (empty store : Phase σ κ).acts B (before ++ x :: after)
        = (((empty store : Phase σ κ).acts B before).act B x).acts B after := by
      rw [acts, List.foldl_append]
      rfl
    rw [hacts]
    exact ⟨hend.unfetched, hend.not_failed⟩

/-- The way of an attempt that finds nothing and whose fetch brings some module. -/
def bring (n : Handle) (name : String) : List PhaseEvent :=
  [.load (.look n), .load (.fetched n (.ok (Utf8.encode name))), .load (.make n), .load (.keep n)]

/-- A reader is fetched in vain and then once more.  A call from elsewhere joins while
    its bytes are in the store and it has not let go of its key, and one comes later. -/
def relapse : List PhaseAct :=
  [.control (.request "1" ⟨"r", some "e"⟩), .load ⟨.reader, "1"⟩ "elsewhere",
    .control (.load (.look 0)), .control (.load (.fetched 0 (.error "gone"))),
    .control (.resume 0), .control (.request "1" ⟨"r", some "e"⟩),
    .control (.load (.look 1)), .control (.load (.fetched 1 (.ok (Utf8.encode "reader")))),
    .control (.load (.make 1)), .written 1, .load ⟨.reader, "1"⟩ "elsewhere",
    .control (.load (.keep 1)), .load ⟨.reader, "1"⟩ "elsewhere",
    .control (.load (.look 2)), .control (.load (.make 2))]

theorem relapse_fetched_once :
    StandIn.backend.store.StartsEmpty MemoryStore.empty ∧ (∀ x ∈ relapse, x.IsFor "1") ∧
    ((empty MemoryStore.empty).acts StandIn.backend relapse).loader.fetchesFor
      (Variant.key ⟨.reader, "1"⟩) = 1 + 1 := by
  have hfor : ∀ x ∈ relapse, x.IsFor "1" := by decide
  have hover : ∀ a ∈ ((empty MemoryStore.empty).acts StandIn.backend relapse).loader.attempts,
      a.outcome?.isSome = true := by decide
  obtain ⟨hcount, -⟩ :=
    one_version_fetched_once StandIn.backend MemoryStore.empty .memory "1" relapse hfor _ rfl
  refine ⟨.memory, hfor, (hcount .reader ?_).trans (by decide)⟩
  rintro n ⟨a, ha, -, hun⟩
  have hout := hover a (List.mem_of_getElem? ha)
  rw [hun] at hout
  exact nomatch hout

end Phase
end PhaseHost
