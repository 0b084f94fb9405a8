import Mathlib.Data.List.Induction
import PhaseHost.Proofs.Store.Filing
import PhaseHost.Proofs.Store.Shelf
import PhaseHost.Proofs.Trail
import PhaseHost.Store.Memory

/-! # What stores retain

    Whatever was put into a store and looked up there, the answers are a matter
    of what was put: `Retained` says which bytes count, without a store.

    `Store.Retains` is the contract of a store that answers so.  It speaks of
    what a store HOLDS for each variant: a look-up tells it and leaves it, and a
    put changes it by the rule of the shelf.  Everything about sequences of
    operations follows from the contract, once for all stores, and in particular
    that any two of them give the same answers.

    The store in memory meets the contract, and so does a table that is usable,
    whose rows then are as they were written. -/

namespace PhaseHost

variable {σ : Type}

/-! ## The contract -/

/-- What was put last for a variant, unless bytes for another version were put
    after it. -/
def Retained (puts : List (Variant × Bytes)) (v : Variant) (bytes : Bytes) : Prop :=
  ∃ before after, puts = before ++ (v, bytes) :: after
    ∧ ∀ p ∈ after, p.1.version = v.version ∧ p.1 ≠ v

/-- Nothing is retained from the beginning. -/
theorem not_retained_nil {v : Variant} {bytes : Bytes} : ¬ Retained [] v bytes := by
  rintro ⟨before, after, heq, -⟩
  exact List.append_ne_nil_of_right_ne_nil before (List.cons_ne_nil _ _) heq.symm

/-- The last put decides for its variant and counts against other versions. -/
theorem retained_concat {puts : List (Variant × Bytes)} {v w : Variant} {bytes last : Bytes} :
    Retained (puts ++ [(w, last)]) v bytes ↔
      (v = w ∧ bytes = last) ∨ (v ≠ w ∧ v.version = w.version ∧ Retained puts v bytes) := by
  constructor
  · rintro ⟨before, after, heq, hafter⟩
    rcases List.eq_nil_or_concat after with rfl | ⟨after, p, rfl⟩
    · obtain ⟨-, hlast⟩ := List.append_inj' heq rfl
      cases hlast
      exact Or.inl ⟨rfl, rfl⟩
    · rw [List.concat_eq_append, ← List.cons_append, ← List.append_assoc] at heq
      obtain ⟨hputs, hlast⟩ := List.append_inj' heq rfl
      cases hlast
      rw [List.concat_eq_append] at hafter
      obtain ⟨hversion, hne⟩ := hafter (w, last) (List.mem_append_right _ List.mem_cons_self)
      exact Or.inr ⟨Ne.symm hne, hversion.symm, before, after, hputs,
        fun q hq => hafter q (List.mem_append_left _ hq)⟩
  · rintro (⟨rfl, rfl⟩ | ⟨hne, hversion, before, after, rfl, hafter⟩)
    · exact ⟨puts, [], rfl, nofun⟩
    · refine ⟨before, after ++ [(w, last)], List.append_assoc .., ?_⟩
      intro q hq
      rcases List.mem_append.mp hq with hq | hq
      · exact hafter q hq
      · obtain rfl := List.mem_singleton.mp hq
        exact ⟨hversion.symm, Ne.symm hne⟩

/-- A store retains what was put last of one version: `held` is what it has for
    each variant, as long as it is in order. -/
structure Store.Retains (S : Store σ) (InOrder : σ → Prop) (held : σ → Variant → Option Bytes) :
    Prop where
  get_eq : ∀ {s}, InOrder s → ∀ v, (S.get v.key s).1 = held s v
  get_inOrder : ∀ {s}, InOrder s → ∀ v : Variant, InOrder (S.get v.key s).2
  held_get : ∀ {s}, InOrder s → ∀ v : Variant, held (S.get v.key s).2 = held s
  put_inOrder : ∀ {s}, InOrder s → ∀ v bytes, InOrder (S.put v bytes s)
  held_put : ∀ {s}, InOrder s → ∀ v bytes w, held (S.put v bytes s) w
    = if w = v then some bytes else if w.version = v.version then held s w else none

/-! ## Sequences of operations -/

/-- What is done with a store.  A table is nothing but the place where it lies, so
    to open it anew leaves it as it is. -/
inductive StoreOp where
  | put (v : Variant) (bytes : Bytes)
  | get (v : Variant)
  /-- Another one over the same place takes over. -/
  | reopen
  deriving DecidableEq, Repr

/-- What is put by an operation. -/
def StoreOp.put? : StoreOp → Option (Variant × Bytes)
  | .put v bytes => some (v, bytes)
  | .get _ => none
  | .reopen => none

/-- What is put by operations, in order. -/
def StoreOp.puts (ops : List StoreOp) : List (Variant × Bytes) :=
  ops.filterMap put?

namespace Store

/-- What an operation does. -/
def after (S : Store σ) (s : σ) : StoreOp → σ
  | .put v bytes => S.put v bytes s
  | .get v => (S.get v.key s).2
  | .reopen => s

/-- What an operation is answered, if it asks. -/
def answer? (S : Store σ) (s : σ) : StoreOp → Option (Option Bytes)
  | .put _ _ => none
  | .get v => some (S.get v.key s).1
  | .reopen => none

/-- What a sequence of operations does. -/
def run (S : Store σ) (s : σ) (ops : List StoreOp) : σ :=
  ops.foldl S.after s

/-- The answers along a sequence of operations, in order. -/
def answers (S : Store σ) (s : σ) (ops : List StoreOp) : List (Option Bytes) :=
  trail S.after S.answer? s ops

theorem run_concat (S : Store σ) (s : σ) (ops : List StoreOp) (op : StoreOp) :
    S.run s (ops ++ [op]) = S.after (S.run s ops) op :=
  List.foldl_append

namespace Retains

variable {S : Store σ} {InOrder : σ → Prop} {held : σ → Variant → Option Bytes} {s : σ}

/-- A store stays in order. -/
theorem inOrder_run (h : S.Retains InOrder held) (hs : InOrder s) (ops : List StoreOp) :
    InOrder (S.run s ops) := by
  induction ops using List.reverseRecOn with
  | nil => exact hs
  | append_singleton ops op ih =>
      rw [run_concat]
      cases op with
      | put v bytes => exact h.put_inOrder ih v bytes
      | get v => exact h.get_inOrder ih v
      | reopen => exact ih

/-- What is held after operations on an empty store is what they retain. -/
theorem held_run (h : S.Retains InOrder held) (hs : InOrder s) (hempty : ∀ v, held s v = none)
    (ops : List StoreOp) (v : Variant) (bytes : Bytes) :
    held (S.run s ops) v = some bytes ↔ Retained (StoreOp.puts ops) v bytes := by
  induction ops using List.reverseRecOn with
  | nil =>
      rw [show S.run s [] = s from rfl, hempty v]
      exact ⟨nofun, fun hno => (not_retained_nil hno).elim⟩
  | append_singleton ops op ih =>
      have horder := h.inOrder_run hs ops
      have hputs : StoreOp.puts (ops ++ [op]) = StoreOp.puts ops ++ op.put?.toList := by
        simp only [StoreOp.puts, List.filterMap_append]
        cases op <;> rfl
      rw [run_concat, hputs]
      cases op with
      | put w last =>
          show held (S.put w last _) v = some bytes ↔ Retained (_ ++ [(w, last)]) v bytes
          rw [h.held_put horder, retained_concat]
          by_cases hvw : v = w
          · simp [hvw, eq_comm]
          · by_cases hversion : v.version = w.version
            · simp [hvw, hversion, ih]
            · simp [hvw, hversion]
      | get w =>
          show held (S.get w.key _).2 v = some bytes ↔ Retained (_ ++ []) v bytes
          rw [h.held_get horder, List.append_nil]
          exact ih
      | reopen =>
          show held (S.run s ops) v = some bytes ↔ Retained (_ ++ []) v bytes
          rw [List.append_nil]
          exact ih

/-- Every look-up after operations is answered from what they retain. -/
theorem get_run (h : S.Retains InOrder held) (hs : InOrder s) (hempty : ∀ v, held s v = none)
    (ops : List StoreOp) (v : Variant) (bytes : Bytes) :
    (S.get v.key (S.run s ops)).1 = some bytes ↔ Retained (StoreOp.puts ops) v bytes := by
  rw [h.get_eq (h.inOrder_run hs ops)]
  exact h.held_run hs hempty ops v bytes

/-- **ANY TWO STORES AGREE** that retain by the same rule. -/
theorem answers_eq {τ : Type} {T : Store τ} {InOrder' : τ → Prop}
    {held' : τ → Variant → Option Bytes} {t : τ} (h : S.Retains InOrder held)
    (h' : T.Retains InOrder' held') (hs : InOrder s) (ht : InOrder' t)
    (hempty : ∀ v, held s v = none) (hempty' : ∀ v, held' t v = none) (ops : List StoreOp) :
    S.answers s ops = T.answers t ops := by
  induction ops using List.reverseRecOn with
  | nil => rfl
  | append_singleton ops op ih =>
      simp only [answers] at ih ⊢
      rw [trail_concat, trail_concat, ih]
      refine congrArg (_ ++ ·) (congrArg Option.toList ?_)
      cases op with
      | put v bytes => rfl
      | reopen => rfl
      | get v =>
          refine congrArg some (Option.ext ?_)
          intro bytes
          exact (h.get_run hs hempty ops v bytes).trans (h'.get_run ht hempty' ops v bytes).symm

end Retains
end Store

/-! ## The store in memory -/

namespace MemoryStore

/-- How the entries in memory are labelled. -/
def labels : Labels MemoryEntry :=
  ⟨MemoryEntry.key, MemoryEntry.version⟩

/-- The store in memory retains what is put. -/
theorem retains :
    store.Retains (fun s => labels.Tidy s.entries) (fun s v => s.get? v.key) where
  get_eq _ _ := rfl
  get_inOrder h _ := h
  held_get _ _ := rfl
  put_inOrder h _ _ := h.shelve rfl rfl
  held_put := by
    intro s h v bytes w
    have hfind := h.find?_shelve (x := ⟨v.key, v.version, bytes⟩) rfl rfl w
    refine (congrArg (Option.map MemoryEntry.bytes) hfind).trans ?_
    by_cases hwv : w = v
    · rw [if_pos hwv, if_pos hwv]
      rfl
    · rw [if_neg hwv, if_neg hwv]
      by_cases hversion : w.version = v.version
      · rw [if_pos hversion, if_pos hversion]
        rfl
      · rw [if_neg hversion, if_neg hversion]
        rfl

end MemoryStore

/-! ## The store in a file -/

namespace Row

/-- How rows are labelled. -/
def labels : Labels Row :=
  ⟨fun r => ⟨r.key⟩, Row.version⟩

/-- A row stands under the text of its key. -/
theorem key_eq_iff {r : Row} {key : CacheKey} : labels.key r = key ↔ r.key = key.text := by
  constructor
  · rintro rfl
    rfl
  · intro h
    exact congrArg CacheKey.mk h

/-- Rows are shelved. -/
theorem put_eq (v : Variant) (bytes : Bytes) (rows : List Row) :
    put v bytes rows = labels.shelve (ofBytes v bytes) rows := by
  refine congrArg (ofBytes v bytes :: ·) (List.filter_congr ?_)
  intro r _
  exact decide_eq_decide.mpr (not_congr key_eq_iff.symm)

/-- A look-up finds the row under the key, if it is intact. -/
theorem get?_eq (key : CacheKey) (rows : List Row) :
    get? key rows
      = ((rows.find? (fun r => labels.key r = key)).filter isIntact).map Row.bytes := by
  have hfind : rows.find? (fun r => r.key = key.text)
      = rows.find? (fun r => labels.key r = key) :=
    find?_congr (fun r _ => decide_eq_decide.mpr key_eq_iff.symm)
  simp only [get?, hfind]
  cases rows.find? (fun r => labels.key r = key) with
  | none => rfl
  | some r =>
      rw [Option.filter_some]
      dsimp only
      split <;> rfl

/-- Rows as they were written: in order, each under the key that its version and
    its kind make, with the digest of its bytes. -/
structure Written (rows : List Row) : Prop where
  tidy : labels.Tidy rows
  joined : ∀ r ∈ rows, r.key = r.version ++ "_" ++ r.kind
  intact : ∀ r ∈ rows, r.isIntact = true

/-- A row that was just made is intact. -/
theorem isIntact_ofBytes (v : Variant) (bytes : Bytes) : (ofBytes v bytes).isIntact = true :=
  decide_eq_true rfl

/-- An empty table was written by nobody else. -/
theorem written_nil : Written [] :=
  ⟨labels.tidy_nil, nofun, nofun⟩

/-- A table in which bytes are put stays one that nobody else has written. -/
theorem Written.put {rows : List Row} (h : Written rows) (v : Variant) (bytes : Bytes) :
    Written (put v bytes rows) := by
  rw [put_eq]
  refine ⟨h.tidy.shelve rfl rfl, ?_, ?_⟩
  · intro r hr
    rcases Labels.mem_shelve.mp hr with rfl | ⟨hold, -, -⟩
    · rfl
    · exact h.joined r hold
  · intro r hr
    rcases Labels.mem_shelve.mp hr with rfl | ⟨hold, -, -⟩
    · exact isIntact_ofBytes v bytes
    · exact h.intact r hold

/-- No two rows that were written are of the same kind. -/
theorem Written.kinds {rows : List Row} (h : Written rows) : (rows.map Row.kind).Nodup := by
  refine List.pairwise_map.mpr ((List.pairwise_map.mp h.tidy.keyed).imp_of_mem ?_)
  intro r r' hr hr' hkey hkind
  refine hkey (congrArg CacheKey.mk ?_)
  rw [h.joined r hr, h.joined r' hr', hkind, show r.version = r'.version from
    h.tidy.uniform r hr r' hr']

end Row

namespace Table

/-- A usable table retains what is put. -/
theorem retains (t : Table) :
    t.store.Retains (fun d => t.Usable d ∧ Row.Written (t.stored d))
      (fun d v => Row.get? v.key (t.stored d)) where
  get_eq h v := (get_of_usable h.1 v.key).1
  get_inOrder := by
    rintro d ⟨husable, hwritten⟩ v
    obtain ⟨-, husable', hstored⟩ := get_of_usable husable v.key
    exact ⟨husable', hstored ▸ hwritten⟩
  held_get := by
    rintro d ⟨husable, -⟩ v
    obtain ⟨-, -, hstored⟩ := get_of_usable husable v.key
    show (fun w : Variant => Row.get? w.key (t.stored (t.get v.key d).2)) = _
    rw [hstored]
  put_inOrder := by
    rintro d ⟨husable, hwritten⟩ v bytes
    obtain ⟨husable', hstored⟩ := put_of_usable husable v bytes
    exact ⟨husable', hstored ▸ hwritten.put v bytes⟩
  held_put := by
    rintro d ⟨husable, hwritten⟩ v bytes w
    obtain ⟨-, hstored⟩ := put_of_usable husable v bytes
    show Row.get? w.key (t.stored (t.put v bytes d)) = _
    rw [hstored, Row.get?_eq, Row.put_eq, hwritten.tidy.find?_shelve rfl rfl w]
    by_cases hwv : w = v
    · rw [if_pos hwv, if_pos hwv, Option.filter_some, if_pos (Row.isIntact_ofBytes v bytes)]
      rfl
    · rw [if_neg hwv, if_neg hwv]
      by_cases hversion : w.version = v.version
      · rw [if_pos hversion, if_pos hversion, Row.get?_eq]
      · rw [if_neg hversion, if_neg hversion]
        rfl

/-- A table in which nothing is stored holds nothing. -/
theorem inOrder_of_empty {t : Table} {d : Disk} (husable : t.Usable d) (hempty : t.stored d = []) :
    (t.Usable d ∧ Row.Written (t.stored d)) ∧
      ∀ v : Variant, Row.get? v.key (t.stored d) = none := by
  rw [hempty]
  exact ⟨⟨husable, Row.written_nil⟩, fun _ => rfl⟩

end Table

/-! ## Both stores -/

/-- **BOTH STORES RETAIN THE SAME**.  Over a table that can be opened and has nothing
    stored yet, whatever is put, looked up and opened anew:

    * the store in memory and the table answer every look-up alike;
    * what they answer for a variant is what was put last for exactly this build of
      this version, unless bytes for another version were put after it;
    * different variants have different keys;
    * both hold entries of one version only, at most one for each build. -/
theorem stores_agree (t : Table) (d : Disk) (husable : t.Usable d) (hempty : t.stored d = [])
    (ops : List StoreOp) :
    MemoryStore.store.answers MemoryStore.empty ops = t.store.answers d ops ∧
    (∀ v bytes, (MemoryStore.store.run MemoryStore.empty ops).get? v.key = some bytes
      ↔ Retained (StoreOp.puts ops) v bytes) ∧
    (∀ v bytes, (t.get v.key (t.store.run d ops)).1 = some bytes
      ↔ Retained (StoreOp.puts ops) v bytes) ∧
    (∀ v w : Variant, v.key = w.key → v = w) ∧
    MemoryStore.labels.Tidy (MemoryStore.store.run MemoryStore.empty ops).entries ∧
    (t.Usable (t.store.run d ops) ∧ Row.Written (t.stored (t.store.run d ops)) ∧
      ((t.stored (t.store.run d ops)).map Row.kind).Nodup) := by
  have hmemory : MemoryStore.labels.Tidy MemoryStore.empty.entries := Labels.tidy_nil _
  have hnothing : ∀ v : Variant, MemoryStore.empty.get? v.key = none := fun _ => rfl
  obtain ⟨htable, hnothing'⟩ := Table.inOrder_of_empty husable hempty
  obtain ⟨husable', hwritten⟩ := t.retains.inOrder_run htable ops
  refine ⟨?_, ?_, ?_, fun _ _ => Variant.key_injective, ?_, husable', hwritten, hwritten.kinds⟩
  · exact MemoryStore.retains.answers_eq t.retains hmemory htable hnothing hnothing' ops
  · exact MemoryStore.retains.get_run hmemory hnothing ops
  · exact t.retains.get_run htable hnothing' ops
  · exact MemoryStore.retains.inOrder_run hmemory ops

/-- A table in a directory that has to be made first. -/
def Table.sample : Table :=
  ⟨[], [0x2F, 0x63, 0x2F, 0x64]⟩

/-- On an empty disk the sample can be used. -/
theorem Table.sample_usable : sample.Usable Disk.empty :=
  ⟨[[0x63], [0x64]], by decide, by decide, Or.inl (by decide)⟩

/-- Versions whose names hold an underscore and the name of a build. -/
def awkwardOps : List StoreOp :=
  [.put ⟨.reader, "a"⟩ [1], .put ⟨.engine, "a_reader"⟩ [2], .reopen, .get ⟨.reader, "a"⟩,
    .put ⟨.reader, "a_reader"⟩ [3], .get ⟨.engine, "a_reader"⟩, .put ⟨.reader, "a_reader"⟩ [4],
    .get ⟨.reader, "a_reader"⟩]

/-- Both stores keep such versions apart, and both builds of the last one. -/
theorem awkward_versions_agree :
    Table.sample.Usable Disk.empty ∧ Table.sample.stored Disk.empty = [] ∧
    MemoryStore.store.answers MemoryStore.empty awkwardOps
      = Table.sample.store.answers Disk.empty awkwardOps ∧
    (Table.sample.get (Variant.key ⟨.engine, "a_reader"⟩)
      (Table.sample.store.run Disk.empty awkwardOps)).1 = some [2] ∧
    (Table.sample.get (Variant.key ⟨.reader, "a_reader"⟩)
      (Table.sample.store.run Disk.empty awkwardOps)).1 = some [4] := by
  have hempty : Table.sample.stored Disk.empty = [] := by decide
  obtain ⟨hanswers, -, htable, -⟩ :=
    stores_agree Table.sample Disk.empty Table.sample_usable hempty awkwardOps
  refine ⟨Table.sample_usable, hempty, hanswers, ?_, ?_⟩
  · exact (htable _ _).mpr ⟨[(⟨.reader, "a"⟩, [1])],
      [(⟨.reader, "a_reader"⟩, [3]), (⟨.reader, "a_reader"⟩, [4])], rfl, by decide⟩
  · exact (htable _ _).mpr ⟨[(⟨.reader, "a"⟩, [1]), (⟨.engine, "a_reader"⟩, [2]),
      (⟨.reader, "a_reader"⟩, [3])], [], rfl, nofun⟩

end PhaseHost
