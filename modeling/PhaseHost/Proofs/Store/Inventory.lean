import Mathlib.Data.List.Perm.Subperm
import PhaseHost.Proofs.Store.Retention
import PhaseHost.Proofs.Store.Tampering

/-! # What a store keeps

    Retention says what a store answers.  This file says what is IN it, entry by
    entry, for the store in memory and for a table alike: a row of a table is an
    entry with a digest beside it.

    `Store.Shelves` is the contract.  A look-up leaves the entries alone and finds
    nothing but them; a put does to them what the rule of the shelf says, as long as
    the store is OPEN.  A table that cannot be opened forgets what it is given, and
    whether it can be opened is for the disk to say, so both cases are part of the
    contract. -/

namespace PhaseHost

variable {σ : Type}

/-! ## Entries -/

namespace Labels

variable {α β : Type} {L : Labels α} {M : Labels β} {entries : List α}

/-- Whatever keeps keys and versions keeps the rule of the shelf. -/
theorem map_shelve {f : α → β} (hkey : ∀ e, M.key (f e) = L.key e)
    (hversion : ∀ e, M.version (f e) = L.version e) (x : α) (entries : List α) :
    (L.shelve x entries).map f = M.shelve (f x) (entries.map f) := by
  simp only [shelve, List.map_cons, List.filter_map, hkey, hversion, Function.comp_def]

/-- A shelf in order has room for the two builds of a version. -/
theorem Tidy.length_le_two (h : L.Tidy entries) : entries.length ≤ 2 := by
  cases entries with
  | nil => exact Nat.zero_le 2
  | cons first rest =>
      let version := L.version first
      have hkeys : (first :: rest).map L.key
          ⊆ [Variant.key ⟨.reader, version⟩, Variant.key ⟨.engine, version⟩] := by
        intro key hmem
        obtain ⟨e, he, rfl⟩ := List.mem_map.mp hmem
        obtain ⟨kind, hname⟩ := h.named e he
        rw [hname, h.uniform e he first List.mem_cons_self]
        cases kind with
        | reader => exact List.mem_cons_self
        | engine => exact List.mem_cons_of_mem _ List.mem_cons_self
      have hlength := (List.subperm_of_subset h.keyed hkeys).length_le
      rwa [List.length_map] at hlength

end Labels

/-- The entry that a row is. -/
def Row.entry (r : Row) : MemoryEntry :=
  ⟨⟨r.key⟩, r.version, r.bytes⟩

/-- The entries of a table. -/
def Table.entries (t : Table) (d : Disk) : List MemoryEntry :=
  (t.stored d).map Row.entry

/-- The entry that is put for a variant. -/
def Variant.entry (v : Variant) (bytes : Bytes) : MemoryEntry :=
  ⟨v.key, v.version, bytes⟩

/-- Where the entries of a store are: in memory, or in the rows of a table. -/
inductive Store.KeptBy : {σ : Type} → Store σ → (σ → List MemoryEntry) → Prop
  | memory : KeptBy MemoryStore.store MemoryStore.entries
  | table (t : Table) : KeptBy t.store t.entries

/-! ## The contract -/

/-- A store keeps its entries by the rule of the shelf while it is open, and forgets
    what it is given while it is not. -/
structure Store.Shelves (S : Store σ) (Open : σ → Prop) (entries : σ → List MemoryEntry) :
    Prop where
  open_get : ∀ {s}, Open s → ∀ key, Open (S.get key s).2
  open_put : ∀ {s}, Open s → ∀ v bytes, Open (S.put v bytes s)
  entries_get : ∀ s key, entries (S.get key s).2 = entries s
  entries_put : ∀ {s}, Open s → ∀ v bytes,
    entries (S.put v bytes s) = MemoryStore.labels.shelve (v.entry bytes) (entries s)
  entries_forgotten : ∀ {s}, ¬ Open s → ∀ v bytes, entries (S.put v bytes s) = entries s
  found : ∀ {s key bytes}, (S.get key s).1 = some bytes →
    ∃ e ∈ entries s, e.key = key ∧ e.bytes = bytes

theorem MemoryStore.shelves : store.Shelves (fun _ => True) entries where
  open_get _ _ := trivial
  open_put _ _ _ := trivial
  entries_get _ _ := rfl
  entries_put _ _ _ := rfl
  entries_forgotten h := absurd trivial h
  found := by
    intro s key bytes hget
    obtain ⟨e, hfind, hbytes⟩ := Option.map_eq_some_iff.mp hget
    have hkey := List.find?_some hfind
    exact ⟨e, List.mem_of_find?_eq_some hfind, of_decide_eq_true hkey, hbytes⟩

/-- A row that is found under a key is one of the rows, intact or not. -/
theorem Row.exists_of_get? {key : CacheKey} {rows : List Row} {bytes : Bytes}
    (h : get? key rows = some bytes) : ∃ r ∈ rows, r.entry.key = key ∧ r.bytes = bytes := by
  rw [get?_eq] at h
  obtain ⟨r, hfilter, hbytes⟩ := Option.map_eq_some_iff.mp h
  obtain ⟨hfind, -⟩ := Option.filter_eq_some_iff.mp hfilter
  have hkey := List.find?_some hfind
  exact ⟨r, List.mem_of_find?_eq_some hfind, of_decide_eq_true hkey, hbytes⟩

theorem Table.shelves (t : Table) : t.store.Shelves t.Usable t.entries where
  open_get h key := (get_of_usable h key).2.1
  open_put h v bytes := (put_of_usable h v bytes).1
  entries_get d key := congrArg (List.map Row.entry) (t.stored_get d key)
  entries_put := by
    intro d h v bytes
    refine (congrArg (List.map Row.entry) (put_of_usable h v bytes).2).trans ?_
    rw [Row.put_eq]
    exact Labels.map_shelve (f := Row.entry) (fun _ => rfl) (fun _ => rfl) _ _
  entries_forgotten h v bytes :=
    congrArg (List.map Row.entry) (stored_dirsMade (put_of_unusable h v bytes) t)
  found := by
    intro d key bytes hget
    change (t.get key d).1 = some bytes at hget
    by_cases husable : t.Usable d
    · rw [(get_of_usable husable key).1] at hget
      obtain ⟨r, hr, hkey, hbytes⟩ := Row.exists_of_get? hget
      exact ⟨r.entry, List.mem_map_of_mem hr, hkey, hbytes⟩
    · rw [(get_of_unusable husable key).1] at hget
      exact nomatch hget

/-- **BOTH STORES KEEP THEIR ENTRIES BY ONE RULE**. -/
theorem Store.KeptBy.shelves {S : Store σ} {entries : σ → List MemoryEntry}
    (h : S.KeptBy entries) : ∃ Open, S.Shelves Open entries := by
  cases h with
  | memory => exact ⟨_, MemoryStore.shelves⟩
  | table t => exact ⟨_, t.shelves⟩

/-! ## While a store is open -/

/-- Where the entries of a store are, and when the store is open: in memory always, in a
    table while that can be opened. -/
inductive Store.KeptWhile :
    {σ : Type} → Store σ → (σ → Prop) → (σ → List MemoryEntry) → Prop
  | memory : KeptWhile MemoryStore.store (fun _ => True) MemoryStore.entries
  | table (t : Table) : KeptWhile t.store t.Usable t.entries

theorem Store.KeptWhile.shelves {S : Store σ} {Open : σ → Prop} {entries : σ → List MemoryEntry}
    (h : S.KeptWhile Open entries) : S.Shelves Open entries := by
  cases h with
  | memory => exact MemoryStore.shelves
  | table t => exact t.shelves

theorem MemoryStore.get?_put (v : Variant) (bytes : Bytes) (s : MemoryStore) :
    (s.put v bytes).get? v.key = some bytes := by
  have hfind : (s.put v bytes).entries.find? (fun e => e.key = v.key)
      = some (v.entry bytes) :=
    List.find?_cons_of_pos (decide_eq_true rfl)
  simp only [get?, hfind]
  rfl

/-- The row of fresh bytes is found, and it is intact. -/
theorem Row.get?_put (v : Variant) (bytes : Bytes) (rows : List Row) :
    get? v.key (put v bytes rows) = some bytes := by
  have hfind : (put v bytes rows).find? (fun r => r.key = v.key.text)
      = some (ofBytes v bytes) :=
    List.find?_cons_of_pos (decide_eq_true rfl)
  simp only [get?, hfind]
  exact if_pos (isIntact_ofBytes v bytes)

/-- **WHAT IS PUT IS FOUND** by a store that is open, whatever was there before. -/
theorem Store.KeptWhile.get_put {S : Store σ} {Open : σ → Prop}
    {entries : σ → List MemoryEntry} (h : S.KeptWhile Open entries) {s : σ} (hopen : Open s)
    (v : Variant) (bytes : Bytes) : (S.get v.key (S.put v bytes s)).1 = some bytes := by
  cases h with
  | memory => exact MemoryStore.get?_put v bytes s
  | table t =>
      obtain ⟨husable, hstored⟩ := Table.put_of_usable hopen v bytes
      show (t.get v.key (t.put v bytes s)).1 = some bytes
      rw [(Table.get_of_usable husable v.key).1, hstored]
      exact Row.get?_put v bytes _

end PhaseHost
