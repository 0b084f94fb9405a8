import Mathlib.Data.List.Nodup
import PhaseHost.Json.Record

/-! # Records read back

    What a record writes, it reads.  The description of a record is one list of
    fields, so there is one proof for all records: the written object holds, under
    the name of each field, what that field wrote, because names are not repeated;
    and each field reads what it wrote.

    A field need not read back the same value.  An optional `null` is written but
    reads as absent, and that is all that is ever lost; so what is read back is
    spoken of by `Record.Reads`, which follows the fields. -/

namespace PhaseHost

namespace Fields

variable {β : Type} {key : String} {value : β}

theorem find?_eq_none_of_notMem {fields : Fields β} (h : key ∉ fields.map Prod.fst) :
    find? key fields = none := by
  induction fields with
  | nil => rfl
  | cons p rest ih =>
      obtain ⟨k, v⟩ := p
      rw [List.map_cons, List.mem_cons, not_or] at h
      rw [find?_cons, if_neg (fun heq => h.1 heq.symm), ih h.2]

/-- Fields with different keys are found among those they are inserted into. -/
theorem find?_foldl_insert {pairs : List (String × β)} (hkeys : (pairs.map Prod.fst).Nodup)
    (fields : Fields β) :
    find? key (pairs.foldl (fun fields p => insert p.1 p.2 fields) fields)
      = (find? key pairs).or (find? key fields) := by
  induction pairs generalizing fields with
  | nil => rfl
  | cons p rest ih =>
      obtain ⟨k, v⟩ := p
      obtain ⟨hk, hrest⟩ := List.nodup_cons.mp hkeys
      rw [List.foldl_cons, ih hrest, find?_cons]
      by_cases hkey : k = key
      · subst hkey
        rw [if_pos rfl, find?_eq_none_of_notMem hk, Option.none_or, find?_insert_self]
        rfl
      · rw [if_neg hkey, find?_insert_of_ne (Ne.symm hkey)]

theorem find?_ofList {pairs : List (String × β)} (hkeys : (pairs.map Prod.fst).Nodup) :
    find? key (ofList pairs) = find? key pairs := by
  show find? key (pairs.foldl _ []) = _
  rw [find?_foldl_insert hkeys, find?_nil, Option.or_none]

theorem mem_of_mem_foldl_insert {pairs : List (String × β)} {fields : Fields β}
    {p : String × β} (h : p ∈ pairs.foldl (fun fields q => insert q.1 q.2 fields) fields) :
    p ∈ pairs ∨ p ∈ fields := by
  induction pairs generalizing fields with
  | nil => exact Or.inr h
  | cons q rest ih =>
      rcases ih h with hrest | hinsert
      · exact Or.inl (List.mem_cons_of_mem _ hrest)
      · rcases mem_insert hinsert with rfl | hold
        · exact Or.inl List.mem_cons_self
        · exact Or.inr hold

/-- Nothing is in an object but what was put there. -/
theorem mem_of_mem_ofList {pairs : List (String × β)} {p : String × β} (h : p ∈ ofList pairs) :
    p ∈ pairs :=
  (mem_of_mem_foldl_insert h).resolve_right nofun

end Fields

/-- A field that writes one value reads another. -/
def Field.Reads {α : Type} (f : Field α) (x x' : α) : Prop :=
  match f.encode x with
  | some v => f.decode v = .ok x'
  | none => f.fallback = some x'

namespace Record

/-- A record that writes some values reads others, field by field. -/
def Reads : {αs : List Type} → Record αs → Values αs → Values αs → Prop
  | _, .nil, _, _ => True
  | _, .cons field rest, (x, xs), (x', xs') => field.Reads x x' ∧ rest.Reads xs xs'

variable {αs : List Type} {r : Record αs} {xs xs' : Values αs}

/-- What a record writes is what its fields write, under their names. -/
theorem mem_pairs_cons {α : Type} {field : Field α} {x : α} {p : String × Json} :
    p ∈ (cons field r).pairs (x, xs) ↔
      (∃ v, field.encode x = some v ∧ p = (field.name, v)) ∨ p ∈ r.pairs xs := by
  simp only [pairs]
  cases field.encode x with
  | none => exact ⟨Or.inr, fun h => h.resolve_left (fun ⟨_, hnone, _⟩ => nomatch hnone)⟩
  | some v =>
      simp only [List.mem_cons, Option.some.injEq, exists_eq_left']

/-- Only names of fields are written, each once at most. -/
theorem keys_sublist (r : Record αs) (xs : Values αs) :
    ((r.pairs xs).map Prod.fst).Sublist r.names := by
  induction r with
  | nil => exact .slnil
  | cons field rest ih =>
      obtain ⟨x, xs⟩ := xs
      simp only [pairs, names]
      cases field.encode x with
      | some v => exact (ih xs).cons_cons _
      | none => exact (ih xs).cons _

/-- No field finds fault with what was written. -/
theorem fault?_of_mem (hnames : r.names.Nodup) (hreads : r.Reads xs xs') {key : String}
    {v : Json} (h : (key, v) ∈ r.pairs xs) : r.fault? key v = none := by
  induction r with
  | nil => rfl
  | cons field rest ih =>
      obtain ⟨x, xs⟩ := xs
      obtain ⟨x', xs'⟩ := xs'
      obtain ⟨hfield, hrest⟩ := hreads
      obtain ⟨hname, hnames⟩ := List.nodup_cons.mp hnames
      -- an entry of a later field has another name than this one
      have hlater : (key, v) ∈ rest.pairs xs →
          (Record.cons field rest).fault? key v = none := by
        intro hmem
        have hkey : key ∈ rest.names :=
          (keys_sublist rest xs).subset (List.mem_map.mpr ⟨_, hmem, rfl⟩)
        have hne : field.name ≠ key := by
          rintro rfl
          exact hname hkey
        simp only [fault?]
        rw [if_neg hne]
        exact ih hnames hrest hmem
      simp only [pairs] at h
      simp only [Field.Reads] at hfield
      cases hencode : field.encode x with
      | none =>
          rw [hencode] at h
          exact hlater h
      | some w =>
          rw [hencode] at h hfield
          rcases List.mem_cons.mp h with heq | hmem
          · obtain ⟨rfl, rfl⟩ := Prod.mk.inj heq
            simp only [fault?]
            rw [if_pos trivial, hfield]
          · exact hlater hmem

/-- Fields are taken from any object that holds, under their names, what was written. -/
theorem ofObject_of_find? (hnames : r.names.Nodup) (hreads : r.Reads xs xs')
    {fields : List (String × Json)}
    (hfind : ∀ name ∈ r.names, Fields.find? name fields = Fields.find? name (r.pairs xs)) :
    r.ofObject fields = .ok xs' := by
  induction r with
  | nil => rfl
  | cons field rest ih =>
      obtain ⟨x, xs⟩ := xs
      obtain ⟨x', xs'⟩ := xs'
      obtain ⟨hfield, hreads⟩ := hreads
      obtain ⟨hname, hnames⟩ := List.nodup_cons.mp hnames
      have hown := hfind field.name List.mem_cons_self
      have hrest : ∀ name ∈ rest.names,
          Fields.find? name fields = Fields.find? name (rest.pairs xs) := by
        intro name hmem
        rw [hfind name (List.mem_cons_of_mem _ hmem)]
        have hne : field.name ≠ name := by
          rintro rfl
          exact hname hmem
        simp only [pairs]
        cases field.encode x with
        | none => rfl
        | some v => exact if_neg hne
      have habsent : Fields.find? field.name (rest.pairs xs) = none :=
        Fields.find?_eq_none_of_notMem (fun hmem => hname ((keys_sublist rest xs).subset hmem))
      simp only [ofObject]
      rw [hown, ih hnames hreads hrest]
      simp only [Field.Reads] at hfield
      simp only [pairs]
      cases hencode : field.encode x with
      | some v =>
          rw [hencode] at hfield
          simp only [Fields.find?_cons, if_pos]
          rw [hfield]
          rfl
      | none =>
          rw [hencode] at hfield
          simp only [habsent, Field.absent, hfield]
          rfl

/-- **WRITTEN AND READ BACK**: a record reads what it wrote, field by field. -/
theorem decode_encode (r : Record αs) (name : String) (hnames : r.names.Nodup)
    (hreads : r.Reads xs xs') : r.decode name (r.encode xs) = .ok xs' := by
  have hkeys : ((r.pairs xs).map Prod.fst).Nodup := (keys_sublist r xs).nodup hnames
  have hfault : (Fields.ofList (r.pairs xs)).findSome? (fun p => r.fault? p.1 p.2) = none := by
    refine List.findSome?_eq_none_iff.mpr ?_
    rintro ⟨key, v⟩ hmem
    exact fault?_of_mem hnames hreads (Fields.mem_of_mem_ofList hmem)
  have hobject : r.ofObject (Fields.ofList (r.pairs xs)) = .ok xs' :=
    ofObject_of_find? hnames hreads (fun _ _ => Fields.find?_ofList hkeys)
  simp only [encode, Json.ofPairs, decode]
  rw [hfault]
  exact hobject

end Record
end PhaseHost
