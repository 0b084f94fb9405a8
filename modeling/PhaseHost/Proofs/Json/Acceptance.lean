import PhaseHost.Proofs.Json.Records

/-! # What records accept

    A record is read from an object or from an array.  Which of them it accepts,
    and as which values, is said here by what each field GIVES for the value
    under its name, without the order in which they are looked at.

    So keys that name no field do not matter, and an array counts as the object
    in which its items stand under the names of the fields. -/

namespace PhaseHost

namespace Fields

variable {β : Type} {key : String} {value : β}

theorem find?_of_mem {fields : Fields β} (hkeys : (fields.map Prod.fst).Nodup)
    (h : (key, value) ∈ fields) : find? key fields = some value := by
  induction fields with
  | nil => exact nomatch h
  | cons p rest ih =>
      obtain ⟨k, v⟩ := p
      obtain ⟨hk, hrest⟩ := List.nodup_cons.mp hkeys
      rw [find?_cons]
      rcases List.mem_cons.mp h with heq | hmem
      · cases heq
        exact if_pos rfl
      · have hne : k ≠ key := by
          rintro rfl
          exact hk (List.mem_map.mpr ⟨_, hmem, rfl⟩)
        rw [if_neg hne]
        exact ih hrest hmem

/-- What is found is there. -/
theorem mem_of_find? {fields : Fields β} (h : find? key fields = some value) :
    (key, value) ∈ fields := by
  induction fields with
  | nil => exact nomatch h
  | cons p rest ih =>
      obtain ⟨k, v⟩ := p
      rw [find?_cons] at h
      by_cases hk : k = key
      · rw [if_pos hk] at h
        cases h
        exact hk ▸ List.mem_cons_self
      · rw [if_neg hk] at h
        exact List.mem_cons_of_mem _ (ih h)

theorem find?_eq_none_iff {fields : Fields β} :
    find? key fields = none ↔ ∀ p ∈ fields, p.1 ≠ key := by
  induction fields with
  | nil => exact ⟨fun _ => nofun, fun _ => rfl⟩
  | cons p rest ih =>
      obtain ⟨k, v⟩ := p
      rw [find?_cons, List.forall_mem_cons, ← ih]
      by_cases hk : k = key
      · rw [if_pos hk]
        exact ⟨nofun, fun h => absurd hk h.1⟩
      · rw [if_neg hk]
        exact (and_iff_right hk).symm

/-- The fields of any list of pairs have different keys. -/
theorem nodup_ofList (pairs : List (String × β)) : ((ofList pairs).map Prod.fst).Nodup := by
  refine List.pairwise_map.mpr ((ascending_ofList pairs).imp ?_)
  intro p q hlt heq
  exact String.lt_irrefl q.1 (heq ▸ hlt)

end Fields

/-- A field gives a value for what stands under its name, or for nothing. -/
def Field.Gives {α : Type} (f : Field α) (v? : Option Json) (x : α) : Prop :=
  match v? with
  | some v => f.decode v = .ok x
  | none => f.fallback = some x

theorem Field.absent_eq_ok_iff {α : Type} {f : Field α} {error : DecodeError} {x : α} :
    f.absent error = .ok x ↔ f.Gives none x := by
  simp only [absent, Gives]
  cases f.fallback with
  | none =>
      constructor
      · intro h
        cases h
      · intro h
        cases h
  | some y => rw [Except.ok.injEq, Option.some.injEq]

/-- Decoding two things in a row succeeds if both do. -/
theorem Decoded.bind_pair_eq_ok_iff {α β : Type} {dx : Decoded α} {dxs : Decoded β} {x : α}
    {xs : β} : (do let x ← dx; let xs ← dxs; .ok (x, xs)) = (.ok (x, xs) : Decoded (α × β)) ↔
      dx = .ok x ∧ dxs = .ok xs := by
  cases dx with
  | error e => exact ⟨nofun, fun h => nomatch h.1⟩
  | ok y =>
      cases dxs with
      | error e => exact ⟨nofun, fun h => nomatch h.2⟩
      | ok ys =>
          show Except.ok (y, ys) = Except.ok (x, xs) ↔ _
          rw [Except.ok.injEq, Except.ok.injEq, Except.ok.injEq, Prod.mk.injEq]

namespace Record

/-- A record gives values for what stands under the names of its fields. -/
def Gives : {αs : List Type} → Record αs → (String → Option Json) → Values αs → Prop
  | _, .nil, _, _ => True
  | _, .cons field rest, look, (x, xs) => field.Gives (look field.name) x ∧ rest.Gives look xs

variable {αs : List Type} {r : Record αs} {xs : Values αs} {look look' : String → Option Json}

/-- Only what stands under the names of fields matters. -/
theorem gives_congr (h : ∀ key ∈ r.names, look key = look' key) :
    r.Gives look xs ↔ r.Gives look' xs := by
  induction r with
  | nil => exact Iff.rfl
  | cons field rest ih =>
      obtain ⟨x, xs⟩ := xs
      simp only [Gives]
      rw [h field.name List.mem_cons_self, ih (fun key hk => h key (List.mem_cons_of_mem _ hk))]

/-! ## Objects -/

theorem ofObject_eq_ok_iff {fields : List (String × Json)} :
    r.ofObject fields = .ok xs ↔ r.Gives (fun key => Fields.find? key fields) xs := by
  induction r with
  | nil => exact ⟨fun _ => trivial, fun _ => rfl⟩
  | cons field rest ih =>
      obtain ⟨x, xs⟩ := xs
      simp only [ofObject, Gives]
      cases Fields.find? field.name fields with
      | none => exact Decoded.bind_pair_eq_ok_iff.trans (and_congr Field.absent_eq_ok_iff ih)
      | some v => exact Decoded.bind_pair_eq_ok_iff.trans (and_congr Iff.rfl ih)

/-- Where a record gives values, it finds no fault with any entry. -/
theorem fault?_of_gives (h : r.Gives look xs) {key : String} {v : Json}
    (hlook : look key = some v) : r.fault? key v = none := by
  induction r with
  | nil => rfl
  | cons field rest ih =>
      obtain ⟨x, xs⟩ := xs
      obtain ⟨hfield, hrest⟩ := h
      simp only [fault?]
      split
      next hname =>
        subst hname
        rw [hlook] at hfield
        rw [show field.decode v = .ok x from hfield]
      next => exact ih hrest

/-- **OBJECTS** are accepted by what stands under the names of the fields. -/
theorem decode_obj_iff {name : String} {fields : List (String × Json)}
    (hkeys : (fields.map Prod.fst).Nodup) :
    r.decode name (.obj fields) = .ok xs ↔
      r.Gives (fun key => Fields.find? key fields) xs := by
  simp only [decode]
  constructor
  · intro h
    split at h
    · cases h
    · exact ofObject_eq_ok_iff.mp h
  · intro h
    have hfault : fields.findSome? (fun p => r.fault? p.1 p.2) = none := by
      refine List.findSome?_eq_none_iff.mpr ?_
      intro p hp
      exact fault?_of_gives h (Fields.find?_of_mem hkeys hp)
    rw [hfault]
    exact ofObject_eq_ok_iff.mpr h

/-- Objects with the same under the names of the fields are accepted alike. -/
theorem decode_obj_congr {name : String} {fields fields' : List (String × Json)}
    (hkeys : (fields.map Prod.fst).Nodup) (hkeys' : (fields'.map Prod.fst).Nodup)
    (h : ∀ key ∈ r.names, Fields.find? key fields = Fields.find? key fields') :
    r.decode name (.obj fields) = .ok xs ↔ r.decode name (.obj fields') = .ok xs := by
  rw [decode_obj_iff hkeys, decode_obj_iff hkeys', gives_congr h]

/-! ## Arrays -/

theorem ofItems_eq_ok_iff (hnames : r.names.Nodup) {short : Nat → DecodeError} {taken : Nat}
    {items : List Json} :
    r.ofItems short taken items = .ok xs ↔ items.length ≤ r.names.length
      ∧ r.Gives (fun key => Fields.find? key (r.names.zip items)) xs := by
  induction r generalizing taken items with
  | nil =>
      cases items with
      | nil => exact ⟨fun _ => ⟨Nat.le_refl 0, trivial⟩, fun _ => rfl⟩
      | cons v items => exact ⟨nofun, fun h => absurd h.1 (Nat.not_succ_le_zero _)⟩
  | cons field rest ih =>
      obtain ⟨x, xs⟩ := xs
      obtain ⟨hname, hnames⟩ := List.nodup_cons.mp hnames
      cases items with
      | nil =>
          have hrest : rest.ofItems short (taken + 1) [] = .ok xs
              ↔ rest.Gives (fun _ => none) xs := by
            rw [ih hnames, List.zip_nil_right]
            exact and_iff_right (Nat.zero_le _)
          refine Iff.trans ?_ (and_iff_right (Nat.zero_le _)).symm
          exact Decoded.bind_pair_eq_ok_iff.trans (and_congr Field.absent_eq_ok_iff hrest)
      | cons v items =>
          -- the first item stands under the first name, and no other field has that name
          have hlater : rest.Gives (fun key =>
              Fields.find? key ((field.name, v) :: rest.names.zip items)) xs
              ↔ rest.Gives (fun key => Fields.find? key (rest.names.zip items)) xs := by
            refine gives_congr (fun key hkey => if_neg ?_)
            rintro rfl
            exact hname hkey
          simp only [ofItems, Gives, names, List.zip_cons_cons, List.length_cons,
            Nat.add_le_add_iff_right]
          rw [hlater, Fields.find?_cons, if_pos rfl, and_left_comm, ← ih hnames]
          exact Decoded.bind_pair_eq_ok_iff

/-- Items under the names of fields have different keys. -/
theorem nodup_zip {names : List String} (hnames : names.Nodup) (items : List Json) :
    ((names.zip items).map Prod.fst).Nodup := by
  rw [List.zip_eq_zip_take_min, List.map_fst_zip (by simp)]
  exact (List.take_sublist _ _).nodup hnames

/-- **ARRAYS** count as the objects in which their items stand under the names of the
    fields, in order. -/
theorem decode_arr_iff (hnames : r.names.Nodup) {name : String} {items : List Json} :
    r.decode name (.arr items) = .ok xs ↔ items.length ≤ r.names.length
      ∧ r.decode name (.ofPairs (r.names.zip items)) = .ok xs := by
  have hkeys := nodup_zip hnames items
  rw [Json.ofPairs, decode_obj_iff (Fields.nodup_ofList _)]
  simp only [decode, Fields.find?_ofList hkeys]
  exact ofItems_eq_ok_iff hnames

end Record
end PhaseHost
