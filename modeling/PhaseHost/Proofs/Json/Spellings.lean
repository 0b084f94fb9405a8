import PhaseHost.Proofs.Json.Acceptance

/-! # Spellings of a record

    The values of a record are spelled in more than one way: as the object that is
    written, as any object that adds keys of its own, as the array of all items in the
    declared order, and as that array without items at its end that say nothing.

    One property of each field carries all of them.  A field KEEPS a value if it reads
    what it writes, and reads `null` where it writes nothing.  A record that keeps its
    values field by field is read back from every spelling, so it is written in one way
    at most. -/

namespace PhaseHost

/-! ## Fields -/

/-- What stands for a field in an array: what it writes, or `null` if it writes nothing. -/
def Field.item {α : Type} (f : Field α) (x : α) : Json :=
  Json.orNull (f.encode x)

/-- A field that KEEPS a value, in an object as well as in an array. -/
structure Field.Keeps {α : Type} (f : Field α) (x : α) : Prop where
  named : f.Reads x x
  placed : f.decode (f.item x) = .ok x

section Fields

variable {α : Type} {name : String} {decode : Json → Decoded α} {encode : α → Json} {x : α}

theorem Field.required_keeps (h : decode (encode x) = .ok x) :
    (required name decode encode).Keeps x :=
  ⟨h, h⟩

theorem Field.defaulted_keeps {fallback : α} (h : decode (encode x) = .ok x) :
    (defaulted name decode encode fallback).Keeps x :=
  ⟨h, h⟩

/-- An optional field keeps what is not written as `null`: that would read as absent. -/
theorem Field.optional_keeps {x : Option α}
    (h : ∀ y, x = some y → encode y ≠ .null ∧ decode (encode y) = .ok y) :
    (optional name decode encode).Keeps x := by
  cases x with
  | none => exact ⟨rfl, rfl⟩
  | some y =>
      obtain ⟨hpresent, hdecode⟩ := h y rfl
      have hread : Json.toOption decode (encode y) = .ok (some y) := by
        unfold Json.toOption
        split
        · next hnull => exact absurd hnull hpresent
        · rw [hdecode]
          rfl
      exact ⟨hread, hread⟩

end Fields

/-! ## Records -/

namespace Record

/-- The values are kept, field by field. -/
def Keeps : {αs : List Type} → Record αs → Values αs → Prop
  | _, .nil, _ => True
  | _, .cons field rest, (x, xs) => field.Keeps x ∧ rest.Keeps xs

/-- The items of an array that spells the values, in the declared order. -/
def items : {αs : List Type} → Record αs → Values αs → List Json
  | _, .nil, _ => []
  | _, .cons field rest, (x, xs) => field.item x :: rest.items xs

/-- All fields from a place on hold their fallbacks, so that their items say nothing. -/
def SilentFrom : {αs : List Type} → Nat → Record αs → Values αs → Prop
  | _, _, .nil, _ => True
  | _, 0, .cons field rest, (x, xs) => field.fallback = some x ∧ rest.SilentFrom 0 xs
  | _, n + 1, .cons _ rest, (_, xs) => SilentFrom n rest xs

/-- The names of the fields that must be there. -/
def required {αs : List Type} : Record αs → List String
  | .nil => []
  | .cons field rest =>
    if field.fallback.isSome then rest.required else field.name :: rest.required

variable {αs : List Type} {r : Record αs} {xs : Values αs} {fields : List (String × Json)}
  {items : List Json} {name : String} {n : Nat}

theorem Keeps.reads (h : r.Keeps xs) : r.Reads xs xs := by
  induction r with
  | nil => trivial
  | cons field rest ih => exact ⟨h.1.named, ih h.2⟩

/-! ## Objects -/

/-- An object is read as the values if it holds what they write, whatever else it holds. -/
theorem decode_obj_of_find? (hnames : r.names.Nodup) (hkeeps : r.Keeps xs)
    (hkeys : (fields.map Prod.fst).Nodup)
    (hfind : ∀ key ∈ r.names, Fields.find? key fields = (r.encode xs).get? key) :
    r.decode name (.obj fields) = .ok xs := by
  have hwritten : ∀ key, (r.encode xs).get? key = Fields.find? key (r.pairs xs) :=
    fun _ => Fields.find?_ofList ((keys_sublist r xs).nodup hnames)
  refine (decode_obj_iff hkeys).mpr (ofObject_eq_ok_iff.mp ?_)
  exact ofObject_of_find? hnames hkeeps.reads
    (fun key hkey => (hfind key hkey).trans (hwritten key))

/-- What is required is found where a record gives values. -/
theorem Gives.find_required {look : String → Option Json} (h : r.Gives look xs) {key : String}
    (hkey : key ∈ r.required) : look key ≠ none := by
  induction r with
  | nil => exact nomatch hkey
  | cons field rest ih =>
      obtain ⟨x, xs⟩ := xs
      obtain ⟨hfield, hrest⟩ := h
      rw [required] at hkey
      split at hkey
      · exact ih hrest hkey
      · next hfallback =>
          rcases List.mem_cons.mp hkey with rfl | hlater
          · intro hnone
            simp only [Field.Gives, hnone] at hfield
            exact hfallback (Option.isSome_of_mem hfield)
          · exact ih hrest hlater

/-- An object without a field that is required is not read. -/
theorem decode_obj_of_lacking {key : String} (hkey : key ∈ r.required)
    (hlacks : Fields.find? key fields = none) : r.decode name (.obj fields) ≠ .ok xs := by
  intro h
  simp only [decode] at h
  split at h
  · cases h
  · exact (ofObject_eq_ok_iff.mp h).find_required hkey hlacks

/-! ## Arrays -/

variable {short : Nat → DecodeError} {taken : Nat}

/-- Without items, the fields are read as their fallbacks. -/
theorem ofItems_nil (h : r.SilentFrom 0 xs) : r.ofItems short taken [] = .ok xs := by
  induction r generalizing taken with
  | nil => rfl
  | cons field rest ih =>
      obtain ⟨x, xs⟩ := xs
      simp only [ofItems]
      rw [Field.absent_eq_ok_iff.mpr h.1, ih h.2]
      rfl

theorem ofItems_take (hkeeps : r.Keeps xs) (hsilent : r.SilentFrom n xs) :
    r.ofItems short taken ((r.items xs).take n) = .ok xs := by
  induction r generalizing taken n with
  | nil =>
      rw [Record.items, List.take_nil]
      rfl
  | cons field rest ih =>
      obtain ⟨x, xs⟩ := xs
      cases n with
      | zero => exact ofItems_nil hsilent
      | succ n =>
          rw [Record.items, List.take_succ_cons]
          simp only [ofItems]
          rw [hkeeps.1.placed, ih hkeeps.2 hsilent]
          rfl

/-- An array is read as the values without items at its end that say nothing. -/
theorem decode_arr_take (hkeeps : r.Keeps xs) (hsilent : r.SilentFrom n xs) :
    r.decode name (.arr ((r.items xs).take n)) = .ok xs :=
  ofItems_take hkeeps hsilent

theorem silentFrom_length (r : Record αs) (xs : Values αs) :
    r.SilentFrom (r.items xs).length xs := by
  induction r with
  | nil => trivial
  | cons field rest ih => exact ih xs.2

/-- An array is read as the values whose items it has. -/
theorem decode_arr_items (hkeeps : r.Keeps xs) : r.decode name (.arr (r.items xs)) = .ok xs := by
  have htake : r.decode name (.arr ((r.items xs).take (r.items xs).length)) = .ok xs :=
    decode_arr_take hkeeps (silentFrom_length r xs)
  rwa [List.take_length] at htake

/-- Every field that is required takes an item. -/
theorem length_required_le (h : r.ofItems short taken items = .ok xs) :
    r.required.length ≤ items.length := by
  induction r generalizing taken items with
  | nil => exact Nat.zero_le _
  | cons field rest ih =>
      obtain ⟨x, xs⟩ := xs
      rw [required]
      cases items with
      | nil =>
          obtain ⟨habsent, hrest⟩ := Decoded.bind_pair_eq_ok_iff.mp h
          have hfallback : field.fallback = some x := Field.absent_eq_ok_iff.mp habsent
          rw [hfallback, Option.isSome_some, if_pos rfl]
          exact ih hrest
      | cons v items =>
          obtain ⟨-, hrest⟩ := Decoded.bind_pair_eq_ok_iff.mp h
          have hle := ih hrest
          split
          · exact Nat.le_succ_of_le hle
          · exact Nat.succ_le_succ hle

/-- An array that is too short for the fields that are required is not read. -/
theorem decode_arr_of_short (h : items.length < r.required.length) :
    r.decode name (.arr items) ≠ .ok xs :=
  fun hread => absurd (length_required_le hread) (Nat.not_le.mpr h)

/-- An array with more items than there are fields is not read. -/
theorem decode_arr_of_long (hnames : r.names.Nodup) (h : r.names.length < items.length) :
    r.decode name (.arr items) ≠ .ok xs :=
  fun hread => absurd ((decode_arr_iff hnames).mp hread).1 (Nat.not_le.mpr h)

/-! ## All spellings -/

/-- A type whose values are spelled by a record.  Of the values in a class, every spelling is
    read back; what lacks something that is required and what has too much is refused. -/
structure SpelledBy {α : Type} (r : Record αs) (values : α → Values αs) (Class : α → Prop)
    (read : Json → Decoded α) (write : α → Json) : Prop where
  object : ∀ {x}, Class x → read (write x) = .ok x
  /-- Keys that name no field do not matter. -/
  extended : ∀ {x fields}, Class x → (fields.map Prod.fst).Nodup →
    (∀ key ∈ r.names, Fields.find? key fields = (write x).get? key) → read (.obj fields) = .ok x
  array : ∀ {x}, Class x → read (.arr (r.items (values x))) = .ok x
  cut : ∀ {x n}, Class x → r.SilentFrom n (values x) →
    read (.arr ((r.items (values x)).take n)) = .ok x
  short : ∀ {items}, items.length < r.required.length → ∃ e, read (.arr items) = .error e
  long : ∀ {items}, r.names.length < items.length → ∃ e, read (.arr items) = .error e
  lacking : ∀ {key fields}, key ∈ r.required → Fields.find? key fields = none →
    ∃ e, read (.obj fields) = .error e
  injective : ∀ {x y}, Class x → Class y → write x = write y → x = y

theorem error_of_map_decode {α : Type} {ofValues : Values αs → α} {v : Json}
    (h : ∀ xs, r.decode name v ≠ .ok xs) : ∃ e, (r.decode name v).map ofValues = .error e := by
  cases hread : r.decode name v with
  | error e => exact ⟨e, rfl⟩
  | ok xs => exact absurd hread (h xs)

/-- **EVERY SPELLING IS READ BACK**, if the values in the class are kept field by field. -/
theorem spelledBy_of_keeps {α : Type} {values : α → Values αs} {Class : α → Prop}
    (ofValues : Values αs → α) (name : String) (hnames : r.names.Nodup)
    (hvalues : ∀ x, ofValues (values x) = x) (hkeeps : ∀ x, Class x → r.Keeps (values x)) :
    r.SpelledBy values Class (fun v => (r.decode name v).map ofValues)
      (fun x => r.encode (values x)) := by
  have hread : ∀ {x v}, r.decode name v = .ok (values x) →
      (r.decode name v).map ofValues = .ok x := by
    intro x v hv
    rw [hv]
    exact congrArg Except.ok (hvalues x)
  have hobject : ∀ {x}, Class x → (r.decode name (r.encode (values x))).map ofValues = .ok x :=
    fun hx => hread (r.decode_encode name hnames (hkeeps _ hx).reads)
  refine
    { object := hobject
      extended := fun hx hkeys hfind => hread (decode_obj_of_find? hnames (hkeeps _ hx) hkeys hfind)
      array := fun hx => hread (decode_arr_items (hkeeps _ hx))
      cut := fun hx hsilent => hread (decode_arr_take (hkeeps _ hx) hsilent)
      short := fun hshort => error_of_map_decode (fun _ => decode_arr_of_short hshort)
      long := fun hlong => error_of_map_decode (fun _ => decode_arr_of_long hnames hlong)
      lacking := fun hkey hlacks => error_of_map_decode (fun _ => decode_obj_of_lacking hkey hlacks)
      injective := ?_ }
  intro x y hx hy heq
  have hsame := hobject hx
  rw [show r.encode (values x) = r.encode (values y) from heq, hobject hy] at hsame
  exact (Except.ok.inj hsame).symm

end Record
end PhaseHost
