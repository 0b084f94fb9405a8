/-! # JSON values

    A value of the data format that frames, replies and guest documents share.

    Numbers are either exact integers or binary64 numbers, and the two never
    mix: `1` and `1.0` are different values.  An object is a list of fields
    with ascending keys; `Fields.insert` keeps it so and replaces the value of
    a key that is there already. -/

namespace PhaseHost

/-- A JSON value.  A binary64 number is kept as its sixty-four bits, so equality
    of values is equality of what they print. -/
inductive Json where
  | null
  | bool (b : Bool)
  | int (i : Int)
  | float (bits : UInt64)
  | str (s : String)
  | arr (items : List Json)
  | obj (fields : List (String × Json))
  deriving Repr, Inhabited

/-- A list of fields with ascending keys. -/
abbrev Fields (β : Type) := List (String × β)

namespace Fields

variable {β : Type}

/-- The value under a key. -/
def find? (key : String) : Fields β → Option β
  | [] => none
  | (k, v) :: rest => if k = key then some v else find? key rest

/-- Put a value under a key, at the place its key has in the order. -/
def insert (key : String) (value : β) : Fields β → Fields β
  | [] => [(key, value)]
  | (k, v) :: rest =>
    if key < k then (key, value) :: (k, v) :: rest
    else if k = key then (key, value) :: rest
    else (k, v) :: insert key value rest

/-- Remove a key. -/
def erase (key : String) : Fields β → Fields β
  | [] => []
  | (k, v) :: rest => if k = key then erase key rest else (k, v) :: erase key rest

/-- The fields of a list of pairs; the last value of a repeated key counts. -/
def ofList (pairs : List (String × β)) : Fields β :=
  pairs.foldl (fun fields p => insert p.1 p.2 fields) []

/-- Whether a key is there. -/
def contains (key : String) (fields : Fields β) : Bool :=
  (find? key fields).isSome

/-- Every key is less than those behind it. -/
def Ascending (fields : Fields β) : Prop :=
  fields.Pairwise (fun a b => a.1 < b.1)

instance (fields : Fields β) : Decidable (Ascending fields) :=
  inferInstanceAs (Decidable (List.Pairwise _ fields))

@[simp] theorem find?_nil (key : String) : find? key ([] : Fields β) = none := rfl

theorem find?_cons (key k : String) (v : β) (rest : Fields β) :
    find? key ((k, v) :: rest) = if k = key then some v else find? key rest := rfl

/-- A key that was just inserted is found with its value. -/
@[simp] theorem find?_insert_self (key : String) (value : β) (fields : Fields β) :
    find? key (insert key value fields) = some value := by
  induction fields with
  | nil => simp [insert, find?]
  | cons p rest ih =>
    obtain ⟨k, v⟩ := p
    simp only [insert]
    split
    · simp [find?]
    · split
      · simp [find?]
      · next hk => simp [find?, hk, ih]

/-- Inserting a key leaves every other key alone. -/
theorem find?_insert_of_ne {key other : String} (h : other ≠ key) (value : β)
    (fields : Fields β) : find? other (insert key value fields) = find? other fields := by
  induction fields with
  | nil => simp [insert, find?, Ne.symm h]
  | cons p rest ih =>
    obtain ⟨k, v⟩ := p
    simp only [insert]
    split
    · simp [find?, Ne.symm h]
    · split
      · next hk => subst hk; simp [find?, Ne.symm h]
      · simp [find?, ih]

/-- An erased key is gone. -/
@[simp] theorem find?_erase_self (key : String) (fields : Fields β) :
    find? key (erase key fields) = none := by
  induction fields with
  | nil => rfl
  | cons p rest ih =>
    obtain ⟨k, v⟩ := p
    simp only [erase]
    split
    · exact ih
    · next hk => simp [find?, hk, ih]

/-- Erasing a key leaves every other key alone. -/
theorem find?_erase_of_ne {key other : String} (h : other ≠ key) (fields : Fields β) :
    find? other (erase key fields) = find? other fields := by
  induction fields with
  | nil => rfl
  | cons p rest ih =>
    obtain ⟨k, v⟩ := p
    simp only [erase]
    split
    · next hk => subst hk; simp [find?, Ne.symm h, ih]
    · simp [find?, ih]

/-- Every field after an insertion is the new one or an old one. -/
theorem mem_insert {key : String} {value : β} {fields : Fields β} {p : String × β}
    (h : p ∈ insert key value fields) : p = (key, value) ∨ p ∈ fields := by
  induction fields with
  | nil => simpa [insert] using h
  | cons q rest ih =>
    obtain ⟨k, v⟩ := q
    simp only [insert] at h
    split at h
    · simpa using h
    · split at h
      · rcases List.mem_cons.1 h with h | h
        · exact .inl h
        · exact .inr (List.mem_cons_of_mem _ h)
      · rcases List.mem_cons.1 h with h | h
        · exact .inr (h ▸ List.mem_cons_self)
        · exact (ih h).imp id (List.mem_cons_of_mem _)

/-- Every field after an erasure was there before. -/
theorem mem_of_mem_erase {key : String} {fields : Fields β} {p : String × β}
    (h : p ∈ erase key fields) : p ∈ fields := by
  induction fields with
  | nil => simp [erase] at h
  | cons q rest ih =>
    obtain ⟨k, v⟩ := q
    simp only [erase] at h
    split at h
    · exact List.mem_cons_of_mem _ (ih h)
    · rcases List.mem_cons.1 h with h | h
      · exact h ▸ List.mem_cons_self
      · exact List.mem_cons_of_mem _ (ih h)

namespace Ascending

/-- Insertion keeps the order of the keys. -/
theorem insert {fields : Fields β} (h : Ascending fields) (key : String) (value : β) :
    Ascending (Fields.insert key value fields) := by
  induction fields with
  | nil => exact List.pairwise_singleton _ _
  | cons p rest ih =>
    obtain ⟨k, v⟩ := p
    have ⟨hk, hrest⟩ := List.pairwise_cons.1 h
    simp only [Fields.insert]
    split
    · next hlt =>
      refine List.pairwise_cons.2 ⟨fun q hq => ?_, h⟩
      rcases List.mem_cons.1 hq with hq | hq
      · exact hq ▸ hlt
      · exact String.lt_trans hlt (hk q hq)
    · next hlt =>
      split
      · next heq => exact List.pairwise_cons.2 ⟨fun q hq => heq ▸ hk q hq, hrest⟩
      · next hne =>
        refine List.pairwise_cons.2 ⟨fun q hq => ?_, ih hrest⟩
        rcases mem_insert hq with hq | hq
        · exact hq ▸ Std.lt_of_le_of_ne (String.not_lt.1 hlt) hne
        · exact hk q hq

/-- Erasure keeps the order of the keys. -/
theorem erase {fields : Fields β} (h : Ascending fields) (key : String) :
    Ascending (Fields.erase key fields) := by
  induction fields with
  | nil => exact List.Pairwise.nil
  | cons p rest ih =>
    obtain ⟨k, v⟩ := p
    have ⟨hk, hrest⟩ := List.pairwise_cons.1 h
    simp only [Fields.erase]
    split
    · exact ih hrest
    · exact List.pairwise_cons.2 ⟨fun q hq => hk q (mem_of_mem_erase hq), ih hrest⟩

end Ascending

/-- Insertions in a row keep the order of the keys. -/
theorem ascending_foldl_insert (pairs : List (String × β)) {fields : Fields β}
    (h : Ascending fields) :
    Ascending (pairs.foldl (fun fields p => insert p.1 p.2 fields) fields) := by
  induction pairs generalizing fields with
  | nil => exact h
  | cons p rest ih => exact ih (h.insert p.1 p.2)

/-- The fields of any list of pairs have ascending keys. -/
theorem ascending_ofList (pairs : List (String × β)) : Ascending (ofList pairs) :=
  ascending_foldl_insert pairs List.Pairwise.nil

/-- A key greater than all others goes to the end. -/
theorem insert_eq_append {key : String} {fields : Fields β} (value : β)
    (h : ∀ p ∈ fields, p.1 < key) : insert key value fields = fields ++ [(key, value)] := by
  induction fields with
  | nil => rfl
  | cons p rest ih =>
    obtain ⟨k, v⟩ := p
    have hk : k < key := h (k, v) List.mem_cons_self
    have hne : k ≠ key := fun e => String.lt_irrefl key (e ▸ hk)
    simp only [insert, String.lt_asymm hk, hne, if_false, List.cons_append]
    rw [ih (fun q hq => h q (List.mem_cons_of_mem _ hq))]

/-- Inserting ascending fields behind smaller ones lines them up. -/
theorem foldl_insert_eq_append (pairs : List (String × β)) {fields : Fields β}
    (h : Ascending (fields ++ pairs)) :
    pairs.foldl (fun fields p => insert p.1 p.2 fields) fields = fields ++ pairs := by
  induction pairs generalizing fields with
  | nil => simp
  | cons p rest ih =>
    have hp : ∀ q ∈ fields, q.1 < p.1 := fun q hq =>
      (List.pairwise_append.1 h).2.2 q hq p List.mem_cons_self
    have e : fields ++ p :: rest = (fields ++ [p]) ++ rest := by simp
    simp only [List.foldl_cons, insert_eq_append p.2 hp]
    rw [e]
    exact ih (e ▸ h)

/-- Fields with ascending keys are what a list of them makes. -/
theorem ofList_eq_self {fields : Fields β} (h : Ascending fields) : ofList fields = fields :=
  foldl_insert_eq_append fields h

end Fields

namespace Json

/-- The value under a key of an object. -/
def get? (key : String) : Json → Option Json
  | .obj fields => Fields.find? key fields
  | _ => none

/-- The number of an integer in `0 .. 2^64 - 1`. -/
def natural? : Json → Option UInt64
  | .int (.ofNat n) => if n < 0x10000000000000000 then some (UInt64.ofNat n) else none
  | _ => none

/-- The text of a string. -/
def str? : Json → Option String
  | .str s => some s
  | _ => none

/-- The integer of a natural number. -/
def ofNat (n : Nat) : Json :=
  .int (Int.ofNat n)

/-- The integer of a number of thirty-two bits. -/
def ofUInt32 (n : UInt32) : Json :=
  ofNat n.toNat

/-- An object from a list of pairs in any order. -/
def ofPairs (pairs : List (String × Json)) : Json :=
  .obj (Fields.ofList pairs)

/-- A value, or `null` in its absence. -/
def orNull : Option Json → Json
  | some v => v
  | none => .null

mutual
/-- Equality of values, decided by comparing them part by part. -/
def same : Json → Json → Bool
  | .null, .null => true
  | .bool a, .bool b => a == b
  | .int a, .int b => a == b
  | .float a, .float b => a == b
  | .str a, .str b => a == b
  | .arr a, .arr b => sameItems a b
  | .obj a, .obj b => sameFields a b
  | _, _ => false
  termination_by structural x => x
/-- Equality of lists of values. -/
def sameItems : List Json → List Json → Bool
  | [], [] => true
  | a :: as, b :: bs => same a b && sameItems as bs
  | _, _ => false
  termination_by structural x => x
/-- Equality of lists of fields. -/
def sameFields : List (String × Json) → List (String × Json) → Bool
  | [], [] => true
  | (j, a) :: as, (k, b) :: bs => j == k && same a b && sameFields as bs
  | _, _ => false
  termination_by structural x => x
end

mutual
theorem eq_of_same : ∀ {a b : Json}, same a b = true → a = b
  | .null, .null, _ => rfl
  | .bool a, .bool b, h => congrArg Json.bool (by simpa [same] using h)
  | .int a, .int b, h => congrArg Json.int (by simpa [same] using h)
  | .float a, .float b, h => congrArg Json.float (by simpa [same] using h)
  | .str a, .str b, h => congrArg Json.str (by simpa [same] using h)
  | .arr a, .arr b, h => congrArg Json.arr (eq_of_sameItems (by simpa [same] using h))
  | .obj a, .obj b, h => congrArg Json.obj (eq_of_sameFields (by simpa [same] using h))
  termination_by structural a => a
theorem eq_of_sameItems : ∀ {a b : List Json}, sameItems a b = true → a = b
  | [], [], _ => rfl
  | a :: as, b :: bs, h => by
    simp only [sameItems, Bool.and_eq_true] at h
    rw [eq_of_same h.1, eq_of_sameItems h.2]
  termination_by structural a => a
theorem eq_of_sameFields : ∀ {a b : List (String × Json)}, sameFields a b = true → a = b
  | [], [], _ => rfl
  | (j, a) :: as, (k, b) :: bs, h => by
    simp only [sameFields, Bool.and_eq_true, beq_iff_eq] at h
    rw [h.1.1, eq_of_same h.1.2, eq_of_sameFields h.2]
  termination_by structural a => a
end

mutual
theorem same_refl : ∀ a : Json, same a a = true
  | .null => rfl
  | .bool a => by simp [same]
  | .int a => by simp [same]
  | .float a => by simp [same]
  | .str a => by simp [same]
  | .arr a => by simpa [same] using sameItems_refl a
  | .obj a => by simpa [same] using sameFields_refl a
  termination_by structural a => a
theorem sameItems_refl : ∀ a : List Json, sameItems a a = true
  | [] => rfl
  | a :: as => by simp [sameItems, same_refl a, sameItems_refl as]
  termination_by structural a => a
theorem sameFields_refl : ∀ a : List (String × Json), sameFields a a = true
  | [] => rfl
  | (k, a) :: as => by simp [sameFields, same_refl a, sameFields_refl as]
  termination_by structural a => a
end

/-- Equality of JSON values is decidable. -/
instance : DecidableEq Json := fun a b =>
  if h : same a b = true then .isTrue (eq_of_same h)
  else .isFalse (fun e => h (e ▸ same_refl a))

end Json
end PhaseHost
