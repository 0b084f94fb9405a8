import PhaseHost.Json.Decode

/-! # Records

    A record of the wire is described once, by the list of its fields, and both
    directions follow from the description.

    * Written, it is an object.  A field may leave itself out.
    * Read, it is an object or an array of the values in the declared order.
      Unknown keys of an object are ignored.  A field with a fallback may be
      absent, in an array only together with all fields behind it.
    * In an object the first value that fails, in the order of the keys, is the
      one reported; absent fields come after that, in the declared order. -/

namespace PhaseHost

/-- One field of a record. -/
structure Field (α : Type) where
  name : String
  decode : Json → Decoded α
  /-- The written value; `none` leaves the field out. -/
  encode : α → Option Json
  /-- The value of an absent field; `none` makes the field required. -/
  fallback : Option α

/-- The value or, in its absence, the fallback of a field. -/
def Field.absent {α : Type} (f : Field α) (error : DecodeError) : Decoded α :=
  match f.fallback with
  | some x => .ok x
  | none => .error error

/-- A field that must be there. -/
def Field.required {α : Type} (name : String) (decode : Json → Decoded α) (encode : α → Json) :
    Field α :=
  ⟨name, decode, fun x => some (encode x), none⟩

/-- A field that is always written and has a value in its absence. -/
def Field.defaulted {α : Type} (name : String) (decode : Json → Decoded α) (encode : α → Json)
    (fallback : α) : Field α :=
  ⟨name, decode, fun x => some (encode x), some fallback⟩

/-- A field that is written only when it holds something. -/
def Field.optional {α : Type} (name : String) (decode : Json → Decoded α) (encode : α → Json) :
    Field (Option α) :=
  ⟨name, Json.toOption decode, fun x => x.map encode, some none⟩

/-- The fields of a record, in the declared order. -/
inductive Record : List Type → Type 1 where
  | nil : Record []
  | cons {α : Type} {αs : List Type} (field : Field α) (rest : Record αs) : Record (α :: αs)

/-- The values of a record's fields. -/
def Values : List Type → Type
  | [] => Unit
  | α :: αs => α × Values αs

namespace Record

/-- The number of fields. -/
def size {αs : List Type} : Record αs → Nat
  | .nil => 0
  | .cons _ rest => rest.size + 1

/-- What is wrong with the value under a key, as far as a field of that name can tell. -/
def fault? {αs : List Type} (key : String) (v : Json) : Record αs → Option DecodeError
  | .nil => none
  | .cons field rest =>
    if field.name = key then
      match field.decode v with
      | .ok _ => none
      | .error e => some e
    else rest.fault? key v

/-- Take every field from an object. -/
def ofObject {αs : List Type} (fields : List (String × Json)) : Record αs → Decoded (Values αs)
  | .nil => .ok ()
  | .cons field rest => do
    let x ← match Fields.find? field.name fields with
      | some v => field.decode v
      | none => field.absent (.missingField field.name)
    let xs ← rest.ofObject fields
    .ok (x, xs)

/-- Take every field from the items of an array, of which `taken` were taken before. -/
def ofItems {αs : List Type} (short : Nat → DecodeError) (taken : Nat) :
    Record αs → List Json → Decoded (Values αs)
  | .nil, [] => .ok ()
  | .nil, extra => .error (.invalidLength (taken + extra.length) .fewerItems)
  | .cons field rest, [] => do
    let x ← field.absent (short taken)
    let xs ← rest.ofItems short (taken + 1) []
    .ok (x, xs)
  | .cons field rest, v :: items => do
    let x ← field.decode v
    let xs ← rest.ofItems short (taken + 1) items
    .ok (x, xs)

/-- The values of a record in either of its written forms. -/
def decode {αs : List Type} (r : Record αs) (name : String) : Json → Decoded (Values αs)
  | .obj fields =>
    match fields.findSome? (fun p => r.fault? p.1 p.2) with
    | some e => .error e
    | none => r.ofObject fields
  | .arr items =>
    r.ofItems (fun taken => .invalidLength taken (.recordOf name r.size)) 0 items
  | v => v.reject (.record name)

/-- The written fields, in the declared order. -/
def pairs {αs : List Type} : Record αs → Values αs → List (String × Json)
  | .nil, _ => []
  | .cons field rest, (x, xs) =>
    match field.encode x with
    | some v => (field.name, v) :: rest.pairs xs
    | none => rest.pairs xs

/-- The object of a record. -/
def encode {αs : List Type} (r : Record αs) (values : Values αs) : Json :=
  .ofPairs (r.pairs values)

/-- The names of the fields. -/
def names {αs : List Type} : Record αs → List String
  | .nil => []
  | .cons field rest => field.name :: rest.names

end Record
end PhaseHost
