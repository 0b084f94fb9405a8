import PhaseHost.Proofs.Json.Acceptance
import PhaseHost.Proofs.Json.Offers
import PhaseHost.Proofs.Json.Printed
import PhaseHost.Proofs.Wire.Spellings
import PhaseHost.Wire.Diagnostic

/-! # Texts that tell a diagnostic

    An engine says what went wrong in a text, and any text will do.  `Tells` is the grammar
    of those that tell a diagnostic: an object with the known fields or an array of their
    values.  It is laid out over bytes and knows nothing of readers.

    A text that tells a diagnostic is read as that diagnostic.  Every other text stands for
    itself: it becomes the message as it is, and no field of it is kept. -/

namespace PhaseHost

/-! ## Fields that are held -/

/-- Fields hold an optional value under a key: without a value there is none, or a `null`. -/
def Fields.Holds (key : String) (fields : List (String × Json)) : Option Json → Prop
  | some v => (key, v) ∈ fields
  | none => ∀ v, (key, v) ∈ fields → v = .null

/-- Where no key is repeated, what is found under a key is what stands there. -/
theorem Fields.find?_eq_some_iff {β : Type} {key : String} {value : β} {fields : List (String × β)}
    (hkeys : (fields.map Prod.fst).Nodup) :
    find? key fields = some value ↔ (key, value) ∈ fields :=
  ⟨mem_of_find?, find?_of_mem hkeys⟩

/-- Where no key is repeated, what a key holds is found under it; nothing may be `null`. -/
theorem Fields.holds_iff {key : String} {v? : Option Json} {fields : List (String × Json)}
    (hkeys : (fields.map Prod.fst).Nodup) :
    Holds key fields v? ↔ find? key fields = v? ∨ v? = none ∧ find? key fields = some .null := by
  cases v? with
  | some v =>
      rw [Holds, find?_eq_some_iff hkeys]
      exact ⟨Or.inl, fun h => h.resolve_right (fun hboth => nomatch hboth.1)⟩
  | none =>
      rw [Holds]
      constructor
      · intro h
        cases hfind : find? key fields with
        | none => exact Or.inl rfl
        | some v => exact Or.inr ⟨rfl, congrArg some (h v (mem_of_find? hfind))⟩
      · intro h v hv
        rw [(find?_eq_some_iff hkeys).mpr hv] at h
        rcases h with h | ⟨-, h⟩
        · cases h
        · exact Option.some.inj h

namespace Json

variable {v : Json}

/-- Only strings are texts. -/
theorem toText_eq_ok_iff {s : String} : toText v = .ok s ↔ v = .str s := by
  constructor
  · intro h
    cases v with
    | str s' =>
        cases h
        rfl
    | _ => cases h
  · rintro rfl
    rfl

/-- Only its integer is a number of thirty-two bits. -/
theorem toUInt32_eq_ok_iff {n : UInt32} : toUInt32 v = .ok n ↔ v = ofNat n.toNat := by
  constructor
  · intro h
    cases v with
    | int i =>
        cases i with
        | ofNat k =>
            simp only [toUInt32, toNatural] at h
            split at h
            · next hk =>
                cases h
                show Json.int (Int.ofNat k) = .int (Int.ofNat _)
                rw [UInt32.toNat_ofNat_of_lt' hk]
            · cases h
        | negSucc k => cases h
    | _ => cases h
  · rintro rfl
    exact toUInt32_ofUInt32 n

end Json

section Optional

variable {α : Type} {name : String} {decode : Json → Decoded α} {encode : α → Json}
  {v? : Option Json}

/-- A field that must be there gives what stands under its name. -/
theorem Field.gives_required_iff {x : α} (h : ∀ {v}, decode v = .ok x ↔ v = encode x) :
    (required name decode encode).Gives v? x ↔ v? = some (encode x) := by
  cases v? with
  | none => exact ⟨nofun, nofun⟩
  | some v => exact h.trans Option.some_inj.symm

/-- An optional value is `null`, or what its decoder takes. -/
theorem Json.toOption_eq_ok_iff {v : Json} {x? : Option α} :
    toOption decode v = .ok x?
      ↔ v = .null ∧ x? = none ∨ v ≠ .null ∧ ∃ x, decode v = .ok x ∧ x? = some x := by
  have hdecode : v ≠ .null → toOption decode v = (decode v).map some := by
    intro hv
    cases v with
    | null => exact absurd rfl hv
    | _ => rfl
  by_cases hv : v = .null
  · subst hv
    constructor
    · intro h
      exact Or.inl ⟨rfl, (Except.ok.inj h).symm⟩
    · rintro (⟨-, rfl⟩ | ⟨hnot, -⟩)
      · rfl
      · exact absurd rfl hnot
  · rw [hdecode hv]
    cases decode v with
    | error e =>
        refine ⟨nofun, ?_⟩
        rintro (⟨h, -⟩ | ⟨-, x, h, -⟩)
        · exact absurd h hv
        · cases h
    | ok y =>
        constructor
        · intro h
          exact Or.inr ⟨hv, y, rfl, (Except.ok.inj h).symm⟩
        · rintro (⟨h, -⟩ | ⟨-, x, h, rfl⟩)
          · exact absurd h hv
          · cases h
            rfl

/-- A field that may be left out gives what stands under its name, and nothing for `null`. -/
theorem Field.gives_optional_iff {x? : Option α} (h : ∀ {v x}, decode v = .ok x ↔ v = encode x)
    (hnull : ∀ x, encode x ≠ .null) :
    (optional name decode encode).Gives v? x?
      ↔ v? = x?.map encode ∨ x?.map encode = none ∧ v? = some .null := by
  cases v? with
  | none =>
      show some none = some x? ↔ _
      cases x? with
      | none => exact ⟨fun _ => Or.inl rfl, fun _ => rfl⟩
      | some x => exact ⟨nofun, by rintro (h | ⟨h, -⟩) <;> cases h⟩
  | some v =>
      refine Json.toOption_eq_ok_iff.trans ?_
      constructor
      · rintro (⟨rfl, rfl⟩ | ⟨-, x, hx, rfl⟩)
        · exact Or.inr ⟨rfl, rfl⟩
        · exact Or.inl (congrArg some (h.mp hx))
      · rintro (hv | ⟨hnone, hv⟩)
        · obtain ⟨x, rfl, hx⟩ := Option.map_eq_some_iff.mp hv.symm
          exact Or.inr ⟨hx ▸ hnull x, x, h.mpr hx.symm, rfl⟩
        · exact Or.inl ⟨Option.some.inj hv, Option.map_eq_none_iff.mp hnone⟩

end Optional

namespace Diagnostic

/-! ## The grammar -/

/-- The names of the fields. -/
def names : List String :=
  ["message", "line", "column", "file"]

/-- The fields that a text carries: those of an object that are known, in the order of the
    text and with repetitions, or the items of an array under the names of the fields. -/
inductive Carries (raw : Bytes) : List (String × Json) → Prop
  | object {fields : List (String × Json)}
    (offers : Json.Offers (fun key => key ∈ names) raw fields) : Carries raw fields
  | array {items : List Json} (document : Json.Document raw (.arr items))
    (few : items.length ≤ names.length) : Carries raw (names.zip items)

/-- Fields say a diagnostic: none of them comes twice, and each is as the diagnostic has it. -/
structure SaidBy (d : Diagnostic) (fields : List (String × Json)) : Prop where
  once : (fields.map Prod.fst).Nodup
  message : ("message", .str d.message) ∈ fields
  line : Fields.Holds "line" fields (d.line.map (fun n => .int n.toNat))
  column : Fields.Holds "column" fields (d.column.map (fun n => .int n.toNat))
  file : Fields.Holds "file" fields (d.file.map .str)

/-- A text tells a diagnostic. -/
def Tells (raw : Bytes) (d : Diagnostic) : Prop :=
  ∃ fields, Carries raw fields ∧ d.SaidBy fields

/-- A text that has the form of a value, with blanks around it. -/
def WellFormed (raw : Bytes) : Prop :=
  ∃ b t b', Json.Blank b ∧ Json.Formed t ∧ Json.Blank b' ∧ raw = b ++ (t ++ b')

/-- What keeps a text from telling a diagnostic. -/
inductive Spoiled (raw : Bytes) : Prop
  /-- It breaks off or goes on behind a value, or it is no value at all. -/
  | malformed (h : ¬ WellFormed raw)
  | scalar {v : Json} (document : Json.Document raw v) (notObject : ∀ fields, v ≠ .obj fields)
    (notArray : ∀ items, v ≠ .arr items)
  | long {items : List Json} (document : Json.Document raw (.arr items))
    (many : names.length < items.length)
  | repeated {fields : List (String × Json)} (carries : Carries raw fields)
    (twice : ¬ (fields.map Prod.fst).Nodup)
  | noMessage {fields : List (String × Json)} (carries : Carries raw fields)
    (missing : ∀ v, ("message", v) ∉ fields)
  | message {fields : List (String × Json)} {v : Json} (carries : Carries raw fields)
    (here : ("message", v) ∈ fields) (noText : ∀ s, v ≠ .str s)
  | number {fields : List (String × Json)} {key : String} {v : Json} (carries : Carries raw fields)
    (place : key = "line" ∨ key = "column") (here : (key, v) ∈ fields) (notNull : v ≠ .null)
    (outside : ∀ n : Nat, n < 2 ^ 32 → v ≠ .int n)
  | file {fields : List (String × Json)} {v : Json} (carries : Carries raw fields)
    (here : ("file", v) ∈ fields) (notNull : v ≠ .null) (noText : ∀ s, v ≠ .str s)

variable {raw : Bytes} {d : Diagnostic} {fields fields' : List (String × Json)} {items : List Json}

/-! ## What is read -/

/-- What the fields give, said field by field. -/
theorem gives_iff {look : String → Option Json} : record.Gives look d.values ↔
    look "message" = some (.str d.message)
    ∧ (look "line" = d.line.map Json.ofUInt32
      ∨ d.line.map Json.ofUInt32 = none ∧ look "line" = some .null)
    ∧ (look "column" = d.column.map Json.ofUInt32
      ∨ d.column.map Json.ofUInt32 = none ∧ look "column" = some .null)
    ∧ (look "file" = d.file.map .str ∨ d.file.map Json.str = none ∧ look "file" = some .null) := by
  have hnumber : ∀ {name : String} {v? : Option Json} {x? : Option UInt32},
      (Field.optional name Json.toUInt32 Json.ofUInt32).Gives v? x?
        ↔ v? = x?.map Json.ofUInt32 ∨ x?.map Json.ofUInt32 = none ∧ v? = some .null :=
    Field.gives_optional_iff Json.toUInt32_eq_ok_iff (fun _ => nofun)
  refine and_congr (Field.gives_required_iff Json.toText_eq_ok_iff)
    (and_congr hnumber (and_congr hnumber ?_))
  refine (and_iff_left trivial).trans ?_
  exact Field.gives_optional_iff Json.toText_eq_ok_iff (fun _ => nofun)

/-- A diagnostic is read exactly if its fields are. -/
theorem ofJson_eq_ok_iff {v : Json} : ofJson v = .ok d ↔
    record.decode "StructuredError" v = .ok d.values := by
  rw [ofJson]
  cases record.decode "StructuredError" v with
  | error e => exact ⟨nofun, nofun⟩
  | ok xs =>
      obtain ⟨message, line, column, file, ⟨⟩⟩ := xs
      constructor
      · intro h
        cases h
        rfl
      · intro h
        cases h
        rfl

/-- Fields without repetition are read as the diagnostic that they say. -/
theorem saidBy_iff (hkeys : (fields.map Prod.fst).Nodup) :
    d.SaidBy fields ↔ ofJson (.ofPairs fields) = .ok d := by
  have hgives : ofJson (.ofPairs fields) = .ok d
      ↔ record.Gives (fun key => Fields.find? key fields) d.values := by
    rw [ofJson_eq_ok_iff, Json.ofPairs, Record.decode_obj_iff (Fields.nodup_ofList fields)]
    simp only [Fields.find?_ofList hkeys]
  rw [hgives, gives_iff, ← Fields.holds_iff hkeys, ← Fields.holds_iff hkeys,
    ← Fields.holds_iff hkeys, Fields.find?_eq_some_iff hkeys]
  exact ⟨fun h => ⟨h.message, h.line, h.column, h.file⟩,
    fun h => ⟨hkeys, h.1, h.2.1, h.2.2.1, h.2.2.2⟩⟩

/-- A document of an array offers no fields. -/
theorem wantedFields_of_array {wanted : String → Bool} (h : Json.Document raw (.arr items)) :
    Json.wantedFields wanted raw = none := by
  cases hwanted : Json.wantedFields wanted raw with
  | none => rfl
  | some fields =>
      obtain ⟨_, hobj⟩ := (Json.wantedFields_eq_some_iff.mp hwanted).obj_of_document h
      cases hobj

/-- The document of an object is what it offers under the known keys, none of them twice. -/
theorem document?_of_object (h : Json.Offers (fun key => key ∈ names) raw fields) :
    document? raw = if (fields.map Prod.fst).Nodup then some (.ofPairs fields) else none := by
  have hwanted : Json.wantedFields (fun key => key ∈ record.names) raw = some fields :=
    Json.wantedFields_eq_some_iff.mpr h
  simp only [document?, hwanted]

/-- The document of an array is the array. -/
theorem document?_of_array (h : Json.Document raw (.arr items)) :
    document? raw = some (.arr items) := by
  simp only [document?, wantedFields_of_array h, Json.parse_eq_ok_iff.mpr h]

/-- What is taken for a document carries fields. -/
theorem cases_of_document? {v : Json} (h : document? raw = some v) :
    (∃ fields, Json.Offers (fun key => key ∈ names) raw fields ∧ (fields.map Prod.fst).Nodup
      ∧ v = .ofPairs fields)
    ∨ ∃ items, Json.Document raw (.arr items) ∧ v = .arr items := by
  cases hwanted : Json.wantedFields (fun key => key ∈ record.names) raw with
  | some fields =>
      simp only [document?, hwanted] at h
      split at h
      · next hkeys =>
          exact Or.inl ⟨fields, Json.wantedFields_eq_some_iff.mp hwanted, hkeys,
            (Option.some.inj h).symm⟩
      · cases h
  | none =>
      cases hparse : Json.parse raw with
      | error fault =>
          simp only [document?, hwanted, hparse] at h
          cases h
      | ok w =>
          simp only [document?, hwanted, hparse] at h
          split at h
          · next items heq =>
              obtain rfl := Except.ok.inj heq
              exact Or.inr ⟨items, Json.parse_eq_ok_iff.mp hparse, (Option.some.inj h).symm⟩
          · cases h

/-- An array says a diagnostic item by item, in the order of the fields. -/
theorem ofJson_arr_iff : ofJson (.arr items) = .ok d ↔
    items.length ≤ names.length ∧ d.SaidBy (names.zip items) := by
  have hnames : record.names.Nodup := by decide
  rw [ofJson_eq_ok_iff, Record.decode_arr_iff hnames, ← ofJson_eq_ok_iff,
    ← saidBy_iff (Record.nodup_zip hnames items)]
  rfl

/-- **THE READER DECIDES** what a text tells. -/
theorem ofText?_eq_some_iff {text : String} :
    ofText? text = some d ↔ Tells (Utf8.encode text) d := by
  constructor
  · intro h
    cases hdoc : document? (Utf8.encode text) with
    | none =>
        rw [ofText?, hdoc] at h
        cases h
    | some v =>
        simp only [ofText?, hdoc] at h
        have hread := Json.ok_of_toOption h
        rcases cases_of_document? hdoc with ⟨fields, hoffers, hkeys, rfl⟩ | ⟨items, harray, rfl⟩
        · exact ⟨fields, .object hoffers, (saidBy_iff hkeys).mpr hread⟩
        · obtain ⟨hfew, hsaid⟩ := ofJson_arr_iff.mp hread
          exact ⟨_, .array harray hfew, hsaid⟩
  · rintro ⟨fields, hcarries, hsaid⟩
    cases hcarries with
    | object offers =>
        simp only [ofText?, document?_of_object offers, if_pos hsaid.once,
          (saidBy_iff hsaid.once).mp hsaid]
        rfl
    | array document few =>
        simp only [ofText?, document?_of_array document, ofJson_arr_iff.mpr ⟨few, hsaid⟩]
        rfl

/-! ## What spoils a text -/

/-- A text carries one list of fields at most. -/
theorem Carries.unique (h : Carries raw fields) (h' : Carries raw fields') : fields = fields' := by
  cases h with
  | object offers =>
      cases h' with
      | object offers' =>
          exact Option.some.inj ((Json.wantedFields_eq_some_iff.mpr offers).symm.trans
            (Json.wantedFields_eq_some_iff.mpr offers'))
      | array document few =>
          obtain ⟨_, hobj⟩ := offers.obj_of_document document
          cases hobj
  | array document few =>
      cases h' with
      | object offers =>
          obtain ⟨_, hobj⟩ := offers.obj_of_document document
          cases hobj
      | array document' few' =>
          have hparse := (Json.parse_eq_ok_iff.mpr document).symm.trans
            (Json.parse_eq_ok_iff.mpr document')
          cases hparse
          rfl

/-- Whatever carries fields is an object of the format. -/
theorem Carries.wellFormed (h : Carries raw fields) : WellFormed raw := by
  cases h with
  | object offers => exact offers.formed
  | array document few =>
      obtain ⟨b, t, b', hb, ht, hb', hraw⟩ := document
      exact ⟨b, t, b', hb, ht.formed, hb', hraw⟩

/-- What carries fields is an object or an array that is not too long, if it is a document. -/
theorem Carries.cases_document {v : Json} (h : Carries raw fields) (hdoc : Json.Document raw v) :
    (∃ fields, v = .obj fields) ∨ ∃ items, v = .arr items ∧ items.length ≤ names.length := by
  cases h with
  | object offers => exact Or.inl (offers.obj_of_document hdoc)
  | @array items document few =>
      have hparse := (Json.parse_eq_ok_iff.mpr document).symm.trans (Json.parse_eq_ok_iff.mpr hdoc)
      exact Or.inr ⟨items, (Except.ok.inj hparse).symm, few⟩

/-- A field of a key that comes once is the one that is held. -/
theorem eq_of_holds {key : String} {v : Json} {v? : Option Json}
    (hkeys : (fields.map Prod.fst).Nodup) (h : Fields.Holds key fields v?)
    (hv : (key, v) ∈ fields) :
    v = .null ∨ v? = some v := by
  cases v? with
  | none => exact Or.inl (h v hv)
  | some w =>
      have hfind := Fields.find?_of_mem hkeys hv
      rw [Fields.find?_of_mem hkeys h] at hfind
      exact Or.inr hfind

/-- What is spoiled tells nothing. -/
theorem Spoiled.not_tells (h : Spoiled raw) : ¬ Tells raw d := by
  rintro ⟨fields, hcarries, hsaid⟩
  have hnumber : ∀ {key v} {n? : Option UInt32}, (key, v) ∈ fields →
      Fields.Holds key fields (n?.map (fun n => .int n.toNat)) → v ≠ .null →
      ∃ n : Nat, n < 2 ^ 32 ∧ v = .int n := by
    intro key v n? hv hholds hnull
    have heq := (eq_of_holds hsaid.once hholds hv).resolve_left hnull
    obtain ⟨n, -, hn⟩ := Option.map_eq_some_iff.mp heq
    exact ⟨n.toNat, n.toNat_lt, hn.symm⟩
  cases h with
  | malformed h => exact h hcarries.wellFormed
  | scalar document notObject notArray =>
      rcases hcarries.cases_document document with ⟨fields, hobj⟩ | ⟨items, harr, -⟩
      · exact notObject fields hobj
      · exact notArray items harr
  | long document many =>
      rcases hcarries.cases_document document with ⟨fields, hobj⟩ | ⟨items, harr, hfew⟩
      · cases hobj
      · cases harr
        exact absurd hfew (Nat.not_le.mpr many)
  | repeated carries twice =>
      obtain rfl := carries.unique hcarries
      exact twice hsaid.once
  | noMessage carries missing =>
      obtain rfl := carries.unique hcarries
      exact missing _ hsaid.message
  | message carries here noText =>
      obtain rfl := carries.unique hcarries
      have hfind := Fields.find?_of_mem hsaid.once here
      rw [Fields.find?_of_mem hsaid.once hsaid.message] at hfind
      exact noText _ (Option.some.inj hfind).symm
  | number carries place here notNull outside =>
      obtain rfl := carries.unique hcarries
      rcases place with rfl | rfl
      · obtain ⟨n, hn, hv⟩ := hnumber here hsaid.line notNull
        exact outside n hn hv
      · obtain ⟨n, hn, hv⟩ := hnumber here hsaid.column notNull
        exact outside n hn hv
  | file carries here notNull noText =>
      obtain rfl := carries.unique hcarries
      have heq := (eq_of_holds hsaid.once hsaid.file here).resolve_left notNull
      obtain ⟨s, -, hs⟩ := Option.map_eq_some_iff.mp heq
      exact noText s hs.symm

/-! ## What is written -/

/-- Only known keys are written. -/
theorem mem_names_of_mem_pairs {p : String × Json} (hp : p ∈ record.pairs d.values) :
    p.1 ∈ names :=
  (Record.keys_sublist record d.values).subset (List.mem_map_of_mem hp)

/-- No key is written twice. -/
theorem nodup_pairs (d : Diagnostic) : ((record.pairs d.values).map Prod.fst).Nodup :=
  (Record.keys_sublist record d.values).nodup (by decide)

/-- What is written is read back exactly. -/
theorem exact_pairs {depth : Nat} (d : Diagnostic) :
    ∀ p ∈ record.pairs d.values, Json.Exact depth p.2 := by
  have hoptional : ∀ {α : Type} {encode : α → Json} {x? : Option α} {v : Json},
      (∀ x, Json.Exact depth (encode x)) → x?.map encode = some v → Json.Exact depth v := by
    intro α encode x? v hexact hv
    obtain ⟨x, -, rfl⟩ := Option.map_eq_some_iff.mp hv
    exact hexact x
  intro p hp
  rcases Record.mem_pairs_cons.mp hp with ⟨v, hv, rfl⟩ | hp
  · cases hv
    exact Json.exact_str d.message
  · rcases Record.mem_pairs_cons.mp hp with ⟨v, hv, rfl⟩ | hp
    · exact hoptional Json.exact_uint32 hv
    · rcases Record.mem_pairs_cons.mp hp with ⟨v, hv, rfl⟩ | hp
      · exact hoptional Json.exact_uint32 hv
      · rcases Record.mem_pairs_cons.mp hp with ⟨v, hv, rfl⟩ | hp
        · exact hoptional Json.exact_str hv
        · cases hp

/-- What is written says the diagnostic. -/
theorem saidBy_pairs (d : Diagnostic) : d.SaidBy (record.pairs d.values) :=
  (saidBy_iff d.nodup_pairs).mpr (spelledBy.object trivial)

/-- What fields say does not depend on their order. -/
theorem SaidBy.of_mem_iff (h : d.SaidBy fields) (hkeys : (fields'.map Prod.fst).Nodup)
    (hmem : ∀ p, p ∈ fields' ↔ p ∈ fields) : d.SaidBy fields' := by
  have hholds : ∀ {key v?}, Fields.Holds key fields v? → Fields.Holds key fields' v? := by
    intro key v? hholds
    cases v? with
    | some v => exact (hmem _).mpr hholds
    | none => exact fun v hv => hholds v ((hmem _).mp hv)
  exact ⟨hkeys, (hmem _).mpr h.message, hholds h.line, hholds h.column, hholds h.file⟩

/-- The written fields tell the diagnostic, whatever their order. -/
theorem tells_render (hkeys : (fields.map Prod.fst).Nodup)
    (hmem : ∀ p, p ∈ fields ↔ p ∈ record.pairs d.values) :
    Tells (Utf8.encode (Json.obj fields).render) d := by
  refine ⟨fields, .object (Json.offers_render ?_ ?_), d.saidBy_pairs.of_mem_iff hkeys hmem⟩
  · intro p hp
    exact decide_eq_true (mem_names_of_mem_pairs ((hmem p).mp hp))
  · intro p hp
    exact d.exact_pairs p ((hmem p).mp hp)

/-- Putting the fields in order loses none and adds none. -/
theorem mem_ofList_pairs {p : String × Json} :
    p ∈ Fields.ofList (record.pairs d.values) ↔ p ∈ record.pairs d.values := by
  refine ⟨Fields.mem_of_mem_ofList, fun hp => ?_⟩
  have hfind := Fields.find?_of_mem d.nodup_pairs hp
  rw [← Fields.find?_ofList d.nodup_pairs] at hfind
  exact Fields.mem_of_find? hfind

/-- A text that tells a diagnostic is read as that. -/
theorem ofText_of_tells {text : String} (h : Tells (Utf8.encode text) d) : ofText text = d := by
  rw [ofText, ofText?_eq_some_iff.mpr h, Option.getD_some]

/-- A text that tells none is taken as a message. -/
theorem ofText_of_not {text : String} (h : ¬ ∃ d, Tells (Utf8.encode text) d) :
    ofText text = ⟨text, none, none, none⟩ := by
  cases htext : ofText? text with
  | some d => exact absurd ⟨d, ofText?_eq_some_iff.mp htext⟩ h
  | none =>
      rw [ofText, htext]
      rfl

/-- **DIAGNOSTICS ARE TOLD OR THE TEXT STANDS FOR ITSELF**, whatever texts and numbers they
    carry and whatever an engine says.

    * What is written for a diagnostic is read as that diagnostic, with the fields in the
      order of their keys or in the declared order.
    * So is every text that tells it: with any blanks, escapes, fields of other names, with
      `null` for what is absent, or as an array.
    * A text that tells no diagnostic is the message as it is, and nothing else is kept.
    * No text tells one that is malformed or goes on behind a value, that is neither an object
      nor an array or has too many items, that repeats a known field, lacks a message or has
      one that is no text, or has a place that is no number of thirty-two bits or a file that
      is no text. -/
theorem told_or_taken_as_is :
    (∀ d : Diagnostic, ofText d.toJson.render = d
      ∧ ofText (Json.obj (record.pairs d.values)).render = d)
    ∧ (∀ text d, Tells (Utf8.encode text) d → ofText text = d)
    ∧ (∀ text, (¬ ∃ d, Tells (Utf8.encode text) d) → ofText text = ⟨text, none, none, none⟩)
    ∧ ∀ text, Spoiled (Utf8.encode text) → ofText text = ⟨text, none, none, none⟩ := by
  refine ⟨fun d => ⟨?_, ?_⟩, fun text d => ofText_of_tells, fun text => ofText_of_not, ?_⟩
  · exact ofText_of_tells (tells_render (Fields.nodup_ofList _) (fun _ => mem_ofList_pairs))
  · exact ofText_of_tells (tells_render d.nodup_pairs (fun _ => Iff.rfl))
  · intro text hspoiled
    exact ofText_of_not (fun ⟨_, htells⟩ => hspoiled.not_tells htells)

/-- A text with escapes, blanks and a field of another name. -/
def conflictText : String :=
  "\x7b \"line\": 3, \"x\": [\x7b\"\\ud800\": 1e999\x7d], \"message\": \"a\\n\\u0041\", \"file\": null \x7d\n"

/-- A document with its keys in another order, an escape and an unknown key; and a text that is no
    document. -/
theorem conflict_told_or_taken :
    (Tells (Utf8.encode conflictText) ⟨"a\nA", some 3, none, none⟩
      ∧ ofText conflictText = ⟨"a\nA", some 3, none, none⟩)
    ∧ (¬ ∃ d, Tells (Utf8.encode "plain failure") d)
    ∧ ofText "plain failure" = ⟨"plain failure", none, none, none⟩ := by
  obtain ⟨-, htold, htaken, -⟩ := told_or_taken_as_is
  have htells : Tells (Utf8.encode conflictText) ⟨"a\nA", some 3, none, none⟩ :=
    ofText?_eq_some_iff.mp (by decide +kernel)
  have hplain : ¬ ∃ d, Tells (Utf8.encode "plain failure") d := by
    rintro ⟨d, hd⟩
    have hnone : ofText? "plain failure" = none := by decide +kernel
    rw [ofText?_eq_some_iff.mpr hd] at hnone
    cases hnone
  exact ⟨⟨htells, htold _ _ htells⟩, hplain, htaken _ hplain⟩

end Diagnostic
end PhaseHost
