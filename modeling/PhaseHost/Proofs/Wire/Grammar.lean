import Mathlib.Algebra.Group.Nat.Defs
import PhaseHost.Proofs.Host.Account
import PhaseHost.Proofs.Wire.NormalForm

/-! # The grammar of frames

    Which values are requests is said here without any decoder, by a grammar that
    can be run on a value and read as a table.

    * A SHAPE is what may stand under the name of a field.
    * A FIELD RULE gives a name, the shape of what stands there, and whether
      something must stand there.
    * A payload OBEYS the rules of its action: as an object under the names of the
      rules, as an array in their order.

    Records are taken to the rules they follow, one field at a time, and then
    frames are accepted exactly if they are requests of the grammar. -/

namespace PhaseHost

/-- What may stand under the name of a field. -/
inductive Shape where
  | text
  | truth
  | textOrNull
  | texts
  /-- Texts by path. -/
  | files
  /-- The name of a format, by itself or as the only key of an object over `null`. -/
  | format
  deriving DecidableEq, Repr

/-- Whether a value is a text. -/
def Json.isText : Json → Bool
  | .str _ => true
  | _ => false

/-- Whether a value is the name of a format. -/
def isFormatName (name : String) : Bool :=
  ["json", "yaml", "cue"].any (fun known => known = name)

/-- Whether a value has a shape. -/
def Shape.fits : Shape → Json → Bool
  | .text, v => v.isText
  | .truth, .bool _ => true
  | .textOrNull, .null => true
  | .textOrNull, v => v.isText
  | .texts, .arr items => items.all Json.isText
  | .files, .obj fields => fields.all (fun p => p.2.isText)
  | .format, .str name => isFormatName name
  | .format, .obj [(name, .null)] => isFormatName name
  | _, _ => false

/-- What a payload may hold under a name. -/
structure FieldRule where
  name : String
  shape : Shape
  /-- Something must stand there. -/
  needed : Bool
  deriving DecidableEq, Repr

/-- The fields of an object obey rules: whatever stands under the name of a rule has its
    shape, and something stands there if it must.  Other keys do not matter. -/
def Fields.Obey (rules : List FieldRule) (fields : Fields Json) : Prop :=
  ∀ rule ∈ rules, (∀ p ∈ fields, p.1 = rule.name → rule.shape.fits p.2 = true)
    ∧ (rule.needed = true → ∃ p ∈ fields, p.1 = rule.name)

instance (rules : List FieldRule) (fields : Fields Json) : Decidable (fields.Obey rules) :=
  inferInstanceAs (Decidable (∀ rule ∈ rules, _ ∧ _))

/-- A payload obeys rules, as an object or as an array in the order of the rules. -/
def Json.Obeys (rules : List FieldRule) : Json → Prop
  | .obj fields => Fields.Obey rules fields
  | .arr items => items.length ≤ rules.length
      ∧ Fields.Obey rules ((rules.map FieldRule.name).zip items)
  | _ => False

instance (rules : List FieldRule) (v : Json) : Decidable (v.Obeys rules) := by
  unfold Json.Obeys
  split <;> infer_instance

/-- The rules of the payload of an action. -/
def Action.rules? : String → Option (List FieldRule)
  | "init" => some [⟨"wasmPath", .text, true⟩, ⟨"version", .text, true⟩,
      ⟨"isReader", .truth, false⟩, ⟨"readerPath", .textOrNull, false⟩]
  | "unify" => some [⟨"overlay", .files, true⟩, ⟨"entryPoints", .texts, false⟩,
      ⟨"tags", .texts, false⟩]
  | "validate" => some [⟨"schema", .text, true⟩, ⟨"data", .text, true⟩]
  | "format" => some [⟨"code", .text, true⟩]
  | "parse" => some [⟨"code", .text, true⟩]
  | "getSymbols" => some [⟨"code", .text, true⟩]
  | "export" => some [⟨"code", .text, true⟩, ⟨"format", .format, true⟩]
  | _ => none

/-- A frame that asks for an action: an object with an integer in `0 .. 2^64 - 1` under
    `id`, the name of an action under `action`, and under `payload` what obeys the rules of
    that action; an absent payload counts as an empty object. -/
def Json.IsRequest (f : Json) : Prop :=
  ∃ fields, f = .obj fields
    ∧ (∃ n : Nat, n < 2 ^ 64 ∧ Fields.find? "id" fields = some (.int n))
    ∧ ∃ action rules, Fields.find? "action" fields = some (.str action)
      ∧ Action.rules? action = some rules
      ∧ ((Fields.find? "payload" fields).getD (.obj [])).Obeys rules

/-- What a frame is blamed for that is no request: the first thing it lacks, where its form
    comes before its id, the id before the action, and the action before the payload. -/
inductive Json.Lacks (f : Json) : FrameFault → Prop
  | form (other : ∀ fields, f ≠ .obj fields) : Lacks f .notObject
  | id {fields} (form : f = .obj fields)
      (unusable : ∀ n : Nat, n < 2 ^ 64 → Fields.find? "id" fields ≠ some (.int n)) :
      Lacks f .noId
  | action {fields} {n : Nat} (form : f = .obj fields) (small : n < 2 ^ 64)
      (id : Fields.find? "id" fields = some (.int n))
      (unnamed : ∀ name, Fields.find? "action" fields ≠ some (.str name)) :
      Lacks f .noAction
  | known {fields} {n : Nat} {name} (form : f = .obj fields) (small : n < 2 ^ 64)
      (id : Fields.find? "id" fields = some (.int n))
      (action : Fields.find? "action" fields = some (.str name))
      (unknown : name ∉ Action.names) :
      Lacks f (.unknownAction name)
  | payload {fields} {n : Nat} {name rules} (form : f = .obj fields) (small : n < 2 ^ 64)
      (id : Fields.find? "id" fields = some (.int n))
      (action : Fields.find? "action" fields = some (.str name))
      (known : Action.rules? name = some rules)
      (bad : ¬ ((Fields.find? "payload" fields).getD (.obj [])).Obeys rules) (why) :
      Lacks f (.badPayload name why)

/-! ## Values of a shape -/

theorem Decoded.isOk_iff {α : Type} {d : Decoded α} : d.isOk = true ↔ ∃ x, d = .ok x := by
  cases d with
  | ok x => exact ⟨fun _ => ⟨x, rfl⟩, fun _ => rfl⟩
  | error e => exact ⟨nofun, nofun⟩

theorem Decoded.isOk_map {α β : Type} (f : α → β) (d : Decoded α) :
    (d.map f).isOk = d.isOk := by
  cases d <;> rfl

namespace Json

/-- A text is read exactly from a string. -/
theorem isOk_toText (v : Json) : v.toText.isOk = v.isText := by
  cases v <;> rfl

/-- Texts are read exactly if all items are strings. -/
theorem isOk_decodeItems (items : List Json) :
    (decodeItems toText items).isOk = items.all isText := by
  induction items with
  | nil => rfl
  | cons v rest ih =>
      rw [List.all_cons, ← isOk_toText, ← ih]
      simp only [decodeItems]
      cases v.toText with
      | error e => rfl
      | ok s => cases decodeItems toText rest <;> rfl

/-- A table of texts is read exactly if all values are strings. -/
theorem isOk_decodeFields (fields : List (String × Json)) :
    (decodeFields toText fields).isOk = fields.all (fun p => p.2.isText) := by
  induction fields with
  | nil => rfl
  | cons p rest ih =>
      obtain ⟨key, v⟩ := p
      rw [List.all_cons, ← isOk_toText, ← ih]
      simp only [decodeFields]
      cases v.toText with
      | error e => rfl
      | ok s => cases decodeFields toText rest <;> rfl

end Json

/-- A rule RULES a field if the field has its name, takes the values of its shape, and falls
    back exactly if nothing need be there. -/
structure FieldRule.Rules {α : Type} (rule : FieldRule) (field : Field α) : Prop where
  name : field.name = rule.name
  takes : ∀ v, (field.decode v).isOk = rule.shape.fits v
  needed : field.fallback.isNone = rule.needed

/-- A text has to be there, and to be a string. -/
theorem Field.text_ruled (name : String) :
    FieldRule.Rules ⟨name, .text, true⟩ (.text name) where
  name := rfl
  takes v := by cases v <;> rfl
  needed := rfl

/-- Texts may be absent, and otherwise are an array of strings. -/
theorem Field.texts_ruled (name : String) :
    FieldRule.Rules ⟨name, .texts, false⟩ (.texts name) where
  name := rfl
  takes v := by
    cases v with
    | arr items => exact Json.isOk_decodeItems items
    | _ => rfl
  needed := rfl

/-- A truth value may be absent. -/
theorem Field.truth_ruled (name : String) (fallback : Bool) :
    FieldRule.Rules ⟨name, .truth, false⟩ (.defaulted name Json.toBool Json.bool fallback) where
  name := rfl
  takes v := by cases v <;> rfl
  needed := rfl

/-- An optional text may be absent or `null`. -/
theorem Field.optional_text_ruled (name : String) :
    FieldRule.Rules ⟨name, .textOrNull, false⟩ (.optional name Json.toText Json.str) where
  name := rfl
  takes v := by cases v <;> rfl
  needed := rfl

/-- Files have to be there, with texts for contents. -/
theorem Field.overlay_ruled (name : String) :
    FieldRule.Rules ⟨name, .files, true⟩ (.required name Overlay.ofJson Overlay.toJson) where
  name := rfl
  takes v := by
    show ((Json.toTable Json.toText v).map Overlay.ofList).isOk = _
    rw [Decoded.isOk_map]
    cases v with
    | obj fields => exact Json.isOk_decodeFields fields
    | _ => rfl
  needed := rfl

/-- A choice is read exactly if it is one of those that are listed. -/
theorem Json.isOk_lookupChoice {α : Type} (choices : List (String × α)) (name : String) :
    (lookupChoice choices name).isOk = choices.any (fun c => c.1 = name) := by
  rw [← List.isSome_find?]
  simp only [lookupChoice]
  cases choices.find? (fun c => c.1 = name) <;> rfl

/-- A format has to be there, and to be a known one. -/
theorem Field.format_ruled (name : String) :
    FieldRule.Rules ⟨name, .format, true⟩
      (.required name ExportFormat.ofJson ExportFormat.toJson) where
  name := rfl
  takes v := by
    show (Json.toChoice ExportFormat.choices v).isOk = _
    have hname : ∀ s, (Json.lookupChoice ExportFormat.choices s).isOk = isFormatName s :=
      Json.isOk_lookupChoice ExportFormat.choices
    match v with
    | .str s => exact hname s
    | .obj [(s, w)] =>
        simp only [Json.toChoice]
        cases hlookup : Json.lookupChoice ExportFormat.choices s with
        | ok format =>
            -- the name is known, so the value beside it decides
            have hknown : isFormatName s = true := by rw [← hname, hlookup]; rfl
            cases w with
            | null => exact hknown.symm
            | _ => rfl
        | error e =>
            have hunknown : isFormatName s = false := by rw [← hname, hlookup]; rfl
            cases w with
            | null => exact hunknown.symm
            | _ => rfl
    | .obj [] => rfl
    | .obj ((_, w) :: _ :: _) => cases w <;> rfl
    | .null => rfl
    | .bool _ => rfl
    | .int _ => rfl
    | .float _ => rfl
    | .arr _ => rfl
  needed := rfl

/-! ## Records that follow rules -/

/-- A record FOLLOWS rules that rule its fields, in order. -/
inductive Record.Follows : {αs : List Type} → Record αs → List FieldRule → Prop
  | nil : Follows .nil []
  | cons {α : Type} {αs : List Type} {field : Field α} {rest : Record αs} {rule : FieldRule}
      {rules : List FieldRule} (first : rule.Rules field) (others : Follows rest rules) :
      Follows (.cons field rest) (rule :: rules)

/-- What a rule allows to stand under its name, or to be missing there. -/
def FieldRule.Allows (rule : FieldRule) : Option Json → Prop
  | some v => rule.shape.fits v = true
  | none => rule.needed = false

/-- A field gives something exactly if its rule allows what it finds. -/
theorem FieldRule.Rules.exists_gives_iff {α : Type} {rule : FieldRule} {field : Field α}
    (h : rule.Rules field) (v? : Option Json) :
    (∃ x, field.Gives v? x) ↔ rule.Allows v? := by
  cases v? with
  | some v =>
      show (∃ x, field.decode v = .ok x) ↔ rule.shape.fits v = true
      rw [← h.takes v, Decoded.isOk_iff]
  | none =>
      show (∃ x, field.fallback = some x) ↔ rule.needed = false
      rw [← h.needed, Option.isNone_eq_false_iff, Option.isSome_iff_exists]

namespace Record

variable {αs : List Type} {r : Record αs} {rules : List FieldRule}

/-- A record and its rules name the same fields. -/
theorem Follows.names_eq (h : r.Follows rules) : r.names = rules.map FieldRule.name := by
  induction h with
  | nil => rfl
  | cons first others ih =>
      rw [List.map_cons, ← first.name, ← ih]
      rfl

/-- A record gives values for what its rules allow. -/
theorem Follows.exists_gives_iff (h : r.Follows rules) (look : String → Option Json) :
    (∃ xs, r.Gives look xs) ↔ ∀ rule ∈ rules, rule.Allows (look rule.name) := by
  induction h with
  | nil => exact ⟨fun _ => nofun, fun _ => ⟨(), trivial⟩⟩
  | @cons α αs field rest rule rules first others ih =>
      rw [List.forall_mem_cons, ← ih, ← first.exists_gives_iff, ← first.name]
      constructor
      · rintro ⟨⟨x, xs⟩, hx, hxs⟩
        exact ⟨⟨x, hx⟩, ⟨xs, hxs⟩⟩
      · rintro ⟨⟨x, hx⟩, ⟨xs, hxs⟩⟩
        exact ⟨(x, xs), hx, hxs⟩

/-- A record finds no fault with what has the shape that its rules ask for. -/
theorem Follows.fault?_eq_none_iff (h : r.Follows rules) (hnames : r.names.Nodup)
    {key : String} {v : Json} :
    r.fault? key v = none ↔ ∀ rule ∈ rules, key = rule.name → rule.shape.fits v = true := by
  induction h with
  | nil => exact ⟨fun _ => nofun, fun _ => rfl⟩
  | @cons α αs field rest rule rules first others ih =>
      obtain ⟨hname, hrest⟩ := List.nodup_cons.mp hnames
      rw [List.forall_mem_cons]
      simp only [fault?]
      by_cases hkey : field.name = key
      · -- no other field has the name, so the first alone decides
        subst hkey
        rw [if_pos rfl]
        have hothers : ∀ rule' ∈ rules, field.name = rule'.name → rule'.shape.fits v = true := by
          intro rule' hmem heq
          rw [others.names_eq] at hname
          exact absurd (List.mem_map.mpr ⟨rule', hmem, heq.symm⟩) hname
        rw [and_iff_left hothers, ← first.takes v]
        cases hv : field.decode v with
        | ok x => exact ⟨fun _ _ => rfl, fun _ => rfl⟩
        | error e =>
            constructor
            · intro hnone
              cases hnone
            · intro hfits
              cases hfits first.name
      · rw [if_neg hkey, ih hrest]
        refine (and_iff_right ?_).symm
        intro heq
        exact absurd (first.name.trans heq.symm) hkey

end Record

namespace Fields

variable {rules : List FieldRule} {fields : Fields Json}

/-- Fields obey rules if every one of them has the shape it should have, and what is found
    under the names of the rules is allowed. -/
theorem obey_iff : fields.Obey rules ↔
    (∀ p ∈ fields, ∀ rule ∈ rules, p.1 = rule.name → rule.shape.fits p.2 = true)
      ∧ ∀ rule ∈ rules, rule.Allows (find? rule.name fields) := by
  constructor
  · intro h
    refine ⟨fun p hp rule hrule => (h rule hrule).1 p hp, ?_⟩
    intro rule hrule
    obtain ⟨hshape, hneeded⟩ := h rule hrule
    cases hfind : find? rule.name fields with
    | some v => exact hshape _ (mem_of_find? hfind) rfl
    | none =>
        refine Bool.eq_false_iff.mpr (fun hmust => ?_)
        obtain ⟨p, hp, hname⟩ := hneeded hmust
        exact find?_eq_none_iff.mp hfind p hp hname
  · rintro ⟨hshape, hallows⟩ rule hrule
    refine ⟨fun p hp => hshape p hp rule hrule, ?_⟩
    intro hmust
    have hallowed := hallows rule hrule
    cases hfind : find? rule.name fields with
    | some v => exact ⟨_, mem_of_find? hfind, rfl⟩
    | none =>
        rw [hfind] at hallowed
        rw [show rule.needed = false from hallowed] at hmust
        exact nomatch hmust

/-- Where no key is there twice, what is found decides. -/
theorem obey_iff_allows (hkeys : (fields.map Prod.fst).Nodup) :
    fields.Obey rules ↔ ∀ rule ∈ rules, rule.Allows (find? rule.name fields) := by
  rw [obey_iff]
  refine and_iff_right_of_imp (fun hallows p hp rule hrule hname => ?_)
  have hallowed := hallows rule hrule
  rw [← hname, find?_of_mem hkeys (show (p.1, p.2) ∈ fields from hp)] at hallowed
  exact hallowed

end Fields

namespace Record

variable {αs : List Type} {r : Record αs} {rules : List FieldRule}

/-- An object is read exactly if it obeys the rules. -/
theorem Follows.decode_obj_iff (h : r.Follows rules) (hnames : r.names.Nodup) (name : String)
    (fields : List (String × Json)) :
    (∃ xs, r.decode name (.obj fields) = .ok xs) ↔ Fields.Obey rules fields := by
  rw [Fields.obey_iff, ← h.exists_gives_iff (fun key => Fields.find? key fields)]
  have hfaults : fields.findSome? (fun p => r.fault? p.1 p.2) = none ↔
      ∀ p ∈ fields, ∀ rule ∈ rules, p.1 = rule.name → rule.shape.fits p.2 = true := by
    rw [List.findSome?_eq_none_iff]
    exact forall₂_congr (fun p _ => h.fault?_eq_none_iff hnames)
  rw [← hfaults]
  simp only [decode]
  cases fields.findSome? (fun p => r.fault? p.1 p.2) with
  | some e =>
      constructor
      · rintro ⟨xs, hxs⟩
        cases hxs
      · rintro ⟨hnone, -⟩
        cases hnone
  | none => simp only [ofObject_eq_ok_iff, true_and]

/-- An array is read exactly if it is not too long and its items obey the rules in order. -/
theorem Follows.decode_arr_iff (h : r.Follows rules) (hnames : r.names.Nodup) (name : String)
    (items : List Json) :
    (∃ xs, r.decode name (.arr items) = .ok xs) ↔ items.length ≤ rules.length
      ∧ Fields.Obey rules ((rules.map FieldRule.name).zip items) := by
  have hkeys : (((rules.map FieldRule.name).zip items).map Prod.fst).Nodup := by
    rw [← h.names_eq]
    exact nodup_zip hnames items
  rw [Fields.obey_iff_allows hkeys, ← rules.length_map FieldRule.name, ← h.names_eq,
    ← h.exists_gives_iff (fun key => Fields.find? key (r.names.zip items))]
  simp only [decode, ofItems_eq_ok_iff hnames, exists_and_left]

/-- **A RECORD IS READ** from what obeys the rules that it follows, and from nothing else. -/
theorem Follows.decode_iff (h : r.Follows rules) (hnames : r.names.Nodup) (name : String)
    (v : Json) : (∃ xs, r.decode name v = .ok xs) ↔ v.Obeys rules := by
  cases v with
  | obj fields => exact h.decode_obj_iff hnames name fields
  | arr items => exact h.decode_arr_iff hnames name items
  | _ => exact ⟨nofun, nofun⟩

end Record

/-! ## Payloads -/

namespace Action

variable {name called : String}

/-- The record of a payload follows the rules of its action. -/
theorem ReadAs.follows {αs : List Type} {r : Record αs} {make : Values αs → Action}
    (h : ReadAs name r called make) : ∃ rules, rules? name = some rules ∧ r.Follows rules := by
  have code : CodePayload.record.Follows [⟨"code", .text, true⟩] :=
    .cons (Field.text_ruled _) .nil
  cases h with
  | init =>
      exact ⟨_, rfl, .cons (Field.text_ruled _) <| .cons (Field.text_ruled _) <|
        .cons (Field.truth_ruled _ _) <| .cons (Field.optional_text_ruled _) .nil⟩
  | unify =>
      exact ⟨_, rfl, .cons (Field.overlay_ruled _) <| .cons (Field.texts_ruled _) <|
        .cons (Field.texts_ruled _) .nil⟩
  | validate => exact ⟨_, rfl, .cons (Field.text_ruled _) <| .cons (Field.text_ruled _) .nil⟩
  | format => exact ⟨_, rfl, code⟩
  | parse => exact ⟨_, rfl, code⟩
  | getSymbols => exact ⟨_, rfl, code⟩
  | exportAs =>
      exact ⟨_, rfl, .cons (Field.text_ruled _) <| .cons (Field.format_ruled _) .nil⟩

/-- There are no rules for an unknown action. -/
theorem rules?_of_notMem (h : name ∉ names) : rules? name = none := by
  unfold rules?
  split <;> first | rfl | exact absurd (by decide) h

/-- A payload is read exactly if it obeys the rules of its action. -/
theorem exists_ofPayload_iff (name : String) (v : Json) :
    (∃ a, ofPayload name v = .ok a) ↔ ∃ rules, rules? name = some rules ∧ v.Obeys rules := by
  rcases readAs_of_name name with ⟨hname, hunknown⟩ | ⟨αs, r, called, make, hread⟩
  · rw [hunknown, rules?_of_notMem hname]
    exact ⟨nofun, nofun⟩
  · obtain ⟨rules, hrules, hfollows⟩ := hread.follows
    have hdecode := hfollows.decode_iff hread.nodup called v
    constructor
    · rintro ⟨a, ha⟩
      obtain ⟨xs, hxs, -⟩ := (hread.ofPayload_iff v a).mp ha
      exact ⟨rules, hrules, hdecode.mp ⟨xs, hxs⟩⟩
    · rintro ⟨rules', hrules', hobeys⟩
      obtain rfl : rules = rules' := Option.some.inj (hrules.symm.trans hrules')
      obtain ⟨xs, hxs⟩ := hdecode.mpr hobeys
      exact ⟨make xs, (hread.ofPayload_iff v _).mpr ⟨xs, hxs, rfl⟩⟩

/-- What goes wrong with a payload is told with the name of the action. -/
theorem error_of_payloadFor {α : Type} {decoded : Decoded α} {make : α → Action}
    {fault : FrameFault} (h : (payloadFor name decoded).map make = .error fault) :
    ∃ why, fault = .badPayload name why := by
  cases decoded with
  | ok x => exact nomatch h
  | error why =>
      obtain rfl := Except.error.inj h
      exact ⟨why, rfl⟩

/-- A payload of an action that cannot be read is a bad one. -/
theorem ReadAs.error_of_ofPayload {αs : List Type} {r : Record αs} {make : Values αs → Action}
    (h : ReadAs name r called make) {v : Json} {fault : FrameFault}
    (herror : ofPayload name v = .error fault) : ∃ why, fault = .badPayload name why := by
  cases h <;> exact error_of_payloadFor herror

end Action

/-! ## Frames -/

namespace Message

variable {f : Json} {fields : List (String × Json)}

/-- The usable id of an object. -/
theorem idOf_obj_iff (fields : List (String × Json)) (id : UInt64) :
    idOf (.obj fields) = some id ↔ Fields.find? "id" fields = some (.int id.toNat) := by
  rw [idOf_eq_some_iff]
  constructor
  · rintro ⟨fields', hfields, hid⟩
    cases hfields
    exact hid
  · exact fun hid => ⟨fields, rfl, hid⟩

/-- **A FRAME IS ACCEPTED** exactly if it is a request. -/
theorem exists_ofFrame_iff (f : Json) : (∃ m, ofFrame f = .ok m) ↔ f.IsRequest := by
  cases f with
  | obj fields =>
      constructor
      · rintro ⟨m, hm⟩
        have hid := (idOf_obj_iff fields m.id).mp (idOf_of_ok hm)
        obtain ⟨-, haction, hpayload⟩ := ofFrame_eq_ok_iff.mp hm
        obtain ⟨rules, hrules, hobeys⟩ :=
          (Action.exists_ofPayload_iff m.action.name _).mp ⟨_, hpayload⟩
        exact ⟨fields, rfl, ⟨m.id.toNat, m.id.toNat_lt, hid⟩, _, rules, haction, hrules, hobeys⟩
      · rintro ⟨fields', hfields, ⟨n, hn, hid⟩, name, rules, haction, hrules, hobeys⟩
        cases hfields
        obtain ⟨a, ha⟩ := (Action.exists_ofPayload_iff name _).mpr ⟨rules, hrules, hobeys⟩
        obtain rfl := Action.name_of_ofPayload ha
        refine ⟨⟨UInt64.ofNat n, a⟩, ofFrame_eq_ok_iff.mpr ⟨?_, haction, ha⟩⟩
        rw [hid, Option.bind_some, Json.natural?_eq_some_iff, UInt64.toNat_ofNat_of_lt' hn]
  | _ =>
      refine ⟨nofun, ?_⟩
      rintro ⟨fields, hfields, -⟩
      exact nomatch hfields

/-- An object with a usable id that is not accepted lacks an action or its payload. -/
theorem lacks_of_actionOf {id : UInt64} {fault : FrameFault}
    (hid : Fields.find? "id" fields = some (.int id.toNat))
    (herror : actionOf fields = .error fault) : (Json.obj fields).Lacks fault := by
  simp only [actionOf] at herror
  split at herror
  next name hname =>
    have hnone : ¬ ∃ a, Action.ofPayload name ((Fields.find? "payload" fields).getD (.obj []))
        = .ok a := by
      rintro ⟨a, ha⟩
      rw [herror] at ha
      cases ha
    rcases Action.readAs_of_name name with ⟨hunknown, hblamed⟩ | ⟨αs, r, called, make, hread⟩
    · rw [hblamed] at herror
      obtain rfl := Except.error.inj herror
      exact .known rfl id.toNat_lt hid hname hunknown
    · obtain ⟨why, rfl⟩ := hread.error_of_ofPayload herror
      obtain ⟨rules, hrules, -⟩ := hread.follows
      refine .payload rfl id.toNat_lt hid hname hrules ?_ why
      intro hobeys
      exact hnone ((Action.exists_ofPayload_iff name _).mpr ⟨rules, hrules, hobeys⟩)
  next hunnamed =>
    obtain rfl := Except.error.inj herror
    exact .action rfl id.toNat_lt hid hunnamed

/-- The error of a frame tells what it lacks. -/
theorem lacks_of_error {e : FrameError} (he : ofFrame f = .error e) : f.Lacks e.fault := by
  cases f with
  | obj fields =>
      simp only [ofFrame] at he
      cases hid : idOf (.obj fields) with
      | none =>
          rw [hid] at he
          obtain rfl := Except.error.inj he
          refine .id rfl ?_
          intro n hn hfind
          have hsome : idOf (.obj fields) = some (UInt64.ofNat n) := by
            rw [idOf_obj_iff, UInt64.toNat_ofNat_of_lt' hn]
            exact hfind
          rw [hid] at hsome
          cases hsome
      | some id =>
          rw [hid] at he
          dsimp only at he
          cases haction : actionOf fields with
          | ok action =>
              rw [haction] at he
              cases he
          | error fault =>
              rw [haction] at he
              obtain rfl := Except.error.inj he
              exact lacks_of_actionOf ((idOf_obj_iff fields id).mp hid) haction
  | _ =>
      obtain rfl := Except.error.inj he
      refine .form ?_
      intro fields hfields
      cases hfields

/-- **FRAMES ARE ACCEPTED BY A GRAMMAR**.  For every value:

    * it is accepted exactly if it is a request of the grammar;
    * what it is accepted as has the id and the action of the frame;
    * otherwise the first thing it lacks is reported, under its id if it is an object with
      an integer in `0 .. 2^64 - 1` there, and under none if not;
    * another object with the same under the three keys is accepted or reported alike. -/
theorem frames_accepted_by_grammar (f : Json) :
    ((∃ m, ofFrame f = .ok m) ↔ f.IsRequest) ∧
    (∀ m, ofFrame f = .ok m →
      f.get? "id" = some (.int m.id.toNat) ∧ f.get? "action" = some (.str m.action.name)) ∧
    (∀ e, ofFrame f = .error e →
      f.Lacks e.fault ∧
      ∀ id : UInt64, e.id = some id ↔
        ∃ fields, f = .obj fields ∧ Fields.find? "id" fields = some (.int id.toNat)) ∧
    ∀ fields fields', f = .obj fields →
      (∀ key ∈ ["id", "action", "payload"],
        Fields.find? key fields = Fields.find? key fields') →
      ofFrame f = ofFrame (.obj fields') := by
  refine ⟨exists_ofFrame_iff f, ?_, ?_, ?_⟩
  · intro m hm
    obtain ⟨hid, haction⟩ := toFrame_keeps hm
    rw [← hid, ← haction]
    exact ⟨m.find?_fields "id", m.find?_fields "action"⟩
  · intro e he
    refine ⟨lacks_of_error he, fun id => ?_⟩
    rw [← idOf_of_error he]
    exact idOf_eq_some_iff f id
  · rintro fields fields' rfl h
    simp only [ofFrame, idOf, Json.get?, actionOf]
    rw [h "id" (by decide), h "action" (by decide), h "payload" (by decide)]

/-- `null` stands for an absent reader path, but not for an absent truth value. -/
example : ∃ rules, Action.rules? "init" = some rules
    ∧ (Json.arr [.str "e.wasm", .str "v1", .bool false, .null]).Obeys rules
    ∧ ¬ (Json.arr [.str "e.wasm", .str "v1", .null]).Obeys rules :=
  ⟨_, rfl, by decide, by decide⟩

end Message

end PhaseHost
