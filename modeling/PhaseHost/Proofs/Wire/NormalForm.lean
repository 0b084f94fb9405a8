import PhaseHost.Proofs.Json.Acceptance
import PhaseHost.Proofs.Wire.ReadBack

/-! # The normal form of a frame

    Many frames ask for the same thing.  A payload may be an object or an array,
    fields with a fallback may be absent, and keys that nobody asked for may be
    present.  Writing what was understood gives one of them, the NORMAL FORM,
    and that is understood as the same.

    Which frames are understood alike is a matter of the fields of payloads
    (`Action.fieldNames`), by what records accept. -/

namespace PhaseHost

/-! ## Payloads -/

namespace Action

/-- The names of the fields that the payload of an action has. -/
def fieldNames : String → List String
  | "init" => InitPayload.record.names
  | "unify" => UnifyPayload.record.names
  | "validate" => ValidatePayload.record.names
  | "format" => CodePayload.record.names
  | "parse" => CodePayload.record.names
  | "getSymbols" => CodePayload.record.names
  | "export" => ExportPayload.record.names
  | _ => []

/-- A payload is accepted exactly if its record is. -/
theorem payloadFor_eq_ok_iff {αs : List Type} {β : Type} {r : Record αs} {name called : String}
    {ofValues : Values αs → β} {make : β → Action} {v : Json} {a : Action} :
    (payloadFor name ((r.decode called v).map ofValues)).map make = .ok a ↔
      ∃ xs, r.decode called v = .ok xs ∧ make (ofValues xs) = a := by
  cases r.decode called v with
  | error e =>
      refine ⟨nofun, ?_⟩
      rintro ⟨xs, h, -⟩
      exact nomatch h
  | ok xs =>
      show Except.ok (make (ofValues xs)) = Except.ok a ↔ _
      rw [Except.ok.injEq]
      constructor
      · exact fun h => ⟨xs, rfl, h⟩
      · rintro ⟨xs', h, hmake⟩
        cases h
        exact hmake

/-- The names of all actions. -/
def names : List String :=
  ["init", "unify", "validate", "format", "parse", "getSymbols", "export"]

/-- Payloads under a name are READ AS the values of a record, of which an action is made. -/
inductive ReadAs :
    String → {αs : List Type} → Record αs → String → (Values αs → Action) → Prop
  | init : ReadAs "init" InitPayload.record "InitPayload" (fun xs => .init (.ofValues xs))
  | unify : ReadAs "unify" UnifyPayload.record "UnifyPayload" (fun xs => .unify (.ofValues xs))
  | validate :
      ReadAs "validate" ValidatePayload.record "ValidatePayload"
        (fun xs => .validate (.ofValues xs))
  | format : ReadAs "format" CodePayload.record "CodePayload" (fun xs => .format (.ofValues xs))
  | parse : ReadAs "parse" CodePayload.record "CodePayload" (fun xs => .parse (.ofValues xs))
  | getSymbols :
      ReadAs "getSymbols" CodePayload.record "CodePayload" (fun xs => .getSymbols (.ofValues xs))
  | exportAs :
      ReadAs "export" ExportPayload.record "ExportPayload" (fun xs => .exportAs (.ofValues xs))

section ReadAs

variable {name called : String} {αs : List Type} {r : Record αs} {make : Values αs → Action}

/-- The record has the fields that the action knows. -/
theorem ReadAs.names_eq (h : ReadAs name r called make) : r.names = fieldNames name := by
  cases h <;> rfl

theorem ReadAs.nodup (h : ReadAs name r called make) : r.names.Nodup := by
  cases h <;> decide

/-- What is made of the record goes by the name that it was read under. -/
theorem ReadAs.name_make (h : ReadAs name r called make) (xs : Values αs) :
    (make xs).name = name := by
  cases h <;> rfl

/-- The payloads of an action are the documents of its record. -/
theorem ReadAs.ofPayload_iff (h : ReadAs name r called make) (v : Json) (a : Action) :
    ofPayload name v = .ok a ↔ ∃ xs, r.decode called v = .ok xs ∧ make xs = a := by
  cases h <;> exact payloadFor_eq_ok_iff

end ReadAs

/-- A name is that of no action, or its payloads are read as those of one record. -/
theorem readAs_of_name (name : String) :
    (name ∉ names ∧ ∀ v, ofPayload name v = .error (.unknownAction name)) ∨
    ∃ (αs : List Type) (r : Record αs) (called : String) (make : Values αs → Action),
      ReadAs name r called make := by
  by_cases hname : name ∈ names
  · refine Or.inr ?_
    simp only [names, List.mem_cons, List.not_mem_nil, or_false] at hname
    rcases hname with rfl | rfl | rfl | rfl | rfl | rfl | rfl
    · exact ⟨_, _, _, _, .init⟩
    · exact ⟨_, _, _, _, .unify⟩
    · exact ⟨_, _, _, _, .validate⟩
    · exact ⟨_, _, _, _, .format⟩
    · exact ⟨_, _, _, _, .parse⟩
    · exact ⟨_, _, _, _, .getSymbols⟩
    · exact ⟨_, _, _, _, .exportAs⟩
  · refine Or.inl ⟨hname, fun v => ?_⟩
    unfold ofPayload
    split <;> first | rfl | exact absurd (by decide) hname

/-- A name is that of no action, or its payloads are those of one record. -/
theorem record_of_name (name : String) :
    (∀ v, ofPayload name v = .error (.unknownAction name)) ∨
    ∃ (αs : List Type) (r : Record αs) (called : String) (make : Values αs → Action),
      r.names = fieldNames name ∧ r.names.Nodup ∧ (∀ xs, (make xs).name = name) ∧
      ∀ v a, ofPayload name v = .ok a ↔ ∃ xs, r.decode called v = .ok xs ∧ make xs = a := by
  rcases readAs_of_name name with ⟨-, hunknown⟩ | ⟨αs, r, called, make, hread⟩
  · exact Or.inl hunknown
  · exact Or.inr ⟨αs, r, called, make, hread.names_eq, hread.nodup, hread.name_make,
      hread.ofPayload_iff⟩

variable {name : String} {a : Action}

/-- An action goes by the name that its payload was read under. -/
theorem name_of_ofPayload {v : Json} (h : ofPayload name v = .ok a) : a.name = name := by
  rcases record_of_name name with hunknown | ⟨αs, r, called, make, -, -, hname, hread⟩
  · rw [hunknown v] at h
    exact nomatch h
  · obtain ⟨xs, -, rfl⟩ := (hread v a).mp h
    exact hname xs

/-- Payloads with the same under the names of the fields ask for the same. -/
theorem ofPayload_obj_congr {fields fields' : List (String × Json)}
    (hkeys : (fields.map Prod.fst).Nodup) (hkeys' : (fields'.map Prod.fst).Nodup)
    (h : ∀ key ∈ fieldNames name, Fields.find? key fields = Fields.find? key fields') :
    ofPayload name (.obj fields) = .ok a ↔ ofPayload name (.obj fields') = .ok a := by
  rcases record_of_name name with hunknown | ⟨αs, r, called, make, hnames, -, -, hread⟩
  · rw [hunknown, hunknown]
  · rw [hread, hread]
    refine exists_congr (fun xs => and_congr_left (fun _ => ?_))
    exact Record.decode_obj_congr hkeys hkeys' (hnames ▸ h)

/-- An array asks for the same as the object that names its items. -/
theorem ofPayload_arr_iff {items : List Json} :
    ofPayload name (.arr items) = .ok a ↔ items.length ≤ (fieldNames name).length
      ∧ ofPayload name (.ofPairs ((fieldNames name).zip items)) = .ok a := by
  rcases record_of_name name with hunknown | ⟨αs, r, called, make, hnames, hnodup, -, hread⟩
  · rw [hunknown, hunknown]
    exact ⟨nofun, fun h => nomatch h.2⟩
  · rw [hread, hread, ← hnames]
    simp only [Record.decode_arr_iff hnodup, and_assoc, exists_and_left]

/-- Every payload is a record with the fields that its action knows. -/
theorem payload_eq_encode (a : Action) : ∃ (αs : List Type) (r : Record αs) (xs : Values αs),
    a.payload = r.encode xs ∧ r.names = fieldNames a.name := by
  cases a <;> exact ⟨_, _, _, rfl, rfl⟩

end Action

/-! ## Frames -/

namespace Message

variable {m : Message} {fields : List (String × Json)}

/-- A frame in normal form has the three keys and nothing else, and its payload is
    an object of fields that its action knows; keys stand in order throughout. -/
def NormalFrame (frame : Json) : Prop :=
  ∃ (id : UInt64) (action : String) (payload : List (String × Json)),
    frame = .obj [("action", .str action), ("id", .ofNat id.toNat), ("payload", .obj payload)] ∧
    Fields.Ascending payload ∧ ∀ p ∈ payload, p.1 ∈ Action.fieldNames action

/-- Frames are written in normal form. -/
theorem toFrame_normal (m : Message) : NormalFrame m.toFrame := by
  obtain ⟨αs, r, xs, hpayload, hnames⟩ := m.action.payload_eq_encode
  refine ⟨m.id, m.action.name, Fields.ofList (r.pairs xs), ?_, Fields.ascending_ofList _, ?_⟩
  · have hid : "action" < "id" := by decide
    have haction : ¬ "payload" < "action" ∧ ¬ "action" = "payload" := by decide
    have hpayload' : ¬ "payload" < "id" ∧ ¬ "id" = "payload" := by decide
    simp only [toFrame, hpayload, Json.ofPairs, Record.encode, Fields.ofList, List.foldl_cons,
      List.foldl_nil, Fields.insert, if_pos hid, if_neg haction.1, if_neg haction.2,
      if_neg hpayload'.1, if_neg hpayload'.2]
  · intro p hp
    rw [← hnames]
    exact (Record.keys_sublist r xs).subset
      (List.mem_map_of_mem (Fields.mem_of_mem_ofList hp))

/-- What a frame asks for is a matter of three keys. -/
theorem ofFrame_eq_ok_iff : ofFrame (.obj fields) = .ok m ↔
    (Fields.find? "id" fields).bind Json.natural? = some m.id ∧
    Fields.find? "action" fields = some (.str m.action.name) ∧
    Action.ofPayload m.action.name ((Fields.find? "payload" fields).getD (.obj []))
      = .ok m.action := by
  have haction : actionOf fields = .ok m.action ↔
      Fields.find? "action" fields = some (.str m.action.name) ∧
      Action.ofPayload m.action.name ((Fields.find? "payload" fields).getD (.obj []))
        = .ok m.action := by
    simp only [actionOf]
    constructor
    · intro h
      split at h
      next name hname =>
        obtain rfl := Action.name_of_ofPayload h
        exact ⟨hname, h⟩
      next => cases h
    · rintro ⟨hname, h⟩
      rw [hname]
      exact h
  rw [← haction]
  simp only [ofFrame, idOf, Json.get?]
  cases (Fields.find? "id" fields).bind Json.natural? with
  | none =>
      constructor
      · intro h
        cases h
      · rintro ⟨h, -⟩
        cases h
  | some id =>
      cases actionOf fields with
      | error fault =>
          constructor
          · intro h
            cases h
          · rintro ⟨-, h⟩
            cases h
      | ok action =>
          dsimp only
          rw [Except.ok.injEq, Option.some.injEq, Except.ok.injEq]
          constructor
          · rintro rfl
            exact ⟨rfl, rfl⟩
          · rintro ⟨rfl, rfl⟩
            rfl

/-- Frames with the same under the three keys ask for the same. -/
theorem ofFrame_congr {fields' : List (String × Json)}
    (h : ∀ key ∈ ["id", "action", "payload"],
      Fields.find? key fields = Fields.find? key fields') :
    ofFrame (.obj fields) = .ok m ↔ ofFrame (.obj fields') = .ok m := by
  rw [ofFrame_eq_ok_iff, ofFrame_eq_ok_iff, h "id" (by decide), h "action" (by decide),
    h "payload" (by decide)]

/-- Another payload in its place asks for the same if it does for the action. -/
theorem ofFrame_payload_congr {payload payload' : Json}
    (hpayload : Fields.find? "payload" fields = some payload)
    (h : Action.ofPayload m.action.name payload = .ok m.action ↔
      Action.ofPayload m.action.name payload' = .ok m.action) :
    ofFrame (.obj fields) = .ok m ↔
      ofFrame (.obj (Fields.insert "payload" payload' fields)) = .ok m := by
  rw [ofFrame_eq_ok_iff, ofFrame_eq_ok_iff, Fields.find?_insert_self,
    Fields.find?_insert_of_ne (by decide), Fields.find?_insert_of_ne (by decide), hpayload]
  exact and_congr_right (fun _ => and_congr_right (fun _ => h))

/-- What is read as an id is that number. -/
theorem natural?_eq_some {v : Json} {id : UInt64} (h : v.natural? = some id) :
    v = .ofNat id.toNat := by
  cases v with
  | int i =>
      cases i with
      | ofNat n =>
          simp only [Json.natural?] at h
          split at h
          next hn =>
            cases h
            rw [UInt64.toNat_ofNat_of_lt' hn]
            rfl
          next => exact nomatch h
      | negSucc n => exact nomatch h
  | _ => exact nomatch h

/-- The normal form of a frame keeps its id and the name of its action. -/
theorem toFrame_keeps {f : Json} (h : ofFrame f = .ok m) :
    m.toFrame.get? "id" = f.get? "id" ∧ m.toFrame.get? "action" = f.get? "action" := by
  cases f with
  | obj fields =>
      obtain ⟨hid, haction, -⟩ := ofFrame_eq_ok_iff.mp h
      obtain ⟨v, hv, hnat⟩ := Option.bind_eq_some_iff.mp hid
      obtain rfl := natural?_eq_some hnat
      show Fields.find? "id" (Fields.ofList m.fields) = Fields.find? "id" fields
        ∧ Fields.find? "action" (Fields.ofList m.fields) = Fields.find? "action" fields
      rw [m.find?_fields, m.find?_fields, hv, haction]
      exact ⟨rfl, rfl⟩
  | _ => exact nomatch h

/-- **FRAMES HAVE A NORMAL FORM**.

    * Every request is written as a frame that is accepted as the request.
    * Whatever frame is accepted, writing the request gives a frame in normal form,
      with the id and the action of the given one, that is accepted as the same.
    * Keys other than the three do not matter to a frame.
    * A payload that is an array counts as the object that names its items.
    * Keys that name no field of the action do not matter to a payload. -/
theorem frames_have_normal_form :
    (∀ m : Message, ofFrame m.toFrame = .ok m) ∧
    (∀ (f : Json) (m : Message), ofFrame f = .ok m →
      NormalFrame m.toFrame ∧ ofFrame m.toFrame = .ok m ∧
      m.toFrame.get? "id" = f.get? "id" ∧ m.toFrame.get? "action" = f.get? "action") ∧
    (∀ (m : Message) (fields fields' : List (String × Json)),
      (∀ key ∈ ["id", "action", "payload"],
        Fields.find? key fields = Fields.find? key fields') →
      (ofFrame (.obj fields) = .ok m ↔ ofFrame (.obj fields') = .ok m)) ∧
    (∀ (m : Message) (fields : List (String × Json)) (items : List Json),
      Fields.find? "payload" fields = some (.arr items) →
      items.length ≤ (Action.fieldNames m.action.name).length →
      (ofFrame (.obj fields) = .ok m ↔
        ofFrame (.obj (Fields.insert "payload"
          (.ofPairs ((Action.fieldNames m.action.name).zip items)) fields)) = .ok m)) ∧
    (∀ (m : Message) (fields payload payload' : List (String × Json)),
      (payload.map Prod.fst).Nodup → (payload'.map Prod.fst).Nodup →
      Fields.find? "payload" fields = some (.obj payload) →
      (∀ key ∈ Action.fieldNames m.action.name,
        Fields.find? key payload = Fields.find? key payload') →
      (ofFrame (.obj fields) = .ok m ↔
        ofFrame (.obj (Fields.insert "payload" (.obj payload') fields)) = .ok m)) := by
  refine ⟨ofFrame_toFrame, ?_, ?_, ?_, ?_⟩
  · intro f m h
    exact ⟨m.toFrame_normal, m.ofFrame_toFrame, toFrame_keeps h⟩
  · intro m fields fields' h
    exact ofFrame_congr h
  · intro m fields items hpayload hlength
    refine ofFrame_payload_congr hpayload ?_
    rw [Action.ofPayload_arr_iff]
    exact and_iff_right hlength
  · intro m fields payload payload' hkeys hkeys' hpayload h
    exact ofFrame_payload_congr hpayload (Action.ofPayload_obj_congr hkeys hkeys' h)

/-- A frame with the greatest id, a key too many, and a payload by position from which
    the tags are left out. -/
def loose : Json :=
  .obj [("action", .str "unify"), ("id", .ofNat 18446744073709551615),
    ("payload", .arr [.obj [("a.cue", .str "x: 1")], .arr [.str "main"]]), ("trace", .null)]

def tight : Message :=
  ⟨18446744073709551615, .unify ⟨.ofList [("a.cue", "x: 1")], ["main"], []⟩⟩

theorem loose_has_normal_form :
    ofFrame loose = .ok tight ∧ NormalFrame tight.toFrame ∧ ofFrame tight.toFrame = .ok tight := by
  have hloose : ofFrame loose = .ok tight := rfl
  obtain ⟨-, hnormal, -⟩ := frames_have_normal_form
  exact ⟨hloose, (hnormal loose tight hloose).1, (hnormal loose tight hloose).2.1⟩

end Message
end PhaseHost
