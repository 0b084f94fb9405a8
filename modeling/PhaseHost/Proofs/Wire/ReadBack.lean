import PhaseHost.Client.Answer
import PhaseHost.Proofs.Json.Records

/-! # Messages and replies read back

    The host reads back the request that a client writes, whatever the action and
    its payload.  The client reads back the reply that a host writes up to one
    thing: a result of `null` is read as no result.  The outcome is the same, as an
    absent result stands for `null`. -/

namespace PhaseHost

namespace Json

/-- A natural number of some bits is read back. -/
theorem toNatural_ofNat {bits n : Nat} (h : n < Nat.pow 2 bits) :
    toNatural bits (ofNat n) = .ok n := by
  show (if n < Nat.pow 2 bits then _ else _) = _
  rw [if_pos h]

/-- A number of sixty-four bits is read back. -/
theorem toUInt64_ofNat (n : UInt64) : toUInt64 (ofNat n.toNat) = .ok n := by
  show (toNatural 64 _).map _ = _
  rw [toNatural_ofNat n.toNat_lt]
  exact congrArg Except.ok UInt64.ofNat_toNat

/-- A number of thirty-two bits is read back. -/
theorem toUInt32_ofUInt32 (n : UInt32) : toUInt32 (ofUInt32 n) = .ok n := by
  show (toNatural 32 (ofNat n.toNat)).map _ = _
  rw [toNatural_ofNat n.toNat_lt]
  exact congrArg Except.ok UInt32.ofNat_toNat

/-- Lists are read back if their items are. -/
theorem decodeItems_map {α : Type} {decode : Json → Decoded α} (encode : α → Json)
    (h : ∀ x, decode (encode x) = .ok x) (xs : List α) :
    decodeItems decode (xs.map encode) = .ok xs := by
  induction xs with
  | nil => rfl
  | cons x rest ih =>
      simp only [List.map_cons, decodeItems]
      rw [h, ih]
      rfl

/-- Tables are read back if their values are. -/
theorem decodeFields_map {α : Type} {decode : Json → Decoded α} (encode : α → Json)
    (h : ∀ x, decode (encode x) = .ok x) (fields : List (String × α)) :
    decodeFields decode (fields.map (fun p => (p.1, encode p.2))) = .ok fields := by
  induction fields with
  | nil => rfl
  | cons p rest ih =>
      simp only [List.map_cons, decodeFields]
      rw [h, ih]
      rfl

end Json

/-! ## Payloads -/

/-- Overlays are read back. -/
theorem Overlay.ofJson_toJson (o : Overlay) : ofJson o.toJson = .ok o := by
  have hfields : Json.toTable Json.toText o.toJson = .ok o.files :=
    Json.decodeFields_map Json.str (fun _ => rfl) o.files
  simp only [ofJson]
  rw [hfields]
  exact congrArg Except.ok (ofList_files o)

theorem Readiness.ofJson_toJson (r : Readiness) : ofJson r.toJson = .ok r := by
  cases r <;> rfl

theorem ExportFormat.ofJson_toJson (f : ExportFormat) : ofJson f.toJson = .ok f := by
  cases f <;> rfl

/-- A list of texts is read back. -/
theorem Field.texts_reads (name : String) (xs : List String) : (texts name).Reads xs xs :=
  Json.decodeItems_map Json.str (fun _ => rfl) xs

/-- An optional text is read back, and so is its absence. -/
theorem Field.optional_text_reads (name : String) (x : Option String) :
    (optional name Json.toText Json.str).Reads x x := by
  cases x <;> exact rfl

/-- What is made of the values of a record is read back with the values. -/
theorem Record.map_decode_encode {αs : List Type} {α : Type} (r : Record αs) {xs xs' : Values αs}
    (name : String) (ofValues : Values αs → α) (hnames : r.names.Nodup)
    (hreads : r.Reads xs xs') :
    (r.decode name (r.encode xs)).map ofValues = .ok (ofValues xs') := by
  rw [r.decode_encode name hnames hreads]
  rfl

/-- A payload is read back with its reader or without one. -/
theorem InitPayload.ofJson_toJson (p : InitPayload) : ofJson p.toJson = .ok p := by
  have hreads : record.Reads p.values p.values :=
    ⟨rfl, rfl, rfl, Field.optional_text_reads _ p.readerPath, trivial⟩
  exact record.map_decode_encode _ ofValues (by decide) hreads

/-- A payload is read back with its files. -/
theorem UnifyPayload.ofJson_toJson (p : UnifyPayload) : ofJson p.toJson = .ok p := by
  have hreads : record.Reads p.values p.values :=
    ⟨p.overlay.ofJson_toJson, Field.texts_reads _ p.entryPoints, Field.texts_reads _ p.tags,
      trivial⟩
  exact record.map_decode_encode _ ofValues (by decide) hreads

/-- Schema and data are read back. -/
theorem ValidatePayload.ofJson_toJson (p : ValidatePayload) : ofJson p.toJson = .ok p := by
  have hreads : record.Reads p.values p.values := ⟨rfl, rfl, trivial⟩
  exact record.map_decode_encode _ ofValues (by decide) hreads

/-- Code is read back. -/
theorem CodePayload.ofJson_toJson (p : CodePayload) : ofJson p.toJson = .ok p := by
  have hreads : record.Reads p.values p.values := ⟨rfl, trivial⟩
  exact record.map_decode_encode _ ofValues (by decide) hreads

/-- Code is read back with its format. -/
theorem ExportPayload.ofJson_toJson (p : ExportPayload) : ofJson p.toJson = .ok p := by
  have hreads : record.Reads p.values p.values := ⟨rfl, p.format.ofJson_toJson, trivial⟩
  exact record.map_decode_encode _ ofValues (by decide) hreads

/-- Outcomes are read back. -/
theorem InitOutcome.ofJson_toJson (o : InitOutcome) : ofJson o.toJson = .ok o := by
  have hreads : record.Reads o.values o.values := ⟨o.capability.ofJson_toJson, rfl, trivial⟩
  exact record.map_decode_encode _ ofValues (by decide) hreads

/-- Symbols are read back. -/
theorem Symbol.ofJson_toJson (x : Symbol) : ofJson x.toJson = .ok x := by
  have hreads : record.Reads x.values x.values :=
    ⟨rfl, rfl, Json.toUInt32_ofUInt32 x.line, Json.toUInt32_ofUInt32 x.column, trivial⟩
  exact record.map_decode_encode _ ofValues (by decide) hreads

/-- A list of symbols is read back. -/
theorem Symbol.listOfJson_listToJson (symbols : List Symbol) :
    listOfJson (listToJson symbols) = .ok symbols :=
  Json.decodeItems_map toJson ofJson_toJson symbols

/-! ## Messages -/

/-- The name and the payload of an action give the action. -/
theorem Action.ofPayload_payload (a : Action) : ofPayload a.name a.payload = .ok a := by
  cases a with
  | init p =>
      show (payloadFor "init" (InitPayload.ofJson p.toJson)).map Action.init = _
      rw [p.ofJson_toJson]
      rfl
  | unify p =>
      show (payloadFor "unify" (UnifyPayload.ofJson p.toJson)).map Action.unify = _
      rw [p.ofJson_toJson]
      rfl
  | validate p =>
      show (payloadFor "validate" (ValidatePayload.ofJson p.toJson)).map Action.validate = _
      rw [p.ofJson_toJson]
      rfl
  | format p =>
      show (payloadFor "format" (CodePayload.ofJson p.toJson)).map Action.format = _
      rw [p.ofJson_toJson]
      rfl
  | parse p =>
      show (payloadFor "parse" (CodePayload.ofJson p.toJson)).map Action.parse = _
      rw [p.ofJson_toJson]
      rfl
  | getSymbols p =>
      show (payloadFor "getSymbols" (CodePayload.ofJson p.toJson)).map Action.getSymbols = _
      rw [p.ofJson_toJson]
      rfl
  | exportAs p =>
      show (payloadFor "export" (ExportPayload.ofJson p.toJson)).map Action.exportAs = _
      rw [p.ofJson_toJson]
      rfl

/-- The fields of the frame of a request. -/
def Message.fields (m : Message) : List (String × Json) :=
  [("id", .ofNat m.id.toNat), ("action", .str m.action.name), ("payload", m.action.payload)]

/-- The fields of a message are found as they were listed. -/
theorem Message.find?_fields (m : Message) (key : String) :
    Fields.find? key (Fields.ofList m.fields) = Fields.find? key m.fields := by
  refine Fields.find?_ofList ?_
  show ["id", "action", "payload"].Nodup
  decide

/-- The number of a message is read off its frame. -/
theorem Message.idOf_toFrame (m : Message) : idOf m.toFrame = some m.id := by
  show (Fields.find? "id" (Fields.ofList m.fields)).bind Json.natural? = _
  rw [m.find?_fields]
  show (if m.id.toNat < 0x10000000000000000 then some (UInt64.ofNat m.id.toNat) else none) = _
  rw [if_pos m.id.toNat_lt, UInt64.ofNat_toNat]

/-- **REQUESTS ARE READ BACK**: the frame of a request is accepted as the request. -/
theorem Message.ofFrame_toFrame (m : Message) : ofFrame m.toFrame = .ok m := by
  have hid := m.idOf_toFrame
  have haction : actionOf (Fields.ofList m.fields) = .ok m.action := by
    simp only [actionOf]
    rw [m.find?_fields, m.find?_fields]
    exact m.action.ofPayload_payload
  have hframe : m.toFrame = .obj (Fields.ofList m.fields) := rfl
  rw [hframe] at hid ⊢
  simp only [ofFrame]
  rw [hid]
  dsimp only
  rw [haction]

/-! ## Replies -/

/-- What is left of a reply that was written and read. -/
def Reply.heard (r : Reply) : Reply :=
  { r with result := r.result.filter (fun v => v ≠ .null) }

/-- A reply is read back as it is heard, which is without a `null` for its result. -/
theorem Reply.ofJson_toJson (r : Reply) : ofJson r.toJson = .ok r.heard := by
  have hresult : (Field.optional "result" Except.ok (fun v => v)).Reads r.result
      r.heard.result := by
    cases hr : r.result with
    | none =>
        simp only [heard, hr]
        exact rfl
    | some v =>
        simp only [heard, hr]
        cases v <;> exact rfl
  have hreads : record.Reads r.values r.heard.values :=
    ⟨Json.toUInt64_ofNat r.id, rfl, hresult, Field.optional_text_reads _ r.error,
      Field.optional_text_reads _ r.code, trivial⟩
  exact record.map_decode_encode _ ofValues (by decide) hreads

/-- **REPLIES ARE READ BACK** to the same outcome. -/
theorem Reply.outcome_heard (r : Reply) : r.heard.outcome = r.outcome := by
  have hresult : Json.orNull r.heard.result = Json.orNull r.result := by
    cases hr : r.result with
    | none =>
        simp only [heard, hr]
        rfl
    | some v =>
        simp only [heard, hr]
        cases v <;> rfl
  simp only [outcome]
  rw [hresult]
  rfl

end PhaseHost
