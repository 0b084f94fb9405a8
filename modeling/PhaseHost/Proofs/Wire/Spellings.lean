import PhaseHost.Proofs.Json.Spellings
import PhaseHost.Proofs.Wire.ReadBack
import PhaseHost.Wire.Diagnostic

/-! # Spellings on the wire

    Every type of the wire is spelled by a record, so what is to be seen of each type is
    that its fields keep its values.  One of them does not keep all: a result of `null`
    reads as no result.  Of replies only those without it are read back as they were. -/

namespace PhaseHost

open Record (SpelledBy spelledBy_of_keeps)

/-- A text is kept in its field. -/
theorem Field.text_keeps (name s : String) : (text name).Keeps s :=
  required_keeps rfl

/-- A list of texts is kept in its field. -/
theorem Field.texts_keeps (name : String) (xs : List String) : (texts name).Keeps xs :=
  defaulted_keeps (texts_reads name xs)

/-- An optional text is kept in its field. -/
theorem Field.optional_text_keeps (name : String) (x : Option String) :
    (optional name Json.toText Json.str).Keeps x :=
  optional_keeps (fun _ _ => ⟨nofun, rfl⟩)

/-- An optional number is kept in its field. -/
theorem Field.optional_number_keeps (name : String) (x : Option UInt32) :
    (optional name Json.toUInt32 Json.ofUInt32).Keeps x :=
  optional_keeps (fun n _ => ⟨nofun, Json.toUInt32_ofUInt32 n⟩)

/-- A reply whose result, if there is one, is not `null`. -/
def Reply.Telling (r : Reply) : Prop :=
  r.result ≠ some .null

/-- A result that is not `null` is kept in its field. -/
theorem Field.result_keeps {r : Reply} (h : r.Telling) :
    (optional "result" Except.ok (fun v => v)).Keeps r.result :=
  optional_keeps (fun _ hv => ⟨fun hnull => h (hnull ▸ hv), rfl⟩)

/-- What spells an `init`. -/
theorem InitPayload.spelledBy :
    record.SpelledBy values (fun _ => True) ofJson toJson :=
  spelledBy_of_keeps ofValues "InitPayload" (by decide) (fun _ => rfl) (fun p _ =>
    ⟨Field.text_keeps _ p.wasmPath, Field.text_keeps _ p.version, Field.defaulted_keeps rfl,
      Field.optional_text_keeps _ p.readerPath, trivial⟩)

/-- What spells the files to evaluate. -/
theorem UnifyPayload.spelledBy :
    record.SpelledBy values (fun _ => True) ofJson toJson :=
  spelledBy_of_keeps ofValues "UnifyPayload" (by decide) (fun _ => rfl) (fun p _ =>
    ⟨Field.required_keeps p.overlay.ofJson_toJson, Field.texts_keeps _ p.entryPoints,
      Field.texts_keeps _ p.tags, trivial⟩)

/-- What spells a schema with its data. -/
theorem ValidatePayload.spelledBy :
    record.SpelledBy values (fun _ => True) ofJson toJson :=
  spelledBy_of_keeps ofValues "ValidatePayload" (by decide) (fun _ => rfl) (fun p _ =>
    ⟨Field.text_keeps _ p.schema, Field.text_keeps _ p.data, trivial⟩)

/-- What spells a piece of code. -/
theorem CodePayload.spelledBy :
    record.SpelledBy values (fun _ => True) ofJson toJson :=
  spelledBy_of_keeps ofValues "CodePayload" (by decide) (fun _ => rfl) (fun p _ =>
    ⟨Field.text_keeps _ p.code, trivial⟩)

/-- What spells code to export. -/
theorem ExportPayload.spelledBy :
    record.SpelledBy values (fun _ => True) ofJson toJson :=
  spelledBy_of_keeps ofValues "ExportPayload" (by decide) (fun _ => rfl) (fun p _ =>
    ⟨Field.text_keeps _ p.code, Field.required_keeps p.format.ofJson_toJson, trivial⟩)

/-- What spells the outcome of an `init`. -/
theorem InitOutcome.spelledBy :
    record.SpelledBy values (fun _ => True) ofJson toJson :=
  spelledBy_of_keeps ofValues "InitOutcome" (by decide) (fun _ => rfl) (fun o _ =>
    ⟨Field.required_keeps o.capability.ofJson_toJson, Field.required_keeps rfl, trivial⟩)

/-- What spells a reply whose result, if any, is not `null`. -/
theorem Reply.spelledBy : record.SpelledBy values Telling ofJson toJson :=
  spelledBy_of_keeps ofValues "Reply" (by decide) (fun _ => rfl) (fun r hr =>
    ⟨Field.required_keeps (Json.toUInt64_ofNat r.id), Field.required_keeps rfl,
      Field.result_keeps hr, Field.optional_text_keeps _ r.error,
      Field.optional_text_keeps _ r.code, trivial⟩)

/-- What spells a symbol. -/
theorem Symbol.spelledBy :
    record.SpelledBy values (fun _ => True) ofJson toJson :=
  spelledBy_of_keeps ofValues "Symbol" (by decide) (fun _ => rfl) (fun x _ =>
    ⟨Field.text_keeps _ x.name, Field.text_keeps _ x.kind,
      Field.required_keeps (Json.toUInt32_ofUInt32 x.line),
      Field.required_keeps (Json.toUInt32_ofUInt32 x.column), trivial⟩)

/-- What spells a diagnostic. -/
theorem Diagnostic.spelledBy :
    record.SpelledBy values (fun _ => True) ofJson toJson :=
  spelledBy_of_keeps ofValues "StructuredError" (by decide) (fun _ => rfl) (fun d _ =>
    ⟨Field.required_keeps rfl, Field.optional_number_keeps _ d.line,
      Field.optional_number_keeps _ d.column, Field.optional_text_keeps _ d.file, trivial⟩)

/-- **EVERY SPELLING OF A WIRE TYPE IS READ BACK** as the value that it spells: of payloads,
    outcomes, replies, diagnostics and symbols, whatever texts, numbers, lists and files they
    carry.  Spellings are

    * the object that is written, and every object that adds keys of its own to it;
    * the array of what the fields write, in the declared order, with `null` for an optional
      field that writes nothing;
    * that array without any number of items at its end whose fields hold their defaults.

    An array with too few items for the fields that are required or with more items than there
    are fields is refused, and so is an object that lacks a field which is required.  Different
    values are written differently.  Of replies this holds for those whose result is not a
    `null` that is there. -/
theorem wire_types_read_back :
    InitPayload.record.SpelledBy InitPayload.values (fun _ => True)
      InitPayload.ofJson InitPayload.toJson ∧
    UnifyPayload.record.SpelledBy UnifyPayload.values (fun _ => True)
      UnifyPayload.ofJson UnifyPayload.toJson ∧
    ValidatePayload.record.SpelledBy ValidatePayload.values (fun _ => True)
      ValidatePayload.ofJson ValidatePayload.toJson ∧
    CodePayload.record.SpelledBy CodePayload.values (fun _ => True)
      CodePayload.ofJson CodePayload.toJson ∧
    ExportPayload.record.SpelledBy ExportPayload.values (fun _ => True)
      ExportPayload.ofJson ExportPayload.toJson ∧
    InitOutcome.record.SpelledBy InitOutcome.values (fun _ => True)
      InitOutcome.ofJson InitOutcome.toJson ∧
    Reply.record.SpelledBy Reply.values Reply.Telling Reply.ofJson Reply.toJson ∧
    Symbol.record.SpelledBy Symbol.values (fun _ => True) Symbol.ofJson Symbol.toJson ∧
    Diagnostic.record.SpelledBy Diagnostic.values (fun _ => True)
      Diagnostic.ofJson Diagnostic.toJson :=
  ⟨InitPayload.spelledBy, UnifyPayload.spelledBy, ValidatePayload.spelledBy,
    CodePayload.spelledBy, ExportPayload.spelledBy, InitOutcome.spelledBy, Reply.spelledBy,
    Symbol.spelledBy, Diagnostic.spelledBy⟩

/-- The fields that must be there, type by type. -/
example : [InitPayload.record.required, UnifyPayload.record.required,
      ValidatePayload.record.required, CodePayload.record.required, ExportPayload.record.required,
      InitOutcome.record.required, Reply.record.required, Symbol.record.required,
      Diagnostic.record.required]
    = [["wasmPath", "version"], ["overlay"], ["schema", "data"], ["code"], ["code", "format"],
      ["capability", "isFullEngine"], ["id", "success"], ["name", "type", "line", "column"],
      ["message"]] := rfl

end PhaseHost
