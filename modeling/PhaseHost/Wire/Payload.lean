import PhaseHost.Json.Record
import PhaseHost.Readiness
import PhaseHost.Wire.Overlay

/-! # Payloads and results

    What the actions of the wire carry, and what some of them answer with.
    Every type has a `record`, from which its two written forms follow. -/

namespace PhaseHost

/-- A text that must be there. -/
def Field.text (name : String) : Field String :=
  .required name Json.toText Json.str

/-- A list of texts, empty in its absence. -/
def Field.texts (name : String) : Field (List String) :=
  .defaulted name (Json.toList Json.toText) (fun xs => .arr (xs.map Json.str)) []

/-- What to load: the module's location and version, and how to come by the reader. -/
structure InitPayload where
  wasmPath : String
  version : String
  isReader : Bool
  readerPath : Option String
  deriving DecidableEq, Repr, Inhabited

namespace InitPayload

/-- The fields on the wire. -/
def record : Record [String, String, Bool, Option String] :=
  .cons (.text "wasmPath") <| .cons (.text "version") <|
  .cons (.defaulted "isReader" Json.toBool Json.bool false) <|
  .cons (.optional "readerPath" Json.toText Json.str) .nil

/-- The values of the fields. -/
def values (p : InitPayload) : Values [String, String, Bool, Option String] :=
  (p.wasmPath, p.version, p.isReader, p.readerPath, ())

/-- The payload with given field values. -/
def ofValues : Values [String, String, Bool, Option String] → InitPayload
  | (wasmPath, version, isReader, readerPath, ()) => ⟨wasmPath, version, isReader, readerPath⟩

/-- Read a payload. -/
def ofJson (v : Json) : Decoded InitPayload :=
  (record.decode "InitPayload" v).map ofValues

/-- Write a payload. -/
def toJson (p : InitPayload) : Json :=
  record.encode p.values

end InitPayload

/-- How far a successful `init` got. -/
structure InitOutcome where
  capability : Readiness
  isFullEngine : Bool
  deriving DecidableEq, Repr, Inhabited

namespace InitOutcome

/-- The fields on the wire. -/
def record : Record [Readiness, Bool] :=
  .cons (.required "capability" Readiness.ofJson Readiness.toJson) <|
  .cons (.required "isFullEngine" Json.toBool Json.bool) .nil

/-- The values of the fields. -/
def values (o : InitOutcome) : Values [Readiness, Bool] :=
  (o.capability, o.isFullEngine, ())

/-- The outcome with given field values. -/
def ofValues : Values [Readiness, Bool] → InitOutcome
  | (capability, isFullEngine, ()) => ⟨capability, isFullEngine⟩

/-- Read an outcome. -/
def ofJson (v : Json) : Decoded InitOutcome :=
  (record.decode "InitOutcome" v).map ofValues

/-- Write an outcome. -/
def toJson (o : InitOutcome) : Json :=
  record.encode o.values

/-- The outcome of an `init` that leaves the host in a state. -/
def ofReadiness (r : Readiness) : InitOutcome :=
  ⟨r, r = .full⟩

end InitOutcome

/-- Files to evaluate together. -/
structure UnifyPayload where
  overlay : Overlay
  entryPoints : List String
  tags : List String
  deriving DecidableEq, Repr, Inhabited

namespace UnifyPayload

/-- The fields on the wire. -/
def record : Record [Overlay, List String, List String] :=
  .cons (.required "overlay" Overlay.ofJson Overlay.toJson) <|
  .cons (.texts "entryPoints") <| .cons (.texts "tags") .nil

/-- The values of the fields. -/
def values (p : UnifyPayload) : Values [Overlay, List String, List String] :=
  (p.overlay, p.entryPoints, p.tags, ())

/-- The payload with given field values. -/
def ofValues : Values [Overlay, List String, List String] → UnifyPayload
  | (overlay, entryPoints, tags, ()) => ⟨overlay, entryPoints, tags⟩

/-- Read a payload. -/
def ofJson (v : Json) : Decoded UnifyPayload :=
  (record.decode "UnifyPayload" v).map ofValues

/-- Write a payload. -/
def toJson (p : UnifyPayload) : Json :=
  record.encode p.values

end UnifyPayload

/-- Data to check against a schema. -/
structure ValidatePayload where
  schema : String
  data : String
  deriving DecidableEq, Repr, Inhabited

namespace ValidatePayload

/-- The fields on the wire. -/
def record : Record [String, String] :=
  .cons (.text "schema") <| .cons (.text "data") .nil

/-- The values of the fields. -/
def values (p : ValidatePayload) : Values [String, String] :=
  (p.schema, p.data, ())

/-- The payload with given field values. -/
def ofValues : Values [String, String] → ValidatePayload
  | (schema, data, ()) => ⟨schema, data⟩

/-- Read a payload. -/
def ofJson (v : Json) : Decoded ValidatePayload :=
  (record.decode "ValidatePayload" v).map ofValues

/-- Write a payload. -/
def toJson (p : ValidatePayload) : Json :=
  record.encode p.values

end ValidatePayload

/-- A piece of code. -/
structure CodePayload where
  code : String
  deriving DecidableEq, Repr, Inhabited

namespace CodePayload

/-- The fields on the wire. -/
def record : Record [String] :=
  .cons (.text "code") .nil

/-- The values of the fields. -/
def values (p : CodePayload) : Values [String] :=
  (p.code, ())

/-- The payload with given field values. -/
def ofValues : Values [String] → CodePayload
  | (code, ()) => ⟨code⟩

/-- Read a payload. -/
def ofJson (v : Json) : Decoded CodePayload :=
  (record.decode "CodePayload" v).map ofValues

/-- Write a payload. -/
def toJson (p : CodePayload) : Json :=
  record.encode p.values

end CodePayload

/-- The formats an evaluation can be exported to. -/
inductive ExportFormat where
  | json
  | yaml
  | cue
  deriving DecidableEq, Repr, Inhabited

namespace ExportFormat

/-- The name of a format. -/
def name : ExportFormat → String
  | .json => "json"
  | .yaml => "yaml"
  | .cue => "cue"

/-- The formats with their names. -/
def choices : List (String × ExportFormat) :=
  [("json", .json), ("yaml", .yaml), ("cue", .cue)]

/-- A format from its name. -/
def ofJson : Json → Decoded ExportFormat :=
  Json.toChoice choices

/-- The name as a value. -/
def toJson (f : ExportFormat) : Json :=
  .str f.name

end ExportFormat

/-- Code to export and the format to export it to. -/
structure ExportPayload where
  code : String
  format : ExportFormat
  deriving DecidableEq, Repr, Inhabited

namespace ExportPayload

/-- The fields on the wire. -/
def record : Record [String, ExportFormat] :=
  .cons (.text "code") <|
  .cons (.required "format" ExportFormat.ofJson ExportFormat.toJson) .nil

/-- The values of the fields. -/
def values (p : ExportPayload) : Values [String, ExportFormat] :=
  (p.code, p.format, ())

/-- The payload with given field values. -/
def ofValues : Values [String, ExportFormat] → ExportPayload
  | (code, format, ()) => ⟨code, format⟩

/-- Read a payload. -/
def ofJson (v : Json) : Decoded ExportPayload :=
  (record.decode "ExportPayload" v).map ofValues

/-- Write a payload. -/
def toJson (p : ExportPayload) : Json :=
  record.encode p.values

end ExportPayload

/-- One entry of a list of symbols. -/
structure Symbol where
  name : String
  kind : String
  line : UInt32
  column : UInt32
  deriving DecidableEq, Repr, Inhabited

namespace Symbol

/-- The fields on the wire. -/
def record : Record [String, String, UInt32, UInt32] :=
  .cons (.text "name") <| .cons (.text "type") <|
  .cons (.required "line" Json.toUInt32 Json.ofUInt32) <|
  .cons (.required "column" Json.toUInt32 Json.ofUInt32) .nil

/-- The values of the fields. -/
def values (s : Symbol) : Values [String, String, UInt32, UInt32] :=
  (s.name, s.kind, s.line, s.column, ())

/-- The symbol with given field values. -/
def ofValues : Values [String, String, UInt32, UInt32] → Symbol
  | (name, kind, line, column, ()) => ⟨name, kind, line, column⟩

/-- Read a symbol. -/
def ofJson (v : Json) : Decoded Symbol :=
  (record.decode "Symbol" v).map ofValues

/-- Write a symbol. -/
def toJson (s : Symbol) : Json :=
  record.encode s.values

/-- Read a list of symbols. -/
def listOfJson (v : Json) : Decoded (List Symbol) :=
  Json.toList ofJson v

/-- Write a list of symbols. -/
def listToJson (symbols : List Symbol) : Json :=
  .arr (symbols.map toJson)

end Symbol
end PhaseHost
