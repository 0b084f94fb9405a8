import PhaseHost.Json.Reader
import PhaseHost.Json.Record

/-! # Diagnostics

    Engine errors are texts; some of them are JSON documents that say where the
    error lies.  `Diagnostic.ofText` reads those and takes every other text as
    a bare message, so nothing an engine says is lost.

    A document counts only if it is read in full: the keys it uses may not be
    repeated, and a value of the wrong kind spoils it.  Keys it does not use are
    passed over. -/

namespace PhaseHost

/-- An error message, possibly with its place. -/
structure Diagnostic where
  message : String
  line : Option UInt32
  column : Option UInt32
  file : Option String
  deriving DecidableEq, Repr, Inhabited

namespace Diagnostic

/-- The fields on the wire. -/
def record : Record [String, Option UInt32, Option UInt32, Option String] :=
  .cons (.required "message" Json.toText Json.str) <|
  .cons (.optional "line" Json.toUInt32 Json.ofUInt32) <|
  .cons (.optional "column" Json.toUInt32 Json.ofUInt32) <|
  .cons (.optional "file" Json.toText Json.str) .nil

/-- The values of the fields. -/
def values (d : Diagnostic) : Values [String, Option UInt32, Option UInt32, Option String] :=
  (d.message, d.line, d.column, d.file, ())

/-- The diagnostic with given field values. -/
def ofValues : Values [String, Option UInt32, Option UInt32, Option String] → Diagnostic
  | (message, line, column, file, ()) => ⟨message, line, column, file⟩

/-- Read a diagnostic. -/
def ofJson (v : Json) : Decoded Diagnostic :=
  (record.decode "StructuredError" v).map ofValues

/-- Write a diagnostic. -/
def toJson (d : Diagnostic) : Json :=
  record.encode d.values

/-- A diagnostic that is only a message. -/
def bare (message : String) : Diagnostic :=
  ⟨message, none, none, none⟩

/-- The value of a document as far as a diagnostic is concerned: an array, or
    the fields with a known key of an object without repetition. -/
def document? (input : Bytes) : Option Json :=
  match Json.wantedFields (fun key => key ∈ record.names) input with
  | some fields => if (fields.map Prod.fst).Nodup then some (.ofPairs fields) else none
  | none =>
    match Json.parse input with
    | .ok (.arr items) => some (.arr items)
    | _ => none

/-- The diagnostic a text is a document of. -/
def ofText? (raw : String) : Option Diagnostic :=
  match document? (Utf8.encode raw) with
  | some v => (ofJson v).toOption
  | none => none

/-- The diagnostic of an engine's error text. -/
def ofText (raw : String) : Diagnostic :=
  (ofText? raw).getD (bare raw)

end Diagnostic
end PhaseHost
