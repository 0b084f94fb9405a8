import PhaseHost.Disk.Node
import PhaseHost.Json.Printer
import PhaseHost.Json.Reader
import PhaseHost.Text.Hex

/-! # The table as a document

    The rows of a table as JSON text, one array for each row, bytes in base
    sixteen. -/

namespace PhaseHost.Row

/-- A row as a value. -/
def toJson (r : Row) : Json :=
  .arr [.str r.key, .str r.version, .str r.kind, .str r.bytes.hex, .str r.digest]

/-- The row that a value is. -/
def ofJson? : Json → Option Row
  | .arr [.str key, .str version, .str kind, .str bytes, .str digest] =>
    (Bytes.ofHex? bytes).map (fun bytes => ⟨key, version, kind, bytes, digest⟩)
  | _ => none

/-- The document of a table. -/
def document (rows : List Row) : Bytes :=
  Utf8.encode (Json.arr (rows.map toJson)).render

/-- The rows of a document, if it is one. -/
def ofDocument? (bytes : Bytes) : Option (List Row) :=
  match Json.parse bytes with
  | .ok (.arr rows) => rows.mapM ofJson?
  | _ => none

end PhaseHost.Row
