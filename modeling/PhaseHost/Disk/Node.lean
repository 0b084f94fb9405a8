import PhaseHost.Variant.Basic
import PhaseHost.Text.Utf8

/-! # What lies on a disk

    Files, directories, and files that hold the table of stored modules.  A
    table file is known by its rows; a file in which the table has not been
    made yet, or from which it was dropped, has none. -/

namespace PhaseHost

/-- A stored module: its key, the version and build it was stored for, its
    bytes, and the digest the bytes had when they were stored. -/
structure Row where
  key : String
  version : String
  kind : String
  bytes : Bytes
  digest : String
  deriving DecidableEq, Repr

/-- One thing on a disk. -/
inductive Node where
  | directory
  | file (content : Bytes)
  | database (rows : Option (List Row))
  deriving DecidableEq, Repr

/-- What stands for the bytes of a database file; they are those of no module. -/
def databaseMark : Bytes :=
  Utf8.encode "table of modules"

/-- The bytes of a thing that has some. -/
def Node.content? : Node → Option Bytes
  | .directory => none
  | .file content => some content
  | .database _ => some databaseMark

/-- The stored modules of a thing that can be opened as a database: an empty
    file is one, without a table. -/
def Node.database? : Node → Option (Option (List Row))
  | .directory => none
  | .file [] => some none
  | .file (_ :: _) => none
  | .database rows => some rows

end PhaseHost
