import PhaseHost.Digest.Sha256
import PhaseHost.Disk.Basic
import PhaseHost.Store.Basic

/-! # The store in a file

    The rows of a table in a database file, under the same rule as the store in
    memory: one version at a time.  Every operation opens the file anew and
    makes directories, file and table if they are missing, so another store
    over the same path sees the same rows.

    A row counts only if its bytes still have the digest they were stored with.
    A file that cannot be opened is a store that forgets everything. -/

namespace PhaseHost

namespace Row

/-- A letter of the basic alphabet in lower case; every other character as it is. -/
def lower (s : String) : String :=
  s.map Char.toLower

/-- Whether the bytes have the digest, up to the case of its letters. -/
def isIntact (r : Row) : Bool :=
  lower r.digest = lower (Sha256.hexDigest r.bytes)

/-- The row of freshly stored bytes. -/
def ofBytes (v : Variant) (bytes : Bytes) : Row :=
  ⟨v.key.text, v.version, v.kind.name, bytes, Sha256.hexDigest bytes⟩

/-- The bytes under a key, if they are intact. -/
def get? (key : CacheKey) (rows : List Row) : Option Bytes :=
  match rows.find? (fun r => r.key = key.text) with
  | some r => if r.isIntact then some r.bytes else none
  | none => none

/-- Store bytes: rows of other versions go, and so does the row of the same key. -/
def put (v : Variant) (bytes : Bytes) (rows : List Row) : List Row :=
  let kept := rows.filter (fun r => r.version = v.version)
  ofBytes v bytes :: kept.filter (fun r => r.key ≠ v.key.text)

end Row

/-- Where a table lies: a path and the directory it starts in. -/
structure Table where
  current : Place
  path : Path
  deriving DecidableEq, Repr

namespace Table

/-- The place of the file, with the directories on the way made; the path must end
    in the name of a file. -/
def place (t : Table) (d : Disk) : Disk × Option Place :=
  let (origin, steps) := Disk.start t.current t.path
  match steps.getLast?, d.makeDirs origin steps.dropLast with
  | some name, (d, some dir) => if Path.isName name then (d, some (dir ++ [name])) else (d, none)
  | _, (d, _) => (d, none)

/-- Open the table: its rows and their place, if there is a usable file or room for one. -/
def enter (t : Table) (d : Disk) : Disk × Option (Place × List Row) :=
  match t.place d with
  | (d, none) => (d, none)
  | (d, some place) =>
    match d.find? place with
    | none => (d.set place (.database (some [])), some (place, []))
    | some node =>
      match node.database? with
      | none => (d, none)
      | some rows => (d.set place (.database (some (rows.getD []))), some (place, rows.getD []))

/-- Look a key up. -/
def get (t : Table) (key : CacheKey) (d : Disk) : Option Bytes × Disk :=
  match t.enter d with
  | (d, none) => (none, d)
  | (d, some (_, rows)) => (Row.get? key rows, d)

/-- Store bytes for a variant. -/
def put (t : Table) (v : Variant) (bytes : Bytes) (d : Disk) : Disk :=
  match t.enter d with
  | (d, none) => d
  | (d, some (place, rows)) => d.set place (.database (some (Row.put v bytes rows)))

/-- The store in a file, as a store over disks. -/
def store (t : Table) : Store Disk where
  get := t.get
  put := t.put

/-! ## Looking and editing from outside -/

/-- What an onlooker sees of a table. -/
inductive View where
  /-- There is no file. -/
  | missing
  /-- The file is no database or has no table. -/
  | unreadable
  | rows (rows : List Row)
  deriving DecidableEq, Repr

/-- What lies at the path of a table, if anything. -/
def node? (t : Table) (d : Disk) : Option Node :=
  (d.look t.current t.path).toOption

/-- Look at a table without touching it. -/
def view (t : Table) (d : Disk) : View :=
  match t.node? d with
  | none => .missing
  | some .directory => .missing
  | some node =>
    match node.database? with
    | some (some rows) => .rows rows
    | _ => .unreadable

/-- Change the table from outside: `edit` gives the number of changed rows and
    what is left of the table.  Without a table nothing changes, except that an
    absent file comes into being, empty. -/
def edit (t : Table) (edit : List Row → Nat × Option (List Row)) (d : Disk) : Option Nat × Disk :=
  match d.resolve t.current t.path with
  | .error _ => (none, d)
  | .ok place =>
    match d.find? place with
    | none =>
      if d.find? place.dropLast = some .directory then (none, d.set place (.file [])) else (none, d)
    | some node =>
      match node.database? with
      | some (some rows) =>
        let (count, left) := edit rows
        (some count, d.set place (.database left))
      | _ => (none, d)

/-- Change the row of a key. -/
def editRow (t : Table) (key : CacheKey) (change : Row → Row) (d : Disk) : Option Nat × Disk :=
  t.edit (fun rows =>
    ((rows.filter (fun r => r.key = key.text)).length,
      some (rows.map (fun r => if r.key = key.text then change r else r)))) d

/-- Drop the table. -/
def drop (t : Table) (d : Disk) : Option Nat × Disk :=
  t.edit (fun _ => (0, none)) d

end Table
end PhaseHost
