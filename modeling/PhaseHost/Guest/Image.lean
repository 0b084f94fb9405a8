import PhaseHost.Guest.Memory
import PhaseHost.Json.Printer
import PhaseHost.Json.Reader
import PhaseHost.Text.Hex

/-! # Module images

    An image is a small guest program that was put together from a description:
    what lies in its memory, how it hands out room, what it does at its entry
    points, and how each of its functions responds.

    The bytes of an image are a mark and the text of its description.  Besides
    these, two byte sequences are modules: those of a module with nothing in it. -/

namespace PhaseHost

/-- How an image hands out room for a number of bytes. -/
inductive AllocRule where
  /-- Behind all room handed out before. -/
  | bump
  | fixed (address : UInt32)
  | trap
  /-- There is no function of the right type. -/
  | absent
  deriving DecidableEq, Repr

/-- What code does at an entry point. -/
inductive EntryAction where
  | nothing
  | register
  | registerAndTrap
  | log
  | trap
  /-- It has not the type of an entry point. -/
  | uncallable
  deriving DecidableEq, Repr

/-- A request to log: level, address and length. -/
structure LogCall where
  level : UInt32
  address : UInt32
  length : UInt32
  deriving DecidableEq, Repr

/-- How a function responds. -/
inductive Response where
  /-- With documents in turn, given as ranges; the last one repeats. -/
  | documents (ranges : List (Nat × Nat))
  /-- With its arguments as the result. -/
  | echo
  /-- With a range. -/
  | range (address length : UInt32)
  | trap
  /-- It has not the type of a function for calls. -/
  | uncallable
  deriving DecidableEq, Repr

/-- A function of an image: what it logs first, and how it responds. -/
structure ImageFunction where
  log : Option LogCall
  response : Response
  deriving DecidableEq, Repr

/-- A guest program. -/
structure Image where
  pages : Nat
  /-- The memory is exported under its name. -/
  showsMemory : Bool
  data : List Segment
  alloc : AllocRule
  entries : Fields EntryAction
  start : Option EntryAction
  /-- What every entry point logs. -/
  logs : List LogCall
  /-- How many pages every entry point asks for. -/
  grow : Nat
  /-- One more function that is asked of the host. -/
  wants : Option (String × String)
  functions : Fields ImageFunction
  deriving DecidableEq, Repr

namespace Image

/-- The address of the text that an echo starts with. -/
def headAddress : Nat := 600

/-- The text that an echo starts with. -/
def head : Bytes := Utf8.encode "\x7b\"ok\":"

/-- The address of the first document. -/
def documentsAddress : Nat := 1024

/-- The address of the first room that is handed out. -/
def roomAddress : UInt32 := 131072

/-- Bytes from a description: a text, or an object with hexadecimal digits. -/
def bodyOf : Json → Bytes
  | .str s => Utf8.encode s
  | v =>
    match v.get? "hex" with
    | some (.str s) => (Bytes.ofHex? s).getD []
    | _ => []

/-- A number of thirty-two bits; negative ones count from the top. -/
def wordOf : Json → UInt32
  | .int i => UInt32.ofNat (i % 0x100000000).toNat
  | _ => 0

/-- A natural number, or a default. -/
def naturalOf (default : Nat) : Option Json → Nat
  | some (.int (.ofNat n)) => n
  | _ => default

/-- A request to log. -/
def logCallOf : Json → LogCall
  | .arr [level, address, length] => ⟨wordOf level, wordOf address, wordOf length⟩
  | _ => ⟨0, 0, 0⟩

/-- How room is handed out. -/
def allocOf : Option Json → AllocRule
  | some (.str "missing") => .absent
  | some (.str "wrong_type") => .absent
  | some (.str "trap") => .trap
  | some (.str "loop") => .trap
  | some v =>
    match v.get? "const" with
    | some n => .fixed (wordOf n)
    | none => .bump
  | none => .bump

/-- What an entry point does. -/
def actionOf : Json → EntryAction
  | .str "register" => .register
  | .str "twice" => .register
  | .str "noop" => .nothing
  | .str "log" => .log
  | .str "register_trap" => .registerAndTrap
  | .str "wrong_type" => .uncallable
  | _ => .trap

/-- Lay documents one behind the other: their ranges, and what they fill. -/
def layOut (address : Nat) : List Bytes → List (Nat × Nat) × List Segment
  | [] => ([], [])
  | doc :: rest =>
    let (ranges, segments) := layOut (address + doc.length) rest
    ((address, doc.length) :: ranges, ⟨address, doc⟩ :: segments)

/-- The documents that a function responds with. -/
def documentsOf (v : Json) : List Bytes :=
  match v.get? "doc", v.get? "seq" with
  | some doc, _ => [bodyOf doc]
  | none, some (.arr docs) => docs.map bodyOf
  | _, _ => []

/-- How a function responds, given where its documents lie. -/
def responseOf (v : Json) (ranges : List (Nat × Nat)) : Response :=
  if (v.get? "wrong_type").isSome then .uncallable
  else if (v.get? "echo").isSome then .echo
  else
    match v.get? "packed" with
    | some (.arr [address, length]) => .range (wordOf address) (wordOf length)
    | _ => if ranges.isEmpty then .trap else .documents ranges

/-- Put functions together, with their documents from an address on. -/
def functionsOf (address : Nat) :
    List (String × Json) → Fields ImageFunction × List Segment
  | [] => ([], [])
  | (name, v) :: rest =>
    let docs := documentsOf v
    let (ranges, segments) := layOut address docs
    let (functions, further) := functionsOf (address + (docs.map List.length).sum) rest
    ((name, ⟨(v.get? "log").map logCallOf, responseOf v ranges⟩) :: functions,
      segments ++ further)

/-- Further bytes of the memory. -/
def segmentOf : Json → Segment
  | .arr [address, body] => ⟨naturalOf 0 (some address), bodyOf body⟩
  | _ => ⟨0, []⟩

/-- The items of an array, if it is one. -/
def itemsOf : Option Json → List Json
  | some (.arr items) => items
  | _ => []

/-- The fields of an object, if it is one. -/
def fieldsOf : Option Json → List (String × Json)
  | some (.obj fields) => fields
  | _ => []

/-- The entry points; a program that names none registers at the first one. -/
def entriesOf : Option Json → Fields EntryAction
  | some (.obj fields) => fields.map (fun (name, v) => (name, actionOf v))
  | _ => [("_initialize", .register)]

/-- The function that is asked of the host besides the usual ones. -/
def wantsOf : Option Json → Option (String × String)
  | some (.arr [.str space, .str name]) => some (space, name)
  | _ => none

/-- Put an image together from its description. -/
def ofJson (v : Json) : Image :=
  let (functions, documents) := functionsOf documentsAddress (fieldsOf (v.get? "exports"))
  { pages := naturalOf 4 (v.get? "pages")
    showsMemory := v.get? "memory" ≠ some (.bool false)
    data := ⟨headAddress, head⟩ :: (documents ++ (itemsOf (v.get? "data")).map segmentOf)
    alloc := allocOf (v.get? "alloc")
    entries := entriesOf (v.get? "entry")
    start := (v.get? "start").map actionOf
    logs := (itemsOf (v.get? "logs")).map logCallOf
    grow := naturalOf 0 (v.get? "grow")
    wants := wantsOf (v.get? "import")
    functions := functions }

/-- A module with nothing in it. -/
def hollow : Image where
  pages := 0
  showsMemory := false
  data := []
  alloc := .absent
  entries := []
  start := none
  logs := []
  grow := 0
  wants := none
  functions := []

/-- The two forms of a module with nothing in it. -/
def hollowForms : List Bytes :=
  [Utf8.encode "(module)", [0x00, 0x61, 0x73, 0x6D, 0x01, 0x00, 0x00, 0x00]]

/-- The bytes that an image starts with. -/
def mark : Bytes := 0x00 :: Utf8.encode "asm guest "

/-- The bytes of a described image. -/
def bytesOf (description : Json) : Bytes :=
  mark ++ Utf8.encode description.render

/-- The image that bytes are, if they are one. -/
def ofBytes? (bytes : Bytes) : Option Image :=
  if bytes ∈ hollowForms then some hollow
  else if mark.isPrefixOf bytes then
    match Json.parse (bytes.drop mark.length) with
    | .ok v => some (ofJson v)
    | .error _ => none
  else none

end Image
end PhaseHost
