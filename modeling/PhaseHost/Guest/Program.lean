import PhaseHost.Guest.Basic
import PhaseHost.Guest.Image

/-! # Running images

    What an image does when it is brought to life and called.

    Bringing it to life takes the steps of any module in their order: what it
    asks of the host, its memory, its start function, the exports that the host
    needs, and the entry point, which must register.  The first step that fails
    is the one reported; lines logged before that are kept. -/

namespace PhaseHost

/-- What the code of an image keeps besides its memory. -/
structure ImageState where
  /-- The room that is handed out next. -/
  next : UInt32
  /-- How often each function was called. -/
  counts : Fields Nat
  /-- The entry point has registered. -/
  registered : Bool
  deriving DecidableEq, Repr

/-- What a guest may use. -/
structure GuestLimits where
  fuel : Nat
  memoryBytes : Nat
  deriving DecidableEq, Repr

namespace Image

/-- Log a range, if the memory is exported. -/
def logTo (image : Image) (key : CacheKey) (c : LogCall) (s : GuestState ImageState) :
    GuestState ImageState :=
  if image.showsMemory then s.logRange key c.level c.address c.length else s

/-- Hand out room behind all room handed out before. -/
def bump (length : UInt32) (s : GuestState ImageState) : UInt32 × GuestState ImageState :=
  (s.own.next, { s with own := { s.own with next := s.own.next + length } })

/-- Hand out room. -/
def allocate (image : Image) (length : UInt32) : Running ImageState UInt32 := fun s =>
  match image.alloc with
  | .bump => ((some (bump length s).1), (bump length s).2)
  | .fixed address => (some address, s)
  | _ => (none, s)

/-- An address and a length in one number. -/
def pack (address length : Nat) : UInt64 :=
  UInt64.ofNat (address % 0x100000000 * 0x100000000 + length % 0x100000000)

/-- Copy the arguments into a result document. -/
def echo (address length : UInt32) : Running ImageState UInt64 := fun s =>
  let total := length + 7
  let (room, s) := bump total s
  let start := room.toNat
  let document := do
    let head ← s.memory.read headAddress head.length
    let arguments ← s.memory.read address.toNat length.toNat
    s.memory.write start (head ++ (arguments ++ [0x7D]))
  match document with
  | some memory => (some (pack start total.toNat), { s with memory := memory })
  | none => (none, s)

/-- The range of the document for the `n`-th call, counted from zero. -/
def documentFor (ranges : List (Nat × Nat)) (n : Nat) : Option (Nat × Nat) :=
  match ranges[n]? with
  | some range => some range
  | none => ranges.getLast?

/-- Run a function. -/
def respond (image : Image) (key : CacheKey) (name : String) (f : ImageFunction)
    (address length : UInt32) : Running ImageState UInt64 := fun s =>
  let s := match f.log with
    | some c => image.logTo key c s
    | none => s
  match f.response with
  | .documents ranges =>
    let n := (Fields.find? name s.own.counts).getD 0
    let s := { s with own := { s.own with counts := Fields.insert name (n + 1) s.own.counts } }
    ((documentFor ranges n).map (fun r => pack r.1 r.2), s)
  | .echo => echo address length s
  | .range address length => (some (pack address.toNat length.toNat), s)
  | _ => (none, s)

/-- The guest of an image. -/
def guest (image : Image) (key : CacheKey) : Guest ImageState where
  key := key
  alloc := image.allocate
  function? name :=
    match Fields.find? name image.functions with
    | some ⟨_, .uncallable⟩ => none
    | some f => some (image.respond key name f)
    | none => none

/-- What an action at an entry point does. -/
def act (image : Image) (key : CacheKey) (action : EntryAction) :
    Running ImageState Unit := fun s =>
  let registered := { s with own := { s.own with registered := true } }
  match action with
  | .nothing => (some (), s)
  | .register => (some (), registered)
  | .registerAndTrap => (none, registered)
  | .log => (some (), image.logTo key ⟨2, 600, 5⟩ s)
  | .trap => (none, s)
  | .uncallable => (none, s)

/-- Ask for the pages that entry points ask for. -/
def growAtEntry (image : Image) (limit : Nat) : Running ImageState Unit := fun s =>
  match s.memory.grow image.grow limit with
  | some memory => (some (), { s with memory := memory })
  | none => (none, s)

/-- Run an entry point. -/
def enter (image : Image) (key : CacheKey) (limits : GuestLimits) (action : EntryAction) :
    Running ImageState Unit := fun s =>
  if limits.fuel = 0 then (none, s)
  else
    match image.growAtEntry limits.memoryBytes (image.logs.foldl (fun s c => image.logTo key c s) s)
      with
    | (some (), s) => image.act key action s
    | (none, s) => (none, s)

/-- Run the start function, if there is one. -/
def runStart (image : Image) (key : CacheKey) (limits : GuestLimits) : Running ImageState Unit :=
  fun s =>
    match image.start with
    | none => (some (), s)
    | some action => if limits.fuel = 0 then (none, s) else image.act key action s

/-- Whether the host has the function that is asked of it. -/
def isServed (image : Image) : Bool :=
  match image.wants with
  | none => true
  | some wanted => wanted = ("cue_host", "register")

/-- The names of entry points, in the order in which they are tried. -/
def entryNames : List String := ["_initialize", "_start"]

/-- The first entry point that can be called. -/
def entry? (image : Image) : Option EntryAction :=
  entryNames.findSome? (fun name =>
    match Fields.find? name image.entries with
    | some .uncallable => none
    | found => found)

/-- The memory of an image before its code runs. -/
def memoryOf (image : Image) (limit : Nat) : Option Memory :=
  let size := image.pages * Memory.pageSize
  if limit < size ∨ Memory.sizeMax < size then none
  else image.data.foldlM (fun m s => m.write s.start s.bytes) (Memory.zeros size)

/-- The state of an image before its code runs. -/
def initialState (memory : Memory) : GuestState ImageState :=
  ⟨memory, ⟨roomAddress, [], false⟩, []⟩

/-- Run the entry point and see that it registers. -/
def register (image : Image) (key : CacheKey) (limits : GuestLimits)
    (s : GuestState ImageState) : Except String (Instance ImageState) × List LogLine :=
  if ¬ image.showsMemory then (.error "module does not export memory", s.log)
  else if image.alloc = .absent then (.error ("cue_alloc: " ++ foreignWords), s.log)
  else
    match image.entry? with
    | none => (.error "module exports no _initialize or _start", s.log)
    | some action =>
      match image.enter key limits action s with
      | (none, s) => (.error ("entry point trapped: " ++ foreignWords), s.log)
      | (some (), s) =>
        if s.own.registered then (.ok ⟨image.guest key, s⟩, s.log)
        else (.error "entry point did not register a capability", s.log)

/-- Bring an image to life. -/
def awaken (image : Image) (key : CacheKey) (limits : GuestLimits) :
    Except String (Instance ImageState) × List LogLine :=
  if ¬ image.isServed then (.error foreignWords, [])
  else
    match image.memoryOf limits.memoryBytes with
    | none => (.error foreignWords, [])
    | some memory =>
      match image.runStart key limits (initialState memory) with
      | (none, s) => (.error foreignWords, s.log)
      | (some (), s) => image.register key limits s

/-- Bring module bytes to life, with the lines logged on the way. -/
def instantiate (limits : GuestLimits) (v : Variant) (bytes : Bytes) :
    Except LoadError (Instance ImageState) × List LogLine :=
  match ofBytes? bytes with
  | none => (.error (.compile v.key foreignWords), [])
  | some image =>
    match image.awaken v.key limits with
    | (.ok i, log) => (.ok i, log)
    | (.error reason, log) => (.error (.instantiate v.key reason), log)

/-- The runtime of images. -/
def runtime (limits : GuestLimits) : Runtime (Instance ImageState) :=
  Instance.runtime (fun v bytes => (instantiate limits v bytes).1)

end Image
end PhaseHost
