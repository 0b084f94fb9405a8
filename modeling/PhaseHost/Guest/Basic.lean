import PhaseHost.Capability
import PhaseHost.Guest.Log
import PhaseHost.Json.Printer
import PhaseHost.Json.Reader

/-! # Guests

    A guest is a module shut off from its host: a memory, a function that hands
    out room in it, and functions under names.  All that passes between a guest
    and its host are numbers of thirty-two or sixty-four bits, which the host
    takes as unsigned and trusts in nothing.

    For a call the host asks for room, writes the arguments there as the text of
    an array, runs the function, and reads the document whose place the function
    returns.  The document is an object with either `ok` or `err`.

    What the engine that runs a guest has to say about a fault is not part of
    this model; a star stands for it. -/

namespace PhaseHost

/-- The state of a guest: its memory, what its code keeps besides, and what it has logged. -/
structure GuestState (γ : Type) where
  memory : Memory
  own : γ
  log : List LogLine

/-- Log a range of the memory; a range that leaves it is passed over in silence. -/
def GuestState.logRange {γ : Type} (key : CacheKey) (level address length : UInt32)
    (s : GuestState γ) : GuestState γ :=
  match s.memory.logText? address length with
  | some text => { s with log := s.log ++ [⟨.ofNumber level, key, text⟩] }
  | none => s

/-- A run of guest code: a value, or nothing if it is trapped, and the state afterwards. -/
abbrev Running (γ α : Type) := GuestState γ → Option α × GuestState γ

/-- What a module exports, as far as its host calls it. -/
structure Guest (γ : Type) where
  key : CacheKey
  /-- Find room for a number of bytes. -/
  alloc : UInt32 → Running γ UInt32
  /-- The function under a name, over the address and length of its arguments. -/
  function? : String → Option (UInt32 → UInt32 → Running γ UInt64)

/-- What stands for words that are not the host's own. -/
def foreignWords : String := "*"

/-- The longest text of arguments. -/
def argumentsMax : Nat := 0x7FFFFFFF

/-- A string as it is, any other value as its text. -/
def Json.plain : Json → String
  | .str s => s
  | v => v.render

namespace Guest

/-- The address in a packed result: its upper half. -/
def addressOf (packed : UInt64) : Nat :=
  packed.toNat / 0x100000000

/-- The length in a packed result: its lower half. -/
def lengthOf (packed : UInt64) : Nat :=
  packed.toNat % 0x100000000

/-- What a function's document says. -/
def documentResult (name : String) (raw : Bytes) : Except String Json :=
  match Json.parse raw with
  | .error fault => .error (name ++ ": decode result: " ++ fault.message raw)
  | .ok (.obj fields) =>
    match Fields.find? "err" fields, Fields.find? "ok" fields with
    | some err, _ => .error err.plain
    | none, some v => .ok v
    | none, none => .error (name ++ ": result has neither ok nor err")
  | .ok _ => .error (name ++ ": result is not an object")

/-- What a function returned, given where its document lies. -/
def result (name : String) (packed : UInt64) (m : Memory) : Except String Json :=
  match m.read (addressOf packed) (lengthOf packed) with
  | none => .error (name ++ ": result out of bounds")
  | some raw => documentResult name raw

variable {γ : Type}

/-- Call a function with arguments. -/
def call (G : Guest γ) (name : String) (arguments : Json) (s : GuestState γ) :
    Except String Json × GuestState γ :=
  match G.function? name with
  | none => (.error ("module does not export " ++ name), s)
  | some run =>
    let input := Utf8.encode arguments.render
    if argumentsMax < input.length then (.error (name ++ ": arguments too large"), s)
    else
      let length := UInt32.ofNat input.length
      match G.alloc length s with
      | (none, s) => (.error (name ++ ": cue_alloc: " ++ foreignWords), s)
      | (some address, s) =>
        match s.memory.write address.toNat input with
        | none => (.error (name ++ ": write arguments: out of bounds memory access"), s)
        | some memory =>
          match run address length { s with memory := memory } with
          | (none, s) => (.error (name ++ ": trapped: " ++ foreignWords), s)
          | (some packed, s) => (result name packed s.memory, s)

end Guest

/-- A guest and its state. -/
structure Instance (γ : Type) where
  guest : Guest γ
  state : GuestState γ

namespace Instance

variable {γ : Type}

/-- Call a function of an instance and read its result. -/
def calling {α : Type} (name : String) (arguments : Json) (read : Json → Except String α) :
    Calling (Instance γ) α := fun i =>
  let (result, state) := i.guest.call name arguments i.state
  let outcome : CallOutcome α := match result.bind read with
    | .ok value => .answered value
    | .error text => .failed text
  (outcome, { i with state := state })

/-- A result as a text. -/
def textOf (v : Json) : Except String String :=
  .ok v.plain

/-- A result as a truth value. -/
def truthOf : Json → Except String Bool
  | .bool b => .ok b
  | v => .error ("cue_validate returned " ++ v.render)

/-- A list of texts as a value. -/
def textsJson (xs : List String) : Json :=
  .arr (xs.map Json.str)

/-- The arguments of a call that takes code only. -/
def codeArguments (p : CodePayload) : Json :=
  .arr [.str p.code]

/-- The runtime of guests, given how modules are brought to life. -/
def runtime (instantiate : Variant → Bytes → Except LoadError (Instance γ)) :
    Runtime (Instance γ) where
  instantiate := instantiate
  unify p := calling "cue_unify"
    (.arr [p.overlay.toJson, textsJson p.entryPoints, textsJson p.tags]) textOf
  validate p := calling "cue_validate" (.arr [.str p.schema, .str p.data]) truthOf
  format p := calling "cue_format" (codeArguments p) textOf
  parse p := calling "cue_parse" (codeArguments p) textOf
  getSymbols p := calling "cue_get_symbols" (codeArguments p) textOf
  exportAs p := calling "cue_export" (.arr [.str p.code, p.format.toJson]) textOf

end Instance
end PhaseHost
