import PhaseHost.Capability
import PhaseHost.Json.Reader
import PhaseHost.Store.Memory
import PhaseHost.Text.Blank
import PhaseHost.Wire.Reply

/-! # A stand-in for the compute module

    Code is a list of lines `label: value`.  The stand-in for a reader formats
    code and lists its labels, the one for an engine also evaluates: it merges
    the lines of all code into one object and objects to two different values
    of one label.  Two further stand-ins break down on every call.

    A stand-in never changes, so its calls are functions of their arguments. -/

namespace PhaseHost

/-- A stand-in for a module. -/
inductive StandIn where
  | lines (kind : VariantKind)
  /-- Breaks down on every call; `tells` says whether with a message. -/
  | breaking (tells : Bool)
  deriving DecidableEq, Repr

namespace StandIn

/-- One line of code. -/
structure Line where
  number : Nat
  label : String
  value : String
  deriving DecidableEq, Repr

/-- An error document with a message. -/
def errorText (message : String) : String :=
  "\x7b\"message\":\"" ++ message ++ "\"\x7d"

/-- The error of a line without a label. -/
def noLabelText (number : Nat) : String :=
  "\x7b\"message\":\"expected label\",\"line\":" ++ toString number ++ ",\"column\":1\x7d"

/-- Whether a line says nothing: it is blank or names the package. -/
def isSilent (line : String) : Bool :=
  line.isEmpty || (Text.afterStart? "package " line).isSome

/-- The lines of code from a number on. -/
def linesFrom (number : Nat) : List String → Except String (List Line)
  | [] => .ok []
  | raw :: rest =>
    let line := Text.trim raw
    if isSilent line then linesFrom (number + 1) rest
    else
      match Text.splitAtFirst? ':' line with
      | none => .error (noLabelText number)
      | some (label, value) => do
        let others ← linesFrom (number + 1) rest
        .ok (⟨number, Text.trim label, Text.trim value⟩ :: others)

/-- The lines of code. -/
def linesOf (code : String) : Except String (List Line) :=
  linesFrom 1 (Text.lines code)

/-- The value a line gives: a document if it is one, else the text itself. -/
def Line.json (line : Line) : Json :=
  match Json.parseText line.value with
  | .ok v => v
  | .error _ => .str line.value

mutual
/-- A value without signs on its zeros. -/
def unsignedZeros : Json → Json
  | .float bits => .float (if bits = 0x8000000000000000 then 0 else bits)
  | .arr items => .arr (unsignedZeroItems items)
  | .obj fields => .obj (unsignedZeroFields fields)
  | v => v
  termination_by structural v => v
/-- Items without signs on their zeros. -/
def unsignedZeroItems : List Json → List Json
  | [] => []
  | v :: rest => unsignedZeros v :: unsignedZeroItems rest
  termination_by structural v => v
/-- Fields without signs on their zeros. -/
def unsignedZeroFields : List (String × Json) → List (String × Json)
  | [] => []
  | (k, v) :: rest => (k, unsignedZeros v) :: unsignedZeroFields rest
  termination_by structural v => v
end

/-- Merge lines into an object; the sign of a zero makes no difference. -/
def mergeLines (fields : List (String × Json)) :
    List Line → Except String (List (String × Json))
  | [] => .ok fields
  | line :: rest =>
    match Fields.find? line.label fields with
    | some old =>
      if unsignedZeros old = unsignedZeros line.json then
        mergeLines (Fields.insert line.label line.json fields) rest
      else .error (errorText (line.label ++ ": conflicting values"))
    | none => mergeLines (Fields.insert line.label line.json fields) rest

/-- Merge code into an object. -/
def merge (fields : List (String × Json)) (code : String) :
    Except String (List (String × Json)) := do
  mergeLines fields (← linesOf code)

/-- Merge several pieces of code. -/
def mergeAll (codes : List String) : Except String (List (String × Json)) :=
  codes.foldlM merge []

/-- Refuse what needs an engine. -/
def requireEngine (kind : VariantKind) (what : String) : Except String Unit :=
  if kind = .engine then .ok () else .error (errorText (what ++ " requires the Full Engine"))

/-- The end of a call that cannot break down. -/
def outcome {α : Type} : Except String α → CallOutcome α
  | .ok value => .answered value
  | .error text => .failed text

/-- Code with one blank behind each colon. -/
def tidy (code : String) : Except String String := do
  let lines ← linesOf code
  .ok (String.join (lines.map (fun line => line.label ++ ": " ++ line.value ++ "\n")))

/-- Format code; one word makes the stand-in break down. -/
def formatCode (code : String) : CallOutcome String :=
  if Text.occursIn "@panic".toList code.toList then .brokeDown (some "guest exploded")
  else outcome (tidy code)

/-- The files that evaluation starts from: the named ones, or all. -/
def startingFiles (p : UnifyPayload) : List String :=
  (p.overlay.files.filter (fun f => p.entryPoints.isEmpty || f.1 ∈ p.entryPoints)).map Prod.snd

/-- The text of a merged object. -/
def mergedText (merged : Except String (List (String × Json))) : Except String String :=
  merged.map (fun fields => (Json.obj fields).render)

/-- The labels of code as a list of symbols. -/
def symbolsText (code : String) : Except String String := do
  let lines ← linesOf code
  .ok (Json.arr (lines.map (fun line => .ofPairs [("name", .str line.label),
    ("type", .str "field"), ("line", .ofNat line.number), ("column", .ofNat 1)]))).render

/-- The end of a call of a stand-in that breaks down. -/
def broken {α : Type} (tells : Bool) (method : String) : CallOutcome α :=
  .brokeDown (if tells then some ("guest failed in " ++ method) else none)

/-- A call of a stand-in, which stays what it is. -/
def calling {α : Type} (method : String) (f : VariantKind → CallOutcome α) : Calling StandIn α
  | .lines kind => (f kind, .lines kind)
  | .breaking tells => (broken tells method, .breaking tells)

/-- Export code: formatting needs no engine, evaluation does. -/
def exportCode (p : ExportPayload) (kind : VariantKind) : CallOutcome String :=
  match p.format with
  | .cue => formatCode p.code
  | _ => outcome do
    requireEngine kind "Evaluation exports"
    mergedText (merge [] p.code)

/-- The stand-in that a body stands for. -/
def ofBody? (bytes : Bytes) : Option StandIn :=
  if bytes = Utf8.encode "reader" then some (.lines .reader)
  else if bytes = Utf8.encode "engine" then some (.lines .engine)
  else if bytes = Utf8.encode "panic-string" then some (.breaking true)
  else if bytes = Utf8.encode "panic-any" then some (.breaking false)
  else none

/-- Bring a body to life: a bad one is no module, an unknown one does nothing. -/
def instantiate (v : Variant) (bytes : Bytes) : Except LoadError StandIn :=
  if (Utf8.encode "bad").isPrefixOf bytes then
    .error (.compile v.key "magic header not detected")
  else
    match ofBody? bytes with
    | some c => .ok c
    | none => .error (.instantiate v.key "entry point did not register a capability")

/-- The runtime of stand-ins. -/
def runtime : Runtime StandIn where
  instantiate := instantiate
  unify p := calling "unify" (fun kind => outcome do
    requireEngine kind "Evaluation (Unify)"
    mergedText (mergeAll (startingFiles p)))
  validate p := calling "validate" (fun kind => outcome do
    requireEngine kind "Validation"
    let _ ← mergeAll [p.schema, p.data]
    .ok true)
  format p := calling "format" (fun _ => formatCode p.code)
  parse p := calling "parse" (fun _ => formatCode p.code)
  getSymbols p := calling "getSymbols" (fun _ => outcome (symbolsText p.code))
  exportAs p := calling "export" (exportCode p)

/-- Stand-ins over a store in memory. -/
def backend : Backend MemoryStore StandIn :=
  ⟨MemoryStore.store, runtime⟩

/-- The name of the kind of a stand-in. -/
def name : StandIn → String
  | .lines kind => kind.name
  | .breaking _ => "panicking"

end StandIn
end PhaseHost
