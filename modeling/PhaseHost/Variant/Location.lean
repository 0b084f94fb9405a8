import PhaseHost.Text.Blank
import PhaseHost.Wire.Payload

/-! # Where the variants of a module lie

    A request for a module names the location of the engine.  The location of
    the reader is either given or derived by putting `.reader` in front of the
    extension, so that two engines never share a derived reader. -/

namespace PhaseHost

/-- The ending of a module's location. -/
def moduleEnding : String := ".wasm"

/-- The mark that tells a reader's location from its engine's. -/
def readerMark : String := ".reader"

/-- The derived location of a reader: the mark goes before the ending, or to
    the end of a location without one. -/
def readerLocation (engine : String) : String :=
  match Text.beforeEnd? moduleEnding engine with
  | some stem => stem ++ readerMark ++ moduleEnding
  | none => engine ++ readerMark

/-- Where the variants come from; no engine means a session that only reads. -/
structure ModuleSources where
  reader : String
  engine : Option String
  deriving DecidableEq, Repr

/-- The locations a request asks for. -/
def InitPayload.sources (p : InitPayload) : ModuleSources :=
  if p.isReader then ⟨p.wasmPath, none⟩
  else ⟨p.readerPath.getD (readerLocation p.wasmPath), some p.wasmPath⟩

end PhaseHost
