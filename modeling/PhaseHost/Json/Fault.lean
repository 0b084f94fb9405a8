import PhaseHost.Text.Utf8

/-! # Faults of JSON text

    What can be wrong with a text, and where.  A reader works on what is left
    of the input, so a fault first says how much was left when it was noticed;
    line and column follow from the whole input. -/

namespace PhaseHost.Json

/-- What is wrong with a text. -/
inductive FaultKind where
  | endInList
  | endInObject
  | endInString
  | endInValue
  | noColon
  | noListCommaOrEnd
  | noObjectCommaOrEnd
  | badWord
  | noValue
  | badEscape
  | badNumber
  | numberOutOfRange
  | badCodePoint
  | controlCharacter
  | keyNotString
  | loneSurrogate
  | endInHexEscape
  | trailingComma
  | trailingCharacters
  | tooDeep
  deriving DecidableEq, Repr

/-- The wording of a fault. -/
def FaultKind.message : FaultKind → String
  | .endInList => "EOF while parsing a list"
  | .endInObject => "EOF while parsing an object"
  | .endInString => "EOF while parsing a string"
  | .endInValue => "EOF while parsing a value"
  | .noColon => "expected `:`"
  | .noListCommaOrEnd => "expected `,` or `]`"
  | .noObjectCommaOrEnd => "expected `,` or `\x7d`"
  | .badWord => "expected ident"
  | .noValue => "expected value"
  | .badEscape => "invalid escape"
  | .badNumber => "invalid number"
  | .numberOutOfRange => "number out of range"
  | .badCodePoint => "invalid unicode code point"
  | .controlCharacter => "control character (\\u0000-\\u001F) found while parsing a string"
  | .keyNotString => "key must be a string"
  | .loneSurrogate => "lone leading surrogate in hex escape"
  | .endInHexEscape => "unexpected end of hex escape"
  | .trailingComma => "trailing comma"
  | .trailingCharacters => "trailing characters"
  | .tooDeep => "recursion limit exceeded"

/-- A fault noticed with that many bytes of the input not yet taken. -/
structure Fault where
  kind : FaultKind
  left : Nat
  deriving DecidableEq, Repr

/-- A fault in the byte taken last. -/
def Fault.taken (kind : FaultKind) (rest : Bytes) : Fault :=
  ⟨kind, rest.length⟩

/-- A fault in the byte that comes next, which counts as taken if there is one. -/
def Fault.ahead (kind : FaultKind) (rest : Bytes) : Fault :=
  ⟨kind, rest.length - 1⟩

/-- Line and column after some bytes, both counted in bytes, lines from one. -/
def position (line column : Nat) : Bytes → Nat × Nat
  | [] => (line, column)
  | b :: rest => if b = 0x0A then position (line + 1) 0 rest else position line (column + 1) rest

/-- The text of a fault in an input. -/
def Fault.message (fault : Fault) (input : Bytes) : String :=
  let (line, column) := position 1 0 (input.take (input.length - fault.left))
  fault.kind.message ++ " at line " ++ toString line ++ " column " ++ toString column

end PhaseHost.Json
