/-! # UTF-8

    Text is stored as `String` and travels as bytes.  This file holds the two
    directions.

    * `Utf8.encode` writes every character in its one shortest form.
    * `Utf8.tokens` cuts *any* byte sequence into characters and malformed
      pieces; a malformed piece is the longest start of a sequence that no
      further byte could have completed, so a reader resumes at the first byte
      that may start something new.
    * `Utf8.decode?` accepts exactly the token lists without malformed pieces,
      and `Utf8.lossy` puts U+FFFD in the place of each. -/

namespace PhaseHost

/-- A finite sequence of bytes: a file, a module image, a line of input. -/
abbrev Bytes := List UInt8

namespace Utf8

/-- The bytes of a text. -/
def encode (s : String) : Bytes :=
  s.toList.flatMap String.utf8EncodeChar

/-- One piece of a byte sequence. -/
inductive Token where
  /-- A well-formed character. -/
  | char (c : Char)
  /-- A malformed piece of that many bytes, with more bytes behind it. -/
  | broken (length : Nat)
  /-- The sequence ends in the middle of a character, of which that many bytes are there. -/
  | cut (length : Nat)
  deriving DecidableEq, Repr

/-- Where a reader stands between two bytes. -/
inductive State where
  /-- Between two characters. -/
  | start
  /-- Inside a character: the bits so far, how many bytes were taken and how
      many are owed, and the range of the next byte.  The range of the second
      byte depends on the first, which rules out overlong forms, surrogates and
      values above U+10FFFF. -/
  | inside (value taken owed : Nat) (low high : UInt8)
  deriving DecidableEq, Repr

/-- Read the first byte of a character; `acc` holds the tokens already cut, newest first. -/
def first (acc : List Token) (a : UInt8) : List Token × State :=
  if a < 0x80 then (.char (Char.ofNat a.toNat) :: acc, .start)
  else if a < 0xC2 then (.broken 1 :: acc, .start)
  else if a < 0xE0 then (acc, .inside (a.toNat % 32) 1 1 0x80 0xBF)
  else if a = 0xE0 then (acc, .inside (a.toNat % 16) 1 2 0xA0 0xBF)
  else if a = 0xED then (acc, .inside (a.toNat % 16) 1 2 0x80 0x9F)
  else if a < 0xF0 then (acc, .inside (a.toNat % 16) 1 2 0x80 0xBF)
  else if a = 0xF0 then (acc, .inside (a.toNat % 8) 1 3 0x90 0xBF)
  else if a < 0xF4 then (acc, .inside (a.toNat % 8) 1 3 0x80 0xBF)
  else if a = 0xF4 then (acc, .inside (a.toNat % 8) 1 3 0x80 0x8F)
  else (.broken 1 :: acc, .start)

/-- Read the next byte.  A byte outside the expected range breaks the character
    off and is read as the first byte of the next one. -/
def next (acc : List Token) (b : UInt8) : State → List Token × State
  | .start => first acc b
  | .inside value taken owed low high =>
    if low ≤ b && b ≤ high then
      let bits := value * 64 + b.toNat % 64
      if owed ≤ 1 then (.char (Char.ofNat bits) :: acc, .start)
      else (acc, .inside bits (taken + 1) (owed - 1) 0x80 0xBF)
    else first (.broken taken :: acc) b

/-- Cut a byte sequence into tokens. -/
def scan (acc : List Token) (state : State) : Bytes → List Token
  | [] =>
    match state with
    | .start => acc.reverse
    | .inside _ taken _ _ _ => (.cut taken :: acc).reverse
  | b :: rest => scan (next acc b state).1 (next acc b state).2 rest

/-- The tokens of a byte sequence, in order. -/
def tokens (bytes : Bytes) : List Token :=
  scan [] .start bytes

/-- The character of a well-formed token. -/
def Token.char? : Token → Option Char
  | .char c => some c
  | _ => none

/-- The character shown for a token: U+FFFD for a malformed one. -/
def Token.shown : Token → Char
  | .char c => c
  | _ => Char.ofNat 0xFFFD

/-- How many bytes a token takes. -/
def Token.size : Token → Nat
  | .char c => c.utf8Size
  | .broken n => n
  | .cut n => n

/-- The text of a byte sequence, if all of it is well formed. -/
def decode? (bytes : Bytes) : Option String :=
  ((tokens bytes).mapM Token.char?).map String.ofList

/-- The text of a byte sequence with U+FFFD for each malformed piece. -/
def lossy (bytes : Bytes) : String :=
  String.ofList ((tokens bytes).map Token.shown)

/-- Where and how a byte sequence stops being UTF-8. -/
inductive Fault where
  | broken (length index : Nat)
  | cut (index : Nat)
  deriving DecidableEq, Repr

/-- The first malformed token of a list that starts at byte `index`. -/
def firstFault (index : Nat) : List Token → Option Fault
  | [] => none
  | .char c :: rest => firstFault (index + c.utf8Size) rest
  | .broken n :: _ => some (.broken n index)
  | .cut _ :: _ => some (.cut index)

/-- The first fault of a byte sequence. -/
def fault? (bytes : Bytes) : Option Fault :=
  firstFault 0 (tokens bytes)

/-- The text of a fault. -/
def Fault.message : Fault → String
  | .broken n i => "invalid utf-8 sequence of " ++ toString n ++ " bytes from index " ++ toString i
  | .cut i => "incomplete utf-8 byte sequence from index " ++ toString i

end Utf8
end PhaseHost
