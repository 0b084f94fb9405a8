import PhaseHost.Json.Basic
import PhaseHost.Json.Fault

/-! # Reading numbers

    A number without fraction and exponent is an exact integer as long as it
    fits sixty-four bits (`-0` does not count as an integer).  Every other number
    is binary64: the digits make a sixty-four bit significand, digits beyond
    it only count towards the exponent, and one multiplication or division by a
    power of ten makes the value.  A magnitude beyond binary64 is a fault, one
    below it becomes zero. -/

namespace PhaseHost.Json

/-- A reader takes a part off the front of the input. -/
abbrev Scanner (α : Type) := Bytes → Except Fault (α × Bytes)

/-- The value of a decimal digit. -/
def digit? (b : UInt8) : Option Nat :=
  if 0x30 ≤ b ∧ b ≤ 0x39 then some (b.toNat - 48) else none

/-- The next digit, if one comes next. -/
def peekDigit? : Bytes → Option Nat
  | [] => none
  | b :: _ => digit? b

/-- Without the digits that come next. -/
def dropDigits (s : Bytes) : Bytes :=
  s.dropWhile (fun b => (digit? b).isSome)

/-- The largest significand. -/
def significandMax : Nat := 0xFFFFFFFFFFFFFFFF

/-- The largest exponent that is counted. -/
def exponentMax : Nat := 0x7FFFFFFF

/-- Take digits into a number as long as it stays within `limit`: the number,
    how many digits were taken, and what is left. -/
def takeDigits (limit value count : Nat) : Bytes → Nat × Nat × Bytes
  | [] => (value, count, [])
  | b :: rest =>
    match digit? b with
    | none => (value, count, b :: rest)
    | some d =>
      if limit < value * 10 + d then (value, count, b :: rest)
      else takeDigits limit (value * 10 + d) (count + 1) rest

/-- A power of ten in binary64. -/
def powerOfTen (n : Nat) : Float :=
  Float.ofScientific 1 false n

/-- Divide by `10 ^ n` with divisors that binary64 can hold; `steps` bounds
    their number, and three leave nothing of any significand. -/
def divideByPower : Nat → Float → Nat → Float
  | 0, f, _ => f
  | steps + 1, f, n =>
    if n ≤ 308 then f / powerOfTen n else divideByPower steps (f / powerOfTen 308) (n - 308)

/-- The magnitude `significand * 10 ^ exponent`, if binary64 can hold it. -/
def magnitude? (significand : Nat) (exponent : Int) : Option Float :=
  let f := (UInt64.ofNat significand).toFloat
  if exponent < 0 then some (divideByPower 4 f exponent.natAbs)
  else if significand = 0 then some f
  else if 308 < exponent then none
  else
    let scaled := f * powerOfTen exponent.toNat
    if scaled.isInf then none else some scaled

/-- A binary64 value with its sign. -/
def signed (negative : Bool) (f : Float) : Json :=
  .float (if negative then (-f).toBits else f.toBits)

/-- The value of a significand and an exponent. -/
def makeFloat (negative : Bool) (significand : Nat) (exponent : Int) (rest : Bytes) :
    Except Fault (Json × Bytes) :=
  match magnitude? significand exponent with
  | some f => .ok (signed negative f, rest)
  | none => .error (.taken .numberOutOfRange rest)

/-- The sign of an exponent and what is left. -/
def exponentSign : Bytes → Bool × Bytes
  | 0x2B :: rest => (false, rest)
  | 0x2D :: rest => (true, rest)
  | rest => (false, rest)

/-- An exponent, after its mark.  An exponent too large to count gives zero or a
    number out of range, whatever the digits before it. -/
def scanExponent (negative : Bool) (significand : Nat) (start : Int) (s : Bytes) :
    Except Fault (Json × Bytes) :=
  let (down, s) := exponentSign s
  match s with
  | [] => .error (.taken .endInValue [])
  | b :: rest =>
    match digit? b with
    | none => .error (.taken .badNumber rest)
    | some d =>
      let (e, _, rest) := takeDigits exponentMax d 1 rest
      match peekDigit? rest with
      | some _ =>
        if significand ≠ 0 ∧ ¬ down then .error (.taken .numberOutOfRange (rest.drop 1))
        else .ok (signed negative 0.0, dropDigits rest)
      | none => makeFloat negative significand (if down then start - e else start + e) rest

/-- After the digits of a number: an exponent or nothing more. -/
def scanAfterDigits (negative : Bool) (significand : Nat) (exponent : Int) (s : Bytes) :
    Except Fault (Json × Bytes) :=
  match s with
  | 0x65 :: rest => scanExponent negative significand exponent rest
  | 0x45 :: rest => scanExponent negative significand exponent rest
  | rest => makeFloat negative significand exponent rest

/-- A fraction, after its point. -/
def scanFraction (negative : Bool) (significand : Nat) (exponent : Int) (s : Bytes) :
    Except Fault (Json × Bytes) :=
  let (value, count, rest) := takeDigits significandMax significand 0 s
  match peekDigit? rest with
  | some _ => scanAfterDigits negative value (exponent - count) (dropDigits rest)
  | none =>
    if count = 0 then
      .error (.ahead (if rest.isEmpty then .endInValue else .badNumber) rest)
    else scanAfterDigits negative value (exponent - count) rest

/-- What may follow the integer digits of a number that is binary64 in any case. -/
def scanLong (negative : Bool) (significand : Nat) (s : Bytes) : Except Fault (Json × Bytes) :=
  let rest := dropDigits s
  let exponent : Int := s.length - rest.length
  match rest with
  | 0x2E :: after => scanFraction negative significand exponent after
  | rest => scanAfterDigits negative significand exponent rest

/-- An exact integer; negative ones reach down to `-2^63`, and minus zero is not one. -/
def makeInteger (negative : Bool) (value : Nat) : Json :=
  if negative then
    if value = 0 ∨ 0x8000000000000000 < value then signed true (UInt64.ofNat value).toFloat
    else .int (-(value : Int))
  else ofNat value

/-- What may follow integer digits that make an exact integer so far. -/
def scanAfterInteger (negative : Bool) (value : Nat) (s : Bytes) : Except Fault (Json × Bytes) :=
  match s with
  | 0x2E :: rest => scanFraction negative value 0 rest
  | 0x65 :: rest => scanExponent negative value 0 rest
  | 0x45 :: rest => scanExponent negative value 0 rest
  | rest => .ok (makeInteger negative value, rest)

/-- A number without its sign. -/
def scanUnsigned (negative : Bool) : Scanner Json
  | [] => .error (.taken .endInValue [])
  | b :: s =>
    match digit? b with
    | none => .error (.taken .badNumber s)
    | some 0 =>
      match peekDigit? s with
      | some _ => .error (.ahead .badNumber s)
      | none => scanAfterInteger negative 0 s
    | some d =>
      let (value, _, rest) := takeDigits significandMax d 1 s
      match peekDigit? rest with
      | some _ => scanLong negative value rest
      | none => scanAfterInteger negative value rest

end PhaseHost.Json
