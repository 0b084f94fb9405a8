import PhaseHost.Text.Utf8

/-! # Base sixteen

    Bytes are written with two digits each, in lower case, and read back from
    digits of either case.  A digit is told by its code, be it a character or a
    byte. -/

namespace PhaseHost.Hex

/-- The digit for a value below sixteen. -/
def digit (n : Nat) : Char :=
  if n < 10 then Char.ofNat (48 + n) else Char.ofNat (87 + n)

/-- The value of the digit with a code. -/
def value? (code : Nat) : Option Nat :=
  if 0x30 ≤ code ∧ code ≤ 0x39 then some (code - 48)
  else if 0x41 ≤ code ∧ code ≤ 0x46 then some (code - 55)
  else if 0x61 ≤ code ∧ code ≤ 0x66 then some (code - 87)
  else none

/-- The codes of digits are those of printable characters of ASCII. -/
theorem range_of_value? {code d : Nat} (h : value? code = some d) :
    0x20 ≤ code ∧ code < 0x80 := by
  unfold value? at h
  split at h
  · omega
  · split at h
    · omega
    · split at h
      · omega
      · cases h

/-- The digits of a byte. -/
def ofByte (b : UInt8) : List Char :=
  [digit (b.toNat / 16), digit (b.toNat % 16)]

/-- The bytes that digits denote. -/
def bytes? : List Char → Option Bytes
  | [] => some []
  | [_] => none
  | a :: b :: rest =>
    match value? a.toNat, value? b.toNat, bytes? rest with
    | some high, some low, some bytes => some (UInt8.ofNat (high * 16 + low) :: bytes)
    | _, _, _ => none

end PhaseHost.Hex

namespace PhaseHost

/-- The text of bytes in base sixteen. -/
def Bytes.hex (bytes : Bytes) : String :=
  String.ofList (bytes.flatMap Hex.ofByte)

/-- The bytes that a text denotes in base sixteen. -/
def Bytes.ofHex? (s : String) : Option Bytes :=
  Hex.bytes? s.toList

end PhaseHost
