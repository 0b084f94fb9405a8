import PhaseHost.Text.Hex

/-! # Percent encoding

    Characters that a part of a URL cannot hold are written as the bytes of
    their UTF-8 form, each as a percent sign and two hexadecimal digits. -/

namespace PhaseHost.Percent

/-- A digit of base sixteen, in upper case. -/
def upperHexDigit (n : Nat) : Char :=
  if n < 10 then Char.ofNat (48 + n) else Char.ofNat (55 + n)

/-- A byte as a percent sign and two digits. -/
def encodeByte (b : UInt8) : List Char :=
  ['%', upperHexDigit (b.toNat / 16), upperHexDigit (b.toNat % 16)]

/-- Encode the characters of a class, and all characters beyond ASCII. -/
def encode (escaped : Char → Bool) (s : List Char) : List Char :=
  s.flatMap (fun c =>
    if escaped c || 0x7F < c.toNat then (String.utf8EncodeChar c).flatMap encodeByte else [c])

/-- Decode every percent sign that two digits follow. -/
def decode : Bytes → Bytes
  | [] => []
  | 0x25 :: a :: b :: rest =>
    match Hex.value? a.toNat, Hex.value? b.toNat with
    | some x, some y => UInt8.ofNat (x * 16 + y) :: decode rest
    | _, _ => 0x25 :: decode (a :: b :: rest)
  | b :: rest => b :: decode rest

/-- The control characters. -/
def isControl (c : Char) : Bool :=
  c.toNat < 0x20 || c.toNat = 0x7F

/-- What a fragment cannot hold. -/
def notInFragment (c : Char) : Bool :=
  isControl c || c ∈ [' ', '"', '<', '>', Char.ofNat 0x60]

/-- What a path cannot hold. -/
def notInPath (c : Char) : Bool :=
  notInFragment c || c ∈ ['#', '?', '\x7b', '\x7d']

/-- What the query of a web address cannot hold. -/
def notInQuery (c : Char) : Bool :=
  isControl c || c ∈ [' ', '"', '#', '<', '>', '\'']

end PhaseHost.Percent
