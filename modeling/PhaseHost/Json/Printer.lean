import PhaseHost.Decimal.Layout
import PhaseHost.Json.Basic
import PhaseHost.Text.Hex

/-! # Writing JSON

    The compact text of a value: no blanks, fields in the order they have.

    Within a string only the quote, the backslash and the characters below
    U+0020 are escaped, so no written value contains a line break. -/

namespace PhaseHost.Json

/-- A character inside a string. -/
def escape (c : Char) : List Char :=
  match c with
  | '"' => ['\\', '"']
  | '\\' => ['\\', '\\']
  | '\x08' => ['\\', 'b']
  | '\t' => ['\\', 't']
  | '\n' => ['\\', 'n']
  | '\x0c' => ['\\', 'f']
  | '\r' => ['\\', 'r']
  | c =>
    if c.toNat < 0x20 then
      ['\\', 'u', '0', '0', Hex.digit (c.toNat / 16), Hex.digit (c.toNat % 16)]
    else [c]

/-- A string with its quotes. -/
def quote (s : String) : List Char :=
  '"' :: (s.toList.flatMap escape ++ ['"'])

/-- Numbers are written positionally between the decimal orders -5 and 15; a
    whole number keeps a point, so that it is not taken for an integer. -/
def floatLayout : Decimal.Layout where
  plainFrom := -5
  plainTo := 15
  wholeEnd := ['.', '0']
  plus := ['+']

/-- A binary64 number; infinities and non-numbers have no text of their own. -/
def floatChars (bits : UInt64) : List Char :=
  let parts := Decimal.Parts.ofBits bits
  if parts.exponent = 2047 then ['n', 'u', 'l', 'l']
  else
    let digits := floatLayout.write parts.magnitude.shortest
    if parts.negative then '-' :: digits else digits

/-- An integer. -/
def intChars : Int → List Char
  | .ofNat n => Decimal.digitChars n
  | .negSucc n => '-' :: Decimal.digitChars (n + 1)

mutual
/-- The characters of a value. -/
def chars : Json → List Char
  | .null => ['n', 'u', 'l', 'l']
  | .bool true => ['t', 'r', 'u', 'e']
  | .bool false => ['f', 'a', 'l', 's', 'e']
  | .int i => intChars i
  | .float bits => floatChars bits
  | .str s => quote s
  | .arr [] => ['[', ']']
  | .arr (v :: rest) => '[' :: (chars v ++ itemChars rest)
  | .obj [] => ['\x7b', '\x7d']
  | .obj ((k, v) :: rest) => '\x7b' :: (quote k ++ ':' :: (chars v ++ fieldChars rest))
  termination_by structural v => v
/-- The further items of an array, with its end. -/
def itemChars : List Json → List Char
  | [] => [']']
  | v :: rest => ',' :: (chars v ++ itemChars rest)
  termination_by structural v => v
/-- The further fields of an object, with its end. -/
def fieldChars : List (String × Json) → List Char
  | [] => ['\x7d']
  | (k, v) :: rest => ',' :: (quote k ++ ':' :: (chars v ++ fieldChars rest))
  termination_by structural v => v
end

/-- The text of a value. -/
def render (v : Json) : String :=
  String.ofList (chars v)

end PhaseHost.Json
