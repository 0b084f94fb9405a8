import PhaseHost.Json.Number
import PhaseHost.Text.Hex

/-! # Reading JSON

    From bytes to values.  Every reader takes a part off the front of the input
    and returns what is left.

    * Loops over characters, items and fields are bounded by what is left of
      the input, and running out of the bound is running out of input.
    * Nesting is bounded by `maxDepth`, which makes the reader of a value
      recursive in the depth that remains.
    * Of a repeated key the last value counts.
    * `skipValue` passes over a value without building it; it accepts every
      value a reader accepts, at any depth, and is indifferent to the value of
      numbers and escapes, in keys as in strings. -/

namespace PhaseHost.Json

/-- The blanks of the format: space, tab, line feed, carriage return. -/
def isSpace (b : UInt8) : Bool :=
  b = 0x20 || b = 0x09 || b = 0x0A || b = 0x0D

/-- Without the blanks that come next. -/
def skipSpace (s : Bytes) : Bytes :=
  s.dropWhile isSpace

/-- The letters that remain of a word whose first letter was taken. -/
def scanWord (word : Bytes) (v : Json) (s : Bytes) : Except Fault (Json × Bytes) :=
  match word, s with
  | [], s => .ok (v, s)
  | _ :: _, [] => .error (.taken .endInValue [])
  | w :: word, b :: s => if b = w then scanWord word v s else .error (.taken .badWord s)

/-! ## Strings -/

/-- The value of four hexadecimal digits. -/
def hexQuad? (a b c d : UInt8) : Option Nat :=
  match Hex.value? a.toNat, Hex.value? b.toNat, Hex.value? c.toNat, Hex.value? d.toNat with
  | some a, some b, some c, some d => some (((a * 16 + b) * 16 + c) * 16 + d)
  | _, _, _, _ => none

/-- Four hexadecimal digits. -/
def scanHexQuad : Scanner Nat
  | a :: b :: c :: d :: rest =>
    match hexQuad? a b c d with
    | some n => .ok (n, rest)
    | none => .error (.taken .badEscape rest)
  | _ => .error (.taken .endInString [])

/-- The bytes of a code point. -/
def codePoint (n : Nat) : Bytes :=
  String.utf8EncodeChar (Char.ofNat n)

/-- The second half of a surrogate pair. -/
def scanLowSurrogate (high : Nat) : Scanner Bytes
  | [] => .error (.taken .endInString [])
  | 0x5C :: [] => .error (.taken .endInString [])
  | 0x5C :: 0x75 :: rest => do
    let (low, rest) ← scanHexQuad rest
    if 0xDC00 ≤ low ∧ low ≤ 0xDFFF then
      .ok (codePoint (0x10000 + (high - 0xD800) * 0x400 + (low - 0xDC00)), rest)
    else .error (.taken .loneSurrogate rest)
  | 0x5C :: _ :: rest => .error (.taken .endInHexEscape rest)
  | _ :: rest => .error (.taken .endInHexEscape rest)

/-- A code point in hexadecimal; one beyond the basic plane takes two. -/
def scanUnicode (s : Bytes) : Except Fault (Bytes × Bytes) := do
  let (n, rest) ← scanHexQuad s
  if 0xDC00 ≤ n ∧ n ≤ 0xDFFF then .error (.taken .loneSurrogate rest)
  else if 0xD800 ≤ n ∧ n ≤ 0xDBFF then scanLowSurrogate n rest
  else .ok (codePoint n, rest)

/-- The bytes an escape stands for, after its backslash. -/
def scanEscape : Scanner Bytes
  | [] => .error (.taken .endInString [])
  | b :: rest =>
    match Char.ofUInt8 b with
    | '"' => .ok ([0x22], rest)
    | '\\' => .ok ([0x5C], rest)
    | '/' => .ok ([0x2F], rest)
    | 'b' => .ok ([0x08], rest)
    | 'f' => .ok ([0x0C], rest)
    | 'n' => .ok ([0x0A], rest)
    | 'r' => .ok ([0x0D], rest)
    | 't' => .ok ([0x09], rest)
    | 'u' => scanUnicode rest
    | _ => .error (.taken .badEscape rest)

/-- The bytes of a string up to its closing quote; `acc` holds those already
    taken, newest first.  Raw bytes are taken as they are and checked at the end. -/
def scanStringBytes : Nat → Bytes → Scanner Bytes
  | 0, _, _ => .error (.taken .endInString [])
  | _ + 1, _, [] => .error (.taken .endInString [])
  | n + 1, acc, b :: rest =>
    if b = 0x22 then .ok (acc.reverse, rest)
    else if b = 0x5C then
      match scanEscape rest with
      | .ok (bytes, rest) => scanStringBytes n (bytes.reverse ++ acc) rest
      | .error fault => .error fault
    else if b < 0x20 then .error (.taken .controlCharacter rest)
    else scanStringBytes n (b :: acc) rest

/-- A string, after its opening quote. -/
def scanString (s : Bytes) : Except Fault (String × Bytes) := do
  let (bytes, rest) ← scanStringBytes (s.length + 1) [] s
  match Utf8.decode? bytes with
  | some text => .ok (text, rest)
  | none => .error (.taken .badCodePoint (0x22 :: rest))

/-! ## Values -/

/-- The items of an array and its end, after the opening bracket; `acc` holds
    those already taken, newest first. -/
def scanItems {α : Type} (item : Scanner α) : Nat → Bool → List α → Scanner (List α)
  | 0, _, _, _ => .error (.ahead .endInList [])
  | n + 1, isFirst, acc, s =>
    match skipSpace s with
    | [] => .error (.ahead .endInList [])
    | b :: rest =>
      if b = 0x5D then .ok (acc.reverse, rest)
      else if isFirst then
        match item (b :: rest) with
        | .ok (v, s) => scanItems item n false (v :: acc) s
        | .error fault => .error fault
      else if b = 0x2C then
        match skipSpace rest with
        | [] => .error (.ahead .endInValue [])
        | c :: rest =>
          if c = 0x5D then .error (.ahead .trailingComma (c :: rest))
          else
            match item (c :: rest) with
            | .ok (v, s) => scanItems item n false (v :: acc) s
            | .error fault => .error fault
      else .error (.ahead .noListCommaOrEnd (b :: rest))

/-- The colon between key and value. -/
def scanColon (s : Bytes) : Except Fault (Unit × Bytes) :=
  match skipSpace s with
  | [] => .error (.ahead .endInObject [])
  | b :: rest => if b = 0x3A then .ok ((), rest) else .error (.ahead .noColon (b :: rest))

/-- A key and its value, after the opening quote of the key.  The reader of the
    value may depend on the key. -/
def scanField {α : Type} (value : String → Scanner α) (s : Bytes) :
    Except Fault ((String × α) × Bytes) := do
  let (key, s) ← scanString s
  let ((), s) ← scanColon s
  let (v, s) ← value key s
  .ok ((key, v), s)

/-- The fields of an object and its end, after the opening brace, in the order
    of the text. -/
def scanFields {α : Type} (value : String → Scanner α) :
    Nat → Bool → List (String × α) → Scanner (List (String × α))
  | 0, _, _, _ => .error (.ahead .endInObject [])
  | n + 1, isFirst, acc, s =>
    match skipSpace s with
    | [] => .error (.ahead .endInObject [])
    | b :: rest =>
      if b = 0x7D then .ok (acc.reverse, rest)
      else if isFirst then
        if b = 0x22 then
          match scanField value rest with
          | .ok (field, s) => scanFields value n false (field :: acc) s
          | .error fault => .error fault
        else .error (.ahead .keyNotString (b :: rest))
      else if b = 0x2C then
        match skipSpace rest with
        | [] => .error (.ahead .endInValue [])
        | c :: rest =>
          if c = 0x22 then
            match scanField value rest with
            | .ok (field, s) => scanFields value n false (field :: acc) s
            | .error fault => .error fault
          else if c = 0x7D then .error (.ahead .trailingComma (c :: rest))
          else .error (.ahead .keyNotString (c :: rest))
      else .error (.ahead .noObjectCommaOrEnd (b :: rest))

/-- How deep arrays and objects may nest. -/
def maxDepth : Nat := 127

/-- A value in which arrays and objects nest at most `depth` deep. -/
def scanValue : Nat → Scanner Json
  | depth, s =>
    match skipSpace s with
    | [] => .error (.ahead .endInValue [])
    | b :: rest =>
      match Char.ofUInt8 b with
      | 'n' => scanWord [0x75, 0x6C, 0x6C] .null rest
      | 't' => scanWord [0x72, 0x75, 0x65] (.bool true) rest
      | 'f' => scanWord [0x61, 0x6C, 0x73, 0x65] (.bool false) rest
      | '"' =>
        match scanString rest with
        | .ok (text, s) => .ok (.str text, s)
        | .error fault => .error fault
      | '-' => scanUnsigned true rest
      | '[' =>
        match depth with
        | 0 => .error (.ahead .tooDeep (b :: rest))
        | depth + 1 =>
          match scanItems (scanValue depth) (rest.length + 1) true [] rest with
          | .ok (items, s) => .ok (.arr items, s)
          | .error fault => .error fault
      | '\x7b' =>
        match depth with
        | 0 => .error (.ahead .tooDeep (b :: rest))
        | depth + 1 =>
          match scanFields (fun _ => scanValue depth) (rest.length + 1) true [] rest with
          | .ok (fields, s) => .ok (ofPairs fields, s)
          | .error fault => .error fault
      | _ =>
        match digit? b with
        | some _ => scanUnsigned false (b :: rest)
        | none => .error (.ahead .noValue (b :: rest))

/-- Nothing but blanks may follow a document. -/
def scanEnd (s : Bytes) : Except Fault Unit :=
  match skipSpace s with
  | [] => .ok ()
  | b :: rest => .error (.ahead .trailingCharacters (b :: rest))

/-- The value of a document. -/
def parse (input : Bytes) : Except Fault Json := do
  let (v, rest) ← scanValue maxDepth input
  scanEnd rest
  .ok v

/-- The value of a text. -/
def parseText (s : String) : Except Fault Json :=
  parse (Utf8.encode s)

/-! ## Passing over values -/

/-- Pass over an escape, after its backslash. -/
def skipEscape : Bytes → Option Bytes
  | [] => none
  | b :: rest =>
    match Char.ofUInt8 b with
    | 'u' =>
      match scanHexQuad rest with
      | .ok (_, rest) => some rest
      | .error _ => none
    | c => if c ∈ ['"', '\\', '/', 'b', 'f', 'n', 'r', 't'] then some rest else none

/-- Pass over a string, after its opening quote. -/
def skipString : Nat → Bytes → Option Bytes
  | 0, _ => none
  | _ + 1, [] => none
  | n + 1, b :: rest =>
    if b = 0x22 then some rest
    else if b = 0x5C then (skipEscape rest).bind (skipString n)
    else if b < 0x20 then none
    else skipString n rest

/-- Pass over an exponent if one comes next. -/
def skipExponent : Bytes → Option Bytes
  | [] => some []
  | b :: rest =>
    if b = 0x65 ∨ b = 0x45 then
      let (_, s) := exponentSign rest
      (peekDigit? s).map (fun _ => dropDigits s)
    else some (b :: rest)

/-- Pass over a number without its sign. -/
def skipNumber (s : Bytes) : Option Bytes :=
  match s with
  | [] => none
  | b :: rest =>
    match digit? b with
    | none => none
    | some d =>
      if d = 0 ∧ (peekDigit? rest).isSome then none
      else
        match dropDigits rest with
        | 0x2E :: after => (peekDigit? after).bind (fun _ => skipExponent (dropDigits after))
        | rest => skipExponent rest

/-- Pass over the letters that remain of a word. -/
def skipWord (word s : Bytes) : Option Bytes :=
  match scanWord word .null s with
  | .ok (_, rest) => some rest
  | .error _ => none

/-- Pass over the parts of an array or an object, the commas between them and
    the closing byte. -/
def skipSeries (close : UInt8) (part : Bytes → Option Bytes) : Nat → Bool → Bytes → Option Bytes
  | 0, _, _ => none
  | n + 1, isFirst, s =>
    match skipSpace s with
    | [] => none
    | b :: rest =>
      if b = close then some rest
      else if isFirst then (part (b :: rest)).bind (skipSeries close part n false)
      else if b = 0x2C then
        match skipSpace rest with
        | [] => none
        | c :: rest =>
          if c = close then none else (part (c :: rest)).bind (skipSeries close part n false)
      else none

/-- Pass over the colon between key and value. -/
def skipColon (s : Bytes) : Option Bytes :=
  match skipSpace s with
  | [] => none
  | b :: rest => if b = 0x3A then some rest else none

/-- Pass over a key, its colon and its value. -/
def skipMember (value : Bytes → Option Bytes) : Bytes → Option Bytes
  | [] => none
  | b :: rest =>
    if b = 0x22 then
      (skipString (rest.length + 1) rest).bind fun s => (skipColon s).bind value
    else none

/-- Pass over a value; `n` bounds the number of bytes. -/
def skipValue : Nat → Bytes → Option Bytes
  | 0, _ => none
  | n + 1, s =>
    match skipSpace s with
    | [] => none
    | b :: rest =>
      match Char.ofUInt8 b with
      | 'n' => skipWord [0x75, 0x6C, 0x6C] rest
      | 't' => skipWord [0x72, 0x75, 0x65] rest
      | 'f' => skipWord [0x61, 0x6C, 0x73, 0x65] rest
      | '"' => skipString (rest.length + 1) rest
      | '-' => skipNumber rest
      | '[' => skipSeries 0x5D (skipValue n) (rest.length + 1) true rest
      | '\x7b' => skipSeries 0x7D (skipMember (skipValue n)) (rest.length + 1) true rest
      | _ => skipNumber (b :: rest)

/-- Passing over something, as a reader that has nothing to say. -/
def passOver (skip : Bytes → Option Bytes) (s : Bytes) : Except Fault (Unit × Bytes) :=
  match skip s with
  | some rest => .ok ((), rest)
  | none => .error (.ahead .noValue s)

/-- Pass over a value. -/
def scanIgnored (s : Bytes) : Except Fault (Unit × Bytes) :=
  passOver (skipValue (s.length + 1)) s

/-- The value of a field if its key is wanted; any other is passed over. -/
def scanWanted (wanted : String → Bool) (key : String) (s : Bytes) :
    Except Fault (Option Json × Bytes) :=
  if wanted key then (scanValue (maxDepth - 1) s).map (fun (v, s) => (some v, s))
  else (scanIgnored s).map (fun (_, s) => (none, s))

/-- The fields of an object document whose keys are wanted, in the order of the
    text and with repetitions; the other fields are passed over. -/
def wantedFields (wanted : String → Bool) (input : Bytes) : Option (List (String × Json)) :=
  match skipSpace input with
  | 0x7B :: rest =>
    match scanFields (scanWanted wanted) (rest.length + 1) true [] rest with
    | .ok (fields, rest) =>
      match scanEnd rest with
      | .ok () => some (fields.filterMap (fun (k, v) => v.map (fun v => (k, v))))
      | .error _ => none
    | .error _ => none
  | _ => none

end PhaseHost.Json
