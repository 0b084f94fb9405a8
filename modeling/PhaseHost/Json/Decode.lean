import PhaseHost.Json.Printer
import PhaseHost.Text.Quoted

/-! # Decoding values

    A decoder turns a JSON value into a value of the program or says what it
    found in the place of what.  Faults are causes; `DecodeError.message` is
    the one place that words them. -/

namespace PhaseHost

/-- What a decoder found. -/
inductive Found where
  | null
  | bool (b : Bool)
  | int (i : Int)
  | float (bits : UInt64)
  | str (s : String)
  | sequence
  | map
  deriving DecidableEq, Repr

/-- What a decoder wanted. -/
inductive Wanted where
  | text
  | boolean
  | sequence
  | map
  | nothing
  | natural (bits : Nat)
  | textOrMap
  | singleKey
  | record (name : String)
  | recordOf (name : String) (size : Nat)
  | fewerItems
  deriving DecidableEq, Repr

/-- Why a value cannot be decoded. -/
inductive DecodeError where
  | invalidType (found : Found) (wanted : Wanted)
  | invalidValue (found : Found) (wanted : Wanted)
  | invalidLength (length : Nat) (wanted : Wanted)
  | missingField (name : String)
  | unknownVariant (name : String) (known : List String)
  deriving DecidableEq, Repr

/-- The result of a decoder. -/
abbrev Decoded (α : Type) := Except DecodeError α

/-- The wording of what was found. -/
def Found.wording : Found → String
  | .null => "null"
  | .bool b => "boolean `" ++ (if b then "true" else "false") ++ "`"
  | .int i => "integer `" ++ String.ofList (Json.intChars i) ++ "`"
  | .float bits => "floating point `" ++ String.ofList (Json.floatChars bits) ++ "`"
  | .str s => "string " ++ Text.quoted s
  | .sequence => "sequence"
  | .map => "map"

/-- The wording of what was wanted. -/
def Wanted.wording : Wanted → String
  | .text => "a string"
  | .boolean => "a boolean"
  | .sequence => "a sequence"
  | .map => "a map"
  | .nothing => "unit"
  | .natural bits => "u" ++ toString bits
  | .textOrMap => "string or map"
  | .singleKey => "map with a single key"
  | .record name => "struct " ++ name
  | .recordOf name 1 => "struct " ++ name ++ " with 1 element"
  | .recordOf name size => "struct " ++ name ++ " with " ++ toString size ++ " elements"
  | .fewerItems => "fewer elements in array"

/-- A name between backquotes. -/
def ticked (name : String) : String :=
  "`" ++ name ++ "`"

/-- The names of a choice: two are joined by "or", more are listed. -/
def choiceText : List String → String
  | [] => "there are no variants"
  | [a] => "expected " ++ ticked a
  | [a, b] => "expected " ++ ticked a ++ " or " ++ ticked b
  | names => "expected one of " ++ String.intercalate ", " (names.map ticked)

/-- The wording of a decoding error. -/
def DecodeError.message : DecodeError → String
  | .invalidType found wanted =>
    "invalid type: " ++ found.wording ++ ", expected " ++ wanted.wording
  | .invalidValue found wanted =>
    "invalid value: " ++ found.wording ++ ", expected " ++ wanted.wording
  | .invalidLength n wanted => "invalid length " ++ toString n ++ ", expected " ++ wanted.wording
  | .missingField name => "missing field " ++ ticked name
  | .unknownVariant name known => "unknown variant " ++ ticked name ++ ", " ++ choiceText known

namespace Json

/-- How a value is named when it was not wanted. -/
def found : Json → Found
  | .null => .null
  | .bool b => .bool b
  | .int i => .int i
  | .float bits => .float bits
  | .str s => .str s
  | .arr _ => .sequence
  | .obj _ => .map

/-- The error for a value of the wrong kind. -/
def reject {α : Type} (v : Json) (wanted : Wanted) : Decoded α :=
  .error (.invalidType v.found wanted)

/-- A text. -/
def toText : Json → Decoded String
  | .str s => .ok s
  | v => v.reject .text

/-- A truth value. -/
def toBool : Json → Decoded Bool
  | .bool b => .ok b
  | v => v.reject .boolean

/-- An integer in `0 .. 2^bits - 1`. -/
def toNatural (bits : Nat) : Json → Decoded Nat
  | .int (.ofNat n) =>
    if n < Nat.pow 2 bits then .ok n else .error (.invalidValue (.int (.ofNat n)) (.natural bits))
  | .int (.negSucc n) => .error (.invalidValue (.int (.negSucc n)) (.natural bits))
  | v => v.reject (.natural bits)

/-- An unsigned number of thirty-two bits. -/
def toUInt32 (v : Json) : Decoded UInt32 :=
  (toNatural 32 v).map UInt32.ofNat

/-- An unsigned number of sixty-four bits. -/
def toUInt64 (v : Json) : Decoded UInt64 :=
  (toNatural 64 v).map UInt64.ofNat

/-- Nothing: only `null` will do. -/
def toNothing : Json → Decoded Unit
  | .null => .ok ()
  | v => v.reject .nothing

/-- `null` for absence, anything else for presence. -/
def toOption {α : Type} (decode : Json → Decoded α) : Json → Decoded (Option α)
  | .null => .ok none
  | v => (decode v).map some

/-- Decode items in order. -/
def decodeItems {α : Type} (decode : Json → Decoded α) : List Json → Decoded (List α)
  | [] => .ok []
  | v :: rest => do
    let x ← decode v
    let xs ← decodeItems decode rest
    .ok (x :: xs)

/-- A list. -/
def toList {α : Type} (decode : Json → Decoded α) : Json → Decoded (List α)
  | .arr items => decodeItems decode items
  | v => v.reject .sequence

/-- Decode the values of fields in order. -/
def decodeFields {α : Type} (decode : Json → Decoded α) :
    List (String × Json) → Decoded (List (String × α))
  | [] => .ok []
  | (k, v) :: rest => do
    let x ← decode v
    let xs ← decodeFields decode rest
    .ok ((k, x) :: xs)

/-- A table from texts to values. -/
def toTable {α : Type} (decode : Json → Decoded α) : Json → Decoded (Fields α)
  | .obj fields => decodeFields decode fields
  | v => v.reject .map

/-- The member of a choice that has a name. -/
def lookupChoice {α : Type} (choices : List (String × α)) (name : String) : Decoded α :=
  match choices.find? (fun c => c.1 = name) with
  | some (_, x) => .ok x
  | none => .error (.unknownVariant name (choices.map Prod.fst))

/-- One of several names; the name may also be the only key of an object over `null`. -/
def toChoice {α : Type} (choices : List (String × α)) : Json → Decoded α
  | .str name => lookupChoice choices name
  | .obj [(name, v)] => do
    let x ← lookupChoice choices name
    toNothing v
    .ok x
  | .obj _ => .error (.invalidValue .map .singleKey)
  | v => v.reject .textOrMap

end Json
end PhaseHost
