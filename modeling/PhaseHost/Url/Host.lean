import PhaseHost.Url.Percent
import PhaseHost.Url.Punycode
import PhaseHost.Decimal.Layout

/-! # Hosts of URLs

    The host of a web address is a domain, an IPv4 address in any of its many
    spellings, or an IPv6 address between brackets.  Other schemes take the text
    of their hosts as it is, as far as its characters allow. -/

namespace PhaseHost.Url

/-- Cut at every occurrence of a character. -/
def splitAtAll (mark : Char) : List Char → List (List Char)
  | [] => [[]]
  | c :: rest =>
    if c = mark then [] :: splitAtAll mark rest
    else
      match splitAtAll mark rest with
      | [] => [[c]]
      | part :: parts => (c :: part) :: parts

/-- Join with a character in between. -/
def joinWith (mark : Char) : List (List Char) → List Char
  | [] => []
  | [part] => part
  | part :: parts => part ++ mark :: joinWith mark parts

/-! ## IPv4 -/

/-- The value of a digit in a base of at most sixteen. -/
def digitIn? (base : Nat) (c : Char) : Option Nat :=
  let value :=
    if c.isDigit then c.toNat - 48
    else if 'a' ≤ c ∧ c ≤ 'f' then c.toNat - 87
    else if 'A' ≤ c ∧ c ≤ 'F' then c.toNat - 55
    else base
  if value < base then some value else none

/-- The number of digits in a base, after those already taken. -/
def numberIn? (base value : Nat) : List Char → Option Nat
  | [] => some value
  | c :: rest => (digitIn? base c).bind (fun d => numberIn? base (value * base + d) rest)

/-- A number in one of the spellings that addresses allow: hexadecimal after
    `0x`, octal after `0`, else decimal. -/
def ipv4Number? : List Char → Option Nat
  | [] => none
  | '0' :: 'x' :: digits => numberIn? 16 0 digits
  | '0' :: 'X' :: digits => numberIn? 16 0 digits
  | '0' :: d :: digits => numberIn? 8 0 (d :: digits)
  | digits => numberIn? 10 0 digits

/-- The labels of a domain, without an empty one at the end. -/
def labelsOf (domain : List Char) : List (List Char) :=
  let labels := splitAtAll '.' domain
  match labels.getLast? with
  | some [] => if labels.length = 1 then labels else labels.dropLast
  | _ => labels

/-- Whether a domain ends in a number and so must be an address. -/
def endsInNumber (domain : List Char) : Bool :=
  match (labelsOf domain).getLast? with
  | some label => (!label.isEmpty && label.all Char.isDigit) || (ipv4Number? label).isSome
  | none => false

/-- The address of numbers: each but the last is one byte, the last fills the rest. -/
def ipv4Join (numbers : List Nat) : Option Nat :=
  match numbers.getLast? with
  | none => none
  | some last =>
    let first := numbers.dropLast
    if 3 < first.length ∨ first.any (255 < ·) ∨ Nat.pow 256 (4 - first.length) ≤ last then none
    else some ((first.mapIdx (fun i n => n * Nat.pow 256 (3 - i))).foldl Nat.add last)

/-- The address of a domain that must be one. -/
def ipv4? (domain : List Char) : Option Nat :=
  ((labelsOf domain).mapM ipv4Number?).bind ipv4Join

/-- The four bytes of an address, with points in between. -/
def ipv4Chars (address : Nat) : List Char :=
  joinWith '.' ([3, 2, 1, 0].map (fun i => Decimal.digitChars (address / Nat.pow 256 i % 256)))

/-! ## IPv6 -/

/-- One part of an address between colons: one to four hexadecimal digits. -/
def ipv6Piece? (part : List Char) : Option Nat :=
  if part.isEmpty ∨ 4 < part.length then none else numberIn? 16 0 part

/-- One byte of an address in decimal, without zeros in front. -/
def byteOf? (part : List Char) : Option Nat :=
  match part with
  | [] => none
  | '0' :: _ :: _ => none
  | digits =>
    match numberIn? 10 0 digits with
    | some n => if n ≤ 255 then some n else none
    | none => none

/-- The two parts that an address of four bytes at the end stands for. -/
def ipv4Pieces? (part : List Char) : Option (List Nat) :=
  match (splitAtAll '.' part).mapM byteOf? with
  | some [a, b, c, d] => some [a * 256 + b, c * 256 + d]
  | _ => none

/-- The parts of a run of pieces; only the last one may be four bytes. -/
def ipv6Pieces? : List (List Char) → Option (List Nat)
  | [] => some []
  | [last] =>
    if '.' ∈ last then ipv4Pieces? last else (ipv6Piece? last).map (fun n => [n])
  | part :: rest => do
    let n ← ipv6Piece? part
    let ns ← ipv6Pieces? rest
    some (n :: ns)

/-- The pieces of a text without a gap. -/
def ipv6Run? (s : List Char) : Option (List Nat) :=
  if s.isEmpty then some [] else ipv6Pieces? (splitAtAll ':' s)

/-- The parts before and after the first two colons in a row. -/
def splitAtGap? : List Char → Option (List Char × List Char)
  | ':' :: ':' :: rest => some ([], rest)
  | c :: rest => (splitAtGap? rest).map (fun (a, b) => (c :: a, b))
  | [] => none

/-- The eight pieces of an address; a gap stands for one or more zeros. -/
def ipv6? (s : List Char) : Option (List Nat) :=
  match splitAtGap? s with
  | none => (ipv6Run? s).bind (fun ns => if ns.length = 8 then some ns else none)
  | some (before, after) => do
    if '.' ∈ before then none
    let xs ← ipv6Run? before
    let ys ← ipv6Run? after
    if 7 < xs.length + ys.length then none
    some (xs ++ (List.replicate (8 - xs.length - ys.length) 0 ++ ys))

/-- The length of the run of zeros at the front. -/
def zerosAtFront (pieces : List Nat) : Nat :=
  (pieces.takeWhile (· = 0)).length

/-- The first longest run of zeros: where it starts and how long it is. -/
def longestZeros (pieces : List Nat) : Nat × Nat :=
  (List.range pieces.length).foldl (fun best i =>
    let n := zerosAtFront (pieces.drop i)
    if best.2 < n then (i, n) else best) (0, 0)

/-- A piece in lower-case hexadecimal. -/
def pieceChars (n : Nat) : List Char :=
  Nat.toDigits 16 n

/-- An address between brackets, its longest run of zeros left out. -/
def ipv6Chars (pieces : List Nat) : List Char :=
  let (start, length) := longestZeros pieces
  let shown (ps : List Nat) : List Char := joinWith ':' (ps.map pieceChars)
  let inner :=
    if length < 2 then shown pieces
    else shown (pieces.take start) ++ (':' :: ':' :: shown (pieces.drop (start + length)))
  '[' :: (inner ++ [']'])

/-! ## Domains -/

/-- Characters that no host may hold. -/
def isForbidden (c : Char) : Bool :=
  c ∈ ['\x00', '\t', '\n', '\r', ' ', '#', '/', ':', '<', '>', '?', '@', '[', '\\', ']', '^', '|']

/-- Characters that no domain may hold. -/
def isForbiddenInDomain (c : Char) : Bool :=
  isForbidden c || Percent.isControl c || c = '%' || c = Char.ofNat 0xFFFD
    || (0x80 ≤ c.toNat && c.toNat ≤ 0xA0)

/-- The letter that a letter of the Latin, Greek or Cyrillic alphabet is folded to. -/
def foldLetter (c : Char) : Char :=
  let n := c.toNat
  if 0xC0 ≤ n ∧ n ≤ 0xDE ∧ n ≠ 0xD7 then Char.ofNat (n + 32)
  else if 0x391 ≤ n ∧ n ≤ 0x3A9 then Char.ofNat (n + 32)
  else if 0x410 ≤ n ∧ n ≤ 0x42F then Char.ofNat (n + 32)
  else if 0x400 ≤ n ∧ n ≤ 0x40F then Char.ofNat (n + 80)
  else if 0x100 ≤ n ∧ n ≤ 0x137 ∧ n % 2 = 0 then Char.ofNat (n + 1)
  else c.toLower

/-- The characters that a character of a domain stands for: wide forms stand for
    their plain ones, and the soft hyphen for nothing. -/
def foldChar (c : Char) : List Char :=
  let n := c.toNat
  if n = 0xAD ∨ n = 0x200B then []
  else if 0xFF01 ≤ n ∧ n ≤ 0xFF5E then [(Char.ofNat (n - 0xFEE0)).toLower]
  else if n = 0x3002 ∨ n = 0xFF61 then ['.']
  else [foldLetter c]

/-- The ASCII form of a label. -/
def labelToAscii (label : List Char) : List Char :=
  if label.all (fun c => c.toNat < 128) then label
  else ['x', 'n', '-', '-'] ++ Punycode.encode label

/-- The ASCII form of a domain, if it is one. -/
def domainToAscii? (s : List Char) : Option (List Char) :=
  let folded := s.flatMap foldChar
  if folded.any isForbiddenInDomain then none
  else some (joinWith '.' ((splitAtAll '.' folded).map labelToAscii))

/-! ## Hosts -/

/-- The host of a URL. -/
inductive Host where
  | domain (name : List Char)
  | ipv4 (address : Nat)
  | ipv6 (pieces : List Nat)
  deriving DecidableEq, Repr

namespace Host

/-- The text of a host. -/
def chars : Host → List Char
  | .domain name => name
  | .ipv4 address => ipv4Chars address
  | .ipv6 pieces => ipv6Chars pieces

/-- A host between brackets. -/
def bracketed? (s : List Char) : Option Host :=
  match s.getLast? with
  | some ']' => (ipv6? (s.drop 1).dropLast).map .ipv6
  | _ => none

/-- The host of a web address or a file. -/
def ofChars? (s : List Char) : Option Host :=
  if s.head? = some '[' then bracketed? s
  else do
    let decoded := (Utf8.lossy (Percent.decode (Utf8.encode (String.ofList s)))).toList
    let domain ← domainToAscii? decoded
    if domain.isEmpty then none
    else if endsInNumber domain then (ipv4? domain).map .ipv4
    else some (.domain domain)

/-- The host of any other URL. -/
def opaque? (s : List Char) : Option Host :=
  if s.head? = some '[' then bracketed? s
  else if s.any isForbidden then none
  else some (.domain (Percent.encode Percent.isControl s))

end Host
end PhaseHost.Url
