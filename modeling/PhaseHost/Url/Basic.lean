import PhaseHost.Url.Host

/-! # URLs

    A text is read as a URL in stages: scheme, authority, path, query, fragment.
    Blanks and controls at its ends do not count, and neither do tabs and line
    breaks anywhere.

    What matters here are web addresses, of which the whole normal form is
    needed, and files, of which the path is needed.  Of other schemes it only
    matters whether the text is a URL at all. -/

namespace PhaseHost

/-- A web address or the address of a file. -/
structure Address where
  scheme : String
  host : Option Url.Host
  /-- The port, unless it is the scheme's own. -/
  port : Option Nat
  /-- The parts of the path. -/
  path : List (List Char)
  query : Option (List Char)
  fragment : Option (List Char)
  deriving DecidableEq, Repr

/-- What a text is as a URL. -/
inductive Url where
  | web (address : Address)
  | file (address : Address)
  | other (scheme : String)
  deriving DecidableEq, Repr

namespace Url

/-- Blanks and controls, which do not count at the ends. -/
def isEdge (c : Char) : Bool :=
  c.toNat ≤ 0x20

/-- Tabs and line breaks, which do not count at all. -/
def isIgnored (c : Char) : Bool :=
  c = '\t' || c = '\n' || c = '\r'

/-- The characters of a text that count. -/
def counted (s : List Char) : List Char :=
  ((s.dropWhile isEdge).reverse.dropWhile isEdge).reverse.filter (fun c => !isIgnored c)

/-! ## Scheme -/

/-- Characters that a scheme may hold. -/
def isSchemeChar (c : Char) : Bool :=
  c.isAlphanum || c = '+' || c = '-' || c = '.'

/-- The scheme in lower case and what follows its colon. -/
def scheme? (s : List Char) : Option (String × List Char) :=
  match s with
  | [] => none
  | c :: _ =>
    if c.isAlpha then
      match s.dropWhile isSchemeChar with
      | ':' :: rest => some (String.ofList ((s.takeWhile isSchemeChar).map Char.toLower), rest)
      | _ => none
    else none

/-- The schemes whose URLs have the form of web addresses, with their own ports. -/
def webSchemes : List (String × Nat) :=
  [("http", 80), ("https", 443), ("ws", 80), ("wss", 443), ("ftp", 21)]

/-- Whether a character separates the parts of a path. -/
def isSlash (isWeb : Bool) (c : Char) : Bool :=
  c = '/' || (isWeb && c = '\\')

/-! ## Authority -/

/-- The text up to the path, query or fragment, and the rest. -/
def authority (isWeb : Bool) (s : List Char) : List Char × List Char :=
  let inside (c : Char) : Bool := !isSlash isWeb c && c ≠ '?' && c ≠ '#'
  (s.takeWhile inside, s.dropWhile inside)

/-- The user before the last at sign, if there is one, and the place after it. -/
def userAndPlace (s : List Char) : Option (List Char) × List Char :=
  if '@' ∈ s then
    let place := (splitAtAll '@' s).getLastD []
    (some (s.take (s.length - place.length - 1)), place)
  else (none, s)

/-- The text of the host and, behind a colon outside of brackets, of the port. -/
def hostAndPort (inBrackets : Bool) : List Char → List Char × Option (List Char)
  | [] => ([], none)
  | c :: rest =>
    if c = ':' ∧ ¬ inBrackets then ([], some rest)
    else
      let (host, port) := hostAndPort
        (if c = '[' then true else if c = ']' then false else inBrackets) rest
      (c :: host, port)

/-- The port of a text of digits. -/
def port? (own : Option Nat) (s : List Char) : Option (Option Nat) :=
  if s.isEmpty then some none
  else
    match numberIn? 10 0 s with
    | some n =>
      if 65535 < n then none else if some n = own then some none else some (some n)
    | none => none

/-- Whether a user asks for a host to follow: a lone at sign does so only before a path. -/
def needsHost (atEnd : Bool) : Option (List Char) → Bool
  | none => false
  | some [] => !atEnd
  | some user => user ≠ [':']

/-- The host and port of a web address. -/
def webAuthority? (own : Nat) (s : List Char) : Option (Host × Option Nat) := do
  let (hostText, portText) := hostAndPort false (userAndPlace s).2
  if hostText.isEmpty then none
  let host ← Host.ofChars? hostText
  let port ← port? (some own) (portText.getD [])
  some (host, port)

/-- Whether a text is an authority of a scheme that is not known; `atEnd` tells
    whether nothing follows it. -/
def isOtherAuthority (atEnd : Bool) (s : List Char) : Bool :=
  let (user, place) := userAndPlace s
  let (hostText, portText) := hostAndPort false place
  if hostText.isEmpty then portText.isNone && !needsHost atEnd user
  else
    (Host.opaque? hostText).isSome
      && (port? none ((portText.getD []).takeWhile (· ≠ '\\'))).isSome

/-! ## Path, query, fragment -/

/-- The ways to write the part that leads back up. -/
def isDoubleDot (part : List Char) : Bool :=
  String.ofList (part.map Char.toLower) ∈ ["..", "%2e%2e", "%2e.", ".%2e"]

/-- The ways to write the part that stays. -/
def isSingleDot (part : List Char) : Bool :=
  String.ofList (part.map Char.toLower) ∈ [".", "%2e"]

/-- A letter and a colon or bar. -/
def isDriveLetter (part : List Char) : Bool :=
  match part with
  | [c, d] => c.isAlpha && (d = ':' || d = '|')
  | _ => false

/-- Follow the raw parts of a path; `done` holds those already taken, newest
    first.  A drive letter at the front of a file's path is not left again. -/
def followParts (isFile : Bool) (done : List (List Char)) : List (List Char) → List (List Char)
  | [] => done.reverse
  | part :: rest =>
    if isDoubleDot part then
      let kept := match done with
        | [drive] => if isFile && isDriveLetter drive then done else []
        | _ :: more => more
        | [] => []
      followParts isFile (if rest.isEmpty then [] :: kept else kept) rest
    else if isSingleDot part then
      followParts isFile (if rest.isEmpty then [] :: done else done) rest
    else if isFile && done.isEmpty && isDriveLetter part then
      followParts isFile ((part.take 1 ++ [':']) :: done) rest
    else followParts isFile (Percent.encode Percent.notInPath part :: done) rest

/-- Cut a path at its slashes. -/
def rawParts (s : List Char) : List (List Char) :=
  splitAtAll '/' (s.map (fun c => if c = '\\' then '/' else c))

/-- A path with its first slash taken away. -/
def withoutSlash (s : List Char) : List Char :=
  match s with
  | c :: rest => if isSlash true c then rest else s
  | [] => []

/-- The text of a path, and what follows it. -/
def pathText (s : List Char) : List Char × List Char :=
  let inside (c : Char) : Bool := c ≠ '?' && c ≠ '#'
  (s.takeWhile inside, s.dropWhile inside)

/-- Query and fragment. -/
def queryAndFragment (s : List Char) : Option (List Char) × Option (List Char) :=
  let fragmentOf (s : List Char) : Option (List Char) := match s with
    | '#' :: rest => some (Percent.encode Percent.notInFragment rest)
    | _ => none
  match s with
  | '?' :: rest =>
    (some (Percent.encode Percent.notInQuery (rest.takeWhile (· ≠ '#'))),
      fragmentOf (rest.dropWhile (· ≠ '#')))
  | _ => (none, fragmentOf s)

/-! ## Files -/

/-- A drive letter and what stands right behind it are two parts. -/
def splitDrive (parts : List (List Char)) : List (List Char) :=
  match parts with
  | (c :: d :: e :: more) :: rest =>
    if isDriveLetter [c, d] then [c, d] :: (e :: more) :: rest else parts
  | _ => parts

/-- Without the empty parts at the front of a path. -/
def withoutEmptyFront : List (List Char) → List (List Char)
  | [] :: next :: rest => withoutEmptyFront (next :: rest)
  | parts => parts

/-- The address of a file with a host and the text behind it. -/
def fileAddress (host : Option Host) (s : List Char) : Address :=
  let (path, rest) := pathText s
  let parts := followParts true [] (splitDrive (rawParts (withoutSlash path)))
  let (query, fragment) := queryAndFragment rest
  let host := match parts with
    | first :: _ => if isDriveLetter first then none else host
    | [] => host
  ⟨"file", host, none, withoutEmptyFront parts, query, fragment⟩

/-- The address of a file whose host comes next; this computer needs no name. -/
def fileWithHost? (s : List Char) : Option Address :=
  let (hostText, rest) := authority true s
  if isDriveLetter hostText then some (fileAddress none s)
  else if hostText.isEmpty then some (fileAddress none rest)
  else
    match Host.ofChars? hostText with
    | none => none
    | some host =>
      some (fileAddress (if host = .domain "localhost".toList then none else some host) rest)

/-- The address of a file, after the colon. -/
def file? (s : List Char) : Option Address :=
  match s with
  | a :: b :: rest =>
    if isSlash true a && isSlash true b then fileWithHost? rest else some (fileAddress none s)
  | _ => some (fileAddress none s)

/-! ## All schemes -/

/-- A web address, after the colon. -/
def web? (scheme : String) (own : Nat) (s : List Char) : Option Address := do
  let (place, rest) := authority true (s.dropWhile (isSlash true))
  let (host, port) ← webAuthority? own place
  let (path, rest) := pathText rest
  let (query, fragment) := queryAndFragment rest
  some ⟨scheme, some host, port, followParts false [] (rawParts (withoutSlash path)),
    query, fragment⟩

/-- Whether the text after the colon is right for a scheme that is not known. -/
def isOther (s : List Char) : Bool :=
  match s with
  | '/' :: '/' :: rest =>
    isOtherAuthority (authority false rest).2.isEmpty (authority false rest).1
  | _ => true

/-- Read a text as a URL. -/
def ofChars? (s : List Char) : Option Url := do
  let (scheme, rest) ← scheme? (counted s)
  if scheme = "file" then (file? rest).map .file
  else
    match webSchemes.find? (fun p => p.1 = scheme) with
    | some (_, own) => (web? scheme own rest).map .web
    | none => if isOther rest then some (.other scheme) else none

/-- The scheme of a URL. -/
def scheme : Url → String
  | .web address => address.scheme
  | .file address => address.scheme
  | .other scheme => scheme

end Url

namespace Address

/-- The path of an address with its slashes. -/
def pathChars (a : Address) : List Char :=
  a.path.flatMap (fun part => '/' :: part)

/-- The normal form of an address. -/
def text (a : Address) : String :=
  let host := match a.host with
    | some host => host.chars
    | none => []
  let port := match a.port with
    | some n => ':' :: Decimal.digitChars n
    | none => []
  let after (mark : Char) (part : Option (List Char)) : List Char := match part with
    | some chars => mark :: chars
    | none => []
  a.scheme ++ "://" ++ String.ofList
    (host ++ port ++ a.pathChars ++ after '?' a.query ++ after '#' a.fragment)

/-- Whether a path ends in a bare drive letter. -/
def endsInDrive (path : Bytes) : Bool :=
  match path.reverse with
  | d :: c :: _ :: _ =>
    (d = 0x3A || d = 0x7C) && ((0x41 ≤ c && c ≤ 0x5A) || (0x61 ≤ c && c ≤ 0x7A))
  | _ => false

/-- The path of a file on this computer: its parts decoded, with a slash behind
    a drive letter at its end. -/
def filePath? (a : Address) : Option Bytes :=
  match a.host with
  | some _ => none
  | none =>
    let path := a.path.flatMap (fun part =>
      0x2F :: Percent.decode (Utf8.encode (String.ofList part)))
    some (if endsInDrive path then path ++ [0x2F] else path)

end Address
end PhaseHost
