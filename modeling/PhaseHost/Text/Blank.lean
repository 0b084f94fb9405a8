/-! # Blank space

    The characters with the Unicode property White_Space, the trimming that
    uses them, and the cutting of a text into lines. -/

namespace PhaseHost.Text

/-- Unicode's White_Space property. -/
def isBlank (c : Char) : Bool :=
  (0x09 ≤ c.toNat && c.toNat ≤ 0x0D) || c.toNat = 0x20 || c.toNat = 0x85 || c.toNat = 0xA0
    || c.toNat = 0x1680 || (0x2000 ≤ c.toNat && c.toNat ≤ 0x200A)
    || c.toNat = 0x2028 || c.toNat = 0x2029 || c.toNat = 0x202F || c.toNat = 0x205F
    || c.toNat = 0x3000

/-- Without the characters of a class at its end. -/
def dropEnd (p : Char → Bool) (s : List Char) : List Char :=
  (s.reverse.dropWhile p).reverse

/-- Without the blanks at both ends. -/
def trimChars (s : List Char) : List Char :=
  dropEnd isBlank (s.dropWhile isBlank)

/-- A text without the blanks at both ends. -/
def trim (s : String) : String :=
  String.ofList (trimChars s.toList)

/-- Cut at every line feed; `line` holds the current line, newest character first. -/
def cutLines (line : List Char) (done : List (List Char)) : List Char → List (List Char)
  | [] => (if line.isEmpty then done else line.reverse :: done).reverse
  | '\n' :: rest =>
    let ended := match line with
      | '\r' :: l => l.reverse
      | l => l.reverse
    cutLines [] (ended :: done) rest
  | c :: rest => cutLines (c :: line) done rest

/-- The lines of a text.  A line ends at a line feed, together with a carriage
    return before it; the end of the text ends a line that has characters. -/
def lines (s : String) : List String :=
  (cutLines [] [] s.toList).map String.ofList

/-- The part before and the part after the first occurrence of a character. -/
def splitAtFirst? (mark : Char) (s : String) : Option (String × String) :=
  let before := s.toList.takeWhile (· != mark)
  match s.toList.dropWhile (· != mark) with
  | [] => none
  | _ :: after => some (String.ofList before, String.ofList after)

/-- The text that remains after a given start. -/
def afterStart? (start s : String) : Option String :=
  if start.toList.isPrefixOf s.toList then
    some (String.ofList (s.toList.drop start.length))
  else none

/-- The text that remains before a given end. -/
def beforeEnd? (ending s : String) : Option String :=
  if ending.toList.isSuffixOf s.toList then
    some (String.ofList (s.toList.take (s.length - ending.length)))
  else none

/-- Whether a text occurs in another. -/
def occursIn (needle : List Char) : List Char → Bool
  | [] => needle.isEmpty
  | c :: rest => needle.isPrefixOf (c :: rest) || occursIn needle rest

end PhaseHost.Text
