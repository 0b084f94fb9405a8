import PhaseHost.Text.Utf8

/-! # Paths

    A path is a byte sequence with `/` between its parts.  Only joining needs
    care: an absolute name replaces the directory, and no second slash is put
    after one that is there. -/

namespace PhaseHost

/-- A path as it is written. -/
abbrev Path := Bytes

namespace Path

/-- The byte between the parts of a path. -/
def slash : UInt8 := 0x2F

/-- Whether a path starts at the root. -/
def isAbsolute (p : Path) : Bool :=
  p.head? = some slash

/-- A name within a directory. -/
def join (dir name : Path) : Path :=
  if isAbsolute name then name
  else if dir.isEmpty || dir.getLast? = some slash then dir ++ name
  else dir ++ slash :: name

/-- A path as messages show it. -/
def shown (p : Path) : String :=
  Utf8.lossy p

/-- A path from a text. -/
def ofText (s : String) : Path :=
  Utf8.encode s

end Path
end PhaseHost
