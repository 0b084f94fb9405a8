import PhaseHost.Disk.Node
import PhaseHost.Disk.Path

/-! # Disks

    A disk maps places to what lies there.  A place is the list of names on the
    way from the root, which is always a directory.

    A path is walked part by part from the directory it starts in: `..` goes
    back up, `.` and nothing stay, and every other part goes down.  Each step
    needs a directory to stand in, so a slash behind a file is an error. -/

namespace PhaseHost

/-- The name of one thing in a directory. -/
abbrev Name := Bytes

/-- The names on the way from the root. -/
abbrev Place := List Name

/-- Everything on a disk, apart from the root. -/
structure Disk where
  nodes : List (Place × Node)
  deriving DecidableEq, Repr

/-- Why a path leads nowhere. -/
inductive DiskError where
  | noEntry
  | notDirectory
  | isDirectory
  | nameTooLong
  | nulByte
  deriving DecidableEq, Repr

/-- The wording of an error. -/
def DiskError.message : DiskError → String
  | .noEntry => "No such file or directory (os error 2)"
  | .notDirectory => "Not a directory (os error 20)"
  | .isDirectory => "Is a directory (os error 21)"
  | .nameTooLong => "File name too long (os error 36)"
  | .nulByte => "file name contained an unexpected NUL byte"

namespace Path

/-- Cut at every slash; `part` holds the current part, newest byte first. -/
def cut (part : Name) : Path → List Name
  | [] => [part.reverse]
  | b :: rest => if b = slash then part.reverse :: cut [] rest else cut (b :: part) rest

/-- The parts between the slashes, empty ones included. -/
def parts (p : Path) : List Name :=
  cut [] p

/-- The part that stays in its directory. -/
def here : Name := [0x2E]

/-- The part that leads to the directory above. -/
def above : Name := [0x2E, 0x2E]

/-- The parts that lead somewhere. -/
def steps (p : Path) : List Name :=
  (parts p).filter (fun part => part ≠ [] ∧ part ≠ here)

/-- The length that a part may have. -/
def partMax : Nat := 255

/-- The length that a path may have. -/
def lengthMax : Nat := 4095

/-- Whether something can be called by a part: it is not the way up, not too long
    and has no zero byte. -/
def isName (part : Name) : Bool :=
  part ≠ above && decide (part.length ≤ partMax) && !part.contains 0

end Path

namespace Disk

/-- A disk with nothing on it. -/
def empty : Disk := ⟨[]⟩

/-- What lies at a place. -/
def find? (d : Disk) (place : Place) : Option Node :=
  if place.isEmpty then some .directory
  else (d.nodes.find? (fun n => n.1 = place)).map Prod.snd

/-- Put something at a place. -/
def set (d : Disk) (place : Place) (node : Node) : Disk :=
  ⟨(place, node) :: d.nodes.filter (fun n => n.1 ≠ place)⟩

/-- Remove a place and all below it. -/
def remove (d : Disk) (place : Place) : Disk :=
  ⟨d.nodes.filter (fun n => !place.isPrefixOf n.1)⟩

/-- Walk down from a place. -/
def walk (d : Disk) (place : Place) : List Name → Except DiskError Place
  | [] => .ok place
  | part :: rest =>
    match d.find? place with
    | none => .error .noEntry
    | some .directory =>
      if part = [] ∨ part = Path.here then walk d place rest
      else if part = Path.above then walk d place.dropLast rest
      else if Path.partMax < part.length then .error .nameTooLong
      else walk d (place ++ [part]) rest
    | some _ => .error .notDirectory

/-- The place a path leads to from a directory, whether or not something lies there. -/
def resolve (d : Disk) (current : Place) (p : Path) : Except DiskError Place :=
  if p.isEmpty then .error .noEntry
  else if (0 : UInt8) ∈ p then .error .nulByte
  else if Path.lengthMax < p.length then .error .nameTooLong
  else d.walk (if p.isAbsolute then [] else current) p.parts

/-- What a path leads to. -/
def look (d : Disk) (current : Place) (p : Path) : Except DiskError Node := do
  let place ← d.resolve current p
  match d.find? place with
  | some node => .ok node
  | none => .error .noEntry

/-- Remove what a path leads to, with all below it. -/
def removePath (d : Disk) (current : Place) (p : Path) : Disk :=
  match d.resolve current p with
  | .ok place => d.remove place
  | .error _ => d

/-- The bytes a path leads to. -/
def read (d : Disk) (current : Place) (p : Path) : Except DiskError Bytes := do
  match (← d.look current p).content? with
  | some content => .ok content
  | none => .error .isDirectory

/-- Walk down from a place and make the directories that are missing; the disk
    keeps those that were made before a step failed. -/
def makeDirs (d : Disk) (place : Place) : List Name → Disk × Option Place
  | [] => (d, some place)
  | part :: rest =>
    if part = Path.above then makeDirs d place.dropLast rest
    else if Path.isName part then
      match d.find? (place ++ [part]) with
      | none => makeDirs (d.set (place ++ [part]) .directory) (place ++ [part]) rest
      | some .directory => makeDirs d (place ++ [part]) rest
      | some _ => (d, none)
    else (d, none)

/-- Where a path starts and the parts that lead somewhere. -/
def start (current : Place) (p : Path) : Place × List Name :=
  (if p.isAbsolute then [] else current, p.steps)

/-- Put something at the end of a path, with the directories on the way. -/
def put (d : Disk) (current : Place) (p : Path) (node : Node) : Disk :=
  let (origin, steps) := start current p
  match steps.getLast?, d.makeDirs origin steps.dropLast with
  | some name, (d, some place) => d.set (place ++ [name]) node
  | _, (d, _) => d

end Disk
end PhaseHost
