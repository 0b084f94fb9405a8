import PhaseHost.Fetch.Location
import PhaseHost.Fetch.Status

/-! # Fetching module bytes

    Bytes come from a file or from a web server, and there may not be more of
    them than a limit.  A server may announce a length; whether it does or not,
    a body is given up as soon as it exceeds the limit. -/

namespace PhaseHost

/-- What a web server answers, redirects followed and encodings undone. -/
structure WebResponse where
  status : Nat
  /-- The announced length of the body. -/
  length : Option Nat
  /-- The pieces of the body, as they come in. -/
  pieces : List Bytes
  /-- Why the body breaks off after the pieces, if it does. -/
  broken : Option String
  deriving DecidableEq, Repr

/-- The web, as far as it answers requests: a response, or why there is none. -/
abbrev Web := Address → Except String WebResponse

/-- A web in which no server can be reached. -/
def Web.unreachable : Web := fun address =>
  .error ("error sending request for url (" ++ address.text ++ ")")

/-- The text for a module of known size that is too large. -/
def tooLarge (size limit : Nat) : String :=
  "module is " ++ toString size ++ " bytes, limit is " ++ toString limit

namespace WebResponse

/-- Collect the pieces of a body, within a limit. -/
def collect (limit : Nat) (broken : Option String) (taken : Bytes) :
    List Bytes → Except String Bytes
  | [] =>
    match broken with
    | none => .ok taken
    | some reason => .error ("read body: " ++ reason)
  | piece :: rest =>
    if limit < taken.length + piece.length then
      .error ("module exceeds limit of " ++ toString limit ++ " bytes")
    else collect limit broken (taken ++ piece) rest

/-- The body of a successful response within a limit. -/
def body (r : WebResponse) (limit : Nat) : Except String Bytes :=
  if r.status < 200 ∨ 300 ≤ r.status then .error ("http status " ++ statusText r.status)
  else
    match r.length with
    | some length =>
      if limit < length then .error (tooLarge length limit)
      else collect limit r.broken [] r.pieces
    | none => collect limit r.broken [] r.pieces

end WebResponse

/-- The size that a directory is taken to have. -/
def directorySize : Nat := 4096

/-- The size of a thing on a disk. -/
def Node.size (n : Node) : Nat :=
  match n.content? with
  | some content => content.length
  | none => directorySize

/-- The bytes of what was found at a path, within a limit. -/
def bytesWithin (limit : Nat) (path : Path) (found : Except DiskError Node) :
    Except String Bytes :=
  match found with
  | .error e => .error ("stat " ++ path.shown ++ ": " ++ e.message)
  | .ok node =>
    if limit < node.size then .error (tooLarge node.size limit)
    else
      match node.content? with
      | some content => .ok content
      | none => .error ("read " ++ path.shown ++ ": " ++ DiskError.isDirectory.message)

/-- Read a file within a limit. -/
def fetchFile (d : Disk) (current : Place) (limit : Nat) (path : Path) : Except String Bytes :=
  bytesWithin limit path (d.look current path)

/-- Get a module from the web within a limit. -/
def fetchWeb (web : Web) (limit : Nat) (address : Address) : Except String Bytes :=
  match web address with
  | .error reason => .error ("request failed: " ++ reason)
  | .ok response => response.body limit

/-- Fetch the bytes at a location, or tell why they cannot be had. -/
def fetch (web : Web) (d : Disk) (current : Place) (limit : Nat) (location : String) :
    Except String Bytes :=
  match ModuleSource.ofLocation location with
  | .error reason => .error reason
  | .ok (.web address) => fetchWeb web limit address
  | .ok (.file path) => fetchFile d current limit path

end PhaseHost
