import PhaseHost.Disk.Basic
import PhaseHost.Url.Basic

/-! # Locations of modules

    A location is a web address, the URL of a file, or a plain path.  Whatever is
    no URL is a plain path, and so is a URL whose scheme is one letter: that is
    a path on a drive. -/

namespace PhaseHost

/-- Where a module comes from. -/
inductive ModuleSource where
  | web (address : Address)
  | file (path : Path)
  deriving DecidableEq, Repr

/-- The source that a location stands for, or why there is none. -/
def ModuleSource.ofLocation (location : String) : Except String ModuleSource :=
  let plain := ModuleSource.file (Path.ofText location)
  match Url.ofChars? location.toList with
  | none => .ok plain
  | some (.file address) =>
    match address.filePath? with
    | some path => .ok (.file path)
    | none => .error ("unsupported file url: " ++ location)
  | some url =>
    match url with
    | .web address =>
      if url.scheme = "http" ∨ url.scheme = "https" then .ok (.web address)
      else .error ("unsupported scheme: " ++ url.scheme)
    | _ =>
      if url.scheme.length = 1 then .ok plain
      else .error ("unsupported scheme: " ++ url.scheme)

end PhaseHost
