import PhaseHost.Client.Basic
import PhaseHost.Text.Blank

/-! # Workspaces

    A workspace holds the files to evaluate together: contents by path, and the
    paths that evaluation starts from, in the order they were first named.

    Every path is brought into one form before it is used, with a slash in
    front and none at the end. -/

namespace PhaseHost

/-- The files of a project. -/
structure Workspace where
  files : Overlay
  entryPoints : List String
  moduleName : Option String
  deriving DecidableEq, Repr

/-- Why an operation on a workspace fails. -/
inductive WorkspaceError where
  | emptyPath
  | notFound (path : String)
  | call (error : CallError)
  deriving DecidableEq, Repr

/-- The wording of an error. -/
def WorkspaceError.message : WorkspaceError → String
  | .emptyPath => "invalid path: path must be a non-empty string"
  | .notFound path => "file not found: " ++ path
  | .call error => error.message

/-- What a check of a file's syntax finds. -/
structure SyntaxReport where
  valid : Bool
  error : Option Diagnostic
  deriving DecidableEq, Repr

namespace Workspace

/-- A workspace without files. -/
def empty : Workspace := ⟨.empty, [], none⟩

/-- The one form of a path. -/
def normalize (path : String) : String :=
  match Text.dropEnd (· = '/') path.toList with
  | '/' :: rest => String.ofList ('/' :: rest)
  | chars => String.ofList ('/' :: chars)

/-- Write a file. -/
def addFile (w : Workspace) (path content : String) (isEntry : Bool) :
    Except WorkspaceError Workspace :=
  if (Text.trim path).isEmpty then .error .emptyPath
  else
    let path := normalize path
    .ok { w with
      files := w.files.insert path content
      entryPoints :=
        if isEntry ∧ path ∉ w.entryPoints then w.entryPoints ++ [path] else w.entryPoints }

/-- Remove a file; the flag says whether it was there. -/
def removeFile (w : Workspace) (path : String) : Bool × Workspace :=
  let path := normalize path
  (w.files.contains path,
    { w with
      files := w.files.erase path
      entryPoints := w.entryPoints.filter (· ≠ path) })

/-- The content of a file. -/
def file? (w : Workspace) (path : String) : Option String :=
  w.files.find? (normalize path)

/-- The path of the file that names the module. -/
def moduleFile : String := "/cue.mod/module.cue"

/-- The language version of a module that names none. -/
def defaultLanguage : String := "v0.12.0"

/-- The content of the file that names the module. -/
def moduleText (name language : String) : String :=
  "module: \"" ++ name ++ "\"\nlanguage: version: \"" ++ language ++ "\""

/-- Name the module. -/
def setModule (w : Workspace) (name : String) (language : Option String) : Workspace :=
  { w with
    files := w.files.insert moduleFile (moduleText name (language.getD defaultLanguage))
    moduleName := some name }

/-- The request that evaluates all files. -/
def unifyAction (w : Workspace) (tags : List String) : Action :=
  .unify ⟨w.files, w.entryPoints, tags⟩

/-- The request that checks the syntax of a file. -/
def syntaxAction (w : Workspace) (path : String) : Except WorkspaceError Action :=
  match w.file? path with
  | some content => .ok (.parse ⟨content⟩)
  | none => .error (.notFound path)

end Workspace

/-- The report that the end of a check stands for: what the engine rejects is
    invalid, and everything else that goes wrong is an error. -/
def SyntaxReport.ofAnswer : Except CallError Answer → Except WorkspaceError SyntaxReport
  | .ok _ => .ok ⟨true, none⟩
  | .error (.remote code message) =>
    if (CallError.remote code message).isNotReady then .error (.call (.remote code message))
    else .ok ⟨false, some (Diagnostic.ofText message)⟩
  | .error e => .error (.call e)

/-- Check the syntax of a file over a client of its own: the frames that are sent for it, and
    what comes of the check.  The host's reply to a request is given by `answer`; for a file
    that is not there, no request is made.  The workspace is only looked at. -/
def Workspace.checkSyntax (w : Workspace) (path : String) (answer : Json → Option Json) :
    List Json × Except WorkspaceError SyntaxReport :=
  match w.syntaxAction path with
  | .error e => ([], .error e)
  | .ok action =>
    let asked := (Client.empty.call action).start 0
    let (_, outcome) := Client.exchange action answer
    (asked.sent, SyntaxReport.ofAnswer (Answer.ofOutcome action outcome))

/-- What can be done to the files of a workspace. -/
inductive WorkspaceEdit where
  | add (path content : String) (isEntry : Bool)
  | remove (path : String)
  | setModule (name : String) (language : Option String)
  | clear
  deriving DecidableEq, Repr

/-- A workspace after an edit; an edit that fails changes nothing. -/
def Workspace.edit (w : Workspace) : WorkspaceEdit → Workspace
  | .add path content isEntry =>
    match w.addFile path content isEntry with
    | .ok w => w
    | .error _ => w
  | .remove path => (w.removeFile path).2
  | .setModule name language => w.setModule name language
  | .clear => .empty

end PhaseHost
