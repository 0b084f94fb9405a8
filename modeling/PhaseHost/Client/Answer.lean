import PhaseHost.Wire.Diagnostic
import PhaseHost.Wire.Frame
import PhaseHost.Wire.Reply

/-! # What a call ends with

    A call ends with the value of a reply or with an error.  A typed call
    further reads the value as the kind of answer that its action has. -/

namespace PhaseHost

/-- Why a call has no answer. -/
inductive CallError where
  /-- The host answered with a failure. -/
  | remote (code : Option String) (message : String)
  /-- The channels to the host are gone. -/
  | disconnected
  /-- The request could not be written. -/
  | encode (text : String)
  /-- The answer could not be read. -/
  | decode (text : String)
  deriving DecidableEq, Repr

namespace CallError

/-- The wording of the error. -/
def message : CallError → String
  | .remote _ message => message
  | .disconnected => "host disconnected"
  | .encode text => "encode request: " ++ text
  | .decode text => "decode result: " ++ text

/-- The code a host gave. -/
def code? : CallError → Option String
  | .remote code _ => code
  | _ => none

/-- Whether the host is not ready for the action yet. -/
def isNotReady (e : CallError) : Bool :=
  e.code? = some FailureCode.notReady.text

/-- What a host's failure says about the place of the error. -/
def diagnostic? : CallError → Option Diagnostic
  | .remote _ message => some (Diagnostic.ofText message)
  | _ => none

end CallError

/-- The value of a reply, or an error. -/
abbrev Outcome := Except CallError Json

/-- The outcome that a reply stands for. -/
def Reply.outcome (r : Reply) : Outcome :=
  if r.success then .ok (Json.orNull r.result)
  else .error (.remote r.code (r.error.getD ""))

/-- The answers of typed calls. -/
inductive Answer where
  | init (outcome : InitOutcome)
  | text (s : String)
  | truth (b : Bool)
  | symbols (list : List Symbol)
  deriving DecidableEq, Repr

namespace Answer

/-- Read the answer to an action. -/
def ofJson (action : Action) (v : Json) : Decoded Answer :=
  match action with
  | .init _ => (InitOutcome.ofJson v).map .init
  | .validate _ => (Json.toBool v).map .truth
  | .getSymbols _ => (Symbol.listOfJson v).map .symbols
  | .unify _ => (Json.toText v).map .text
  | .format _ => (Json.toText v).map .text
  | .parse _ => (Json.toText v).map .text
  | .exportAs _ => (Json.toText v).map .text

/-- Write an answer. -/
def toJson : Answer → Json
  | .init outcome => outcome.toJson
  | .text s => .str s
  | .truth b => .bool b
  | .symbols list => Symbol.listToJson list

/-- What a typed call makes of an outcome. -/
def ofOutcome (action : Action) : Outcome → Except CallError Answer
  | .ok v => (ofJson action v).mapError (fun e => .decode e.message)
  | .error e => .error e

end Answer
end PhaseHost
