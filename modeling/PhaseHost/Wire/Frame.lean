import PhaseHost.Wire.Payload

/-! # Frames

    A frame asks for one action.  `Message.ofFrame` accepts every spelling of a
    frame, `Message.toFrame` writes its normal form: exactly the keys `id`,
    `action` and `payload`, with the payload as an object.

    A frame that cannot be accepted still gives its id if it has a usable one,
    so that its sender can be answered. -/

namespace PhaseHost

/-- The closed set of actions. -/
inductive Action where
  | init (payload : InitPayload)
  | unify (payload : UnifyPayload)
  | validate (payload : ValidatePayload)
  | format (payload : CodePayload)
  | parse (payload : CodePayload)
  | getSymbols (payload : CodePayload)
  | exportAs (payload : ExportPayload)
  deriving DecidableEq, Repr

namespace Action

/-- The name on the wire. -/
def name : Action → String
  | .init _ => "init"
  | .unify _ => "unify"
  | .validate _ => "validate"
  | .format _ => "format"
  | .parse _ => "parse"
  | .getSymbols _ => "getSymbols"
  | .exportAs _ => "export"

/-- The payload on the wire. -/
def payload : Action → Json
  | .init p => p.toJson
  | .unify p => p.toJson
  | .validate p => p.toJson
  | .format p => p.toJson
  | .parse p => p.toJson
  | .getSymbols p => p.toJson
  | .exportAs p => p.toJson

/-- What must be in place before an action may run. -/
def required : Action → Readiness
  | .init _ => .idle
  | .format _ => .readerOnly
  | .parse _ => .readerOnly
  | .getSymbols _ => .readerOnly
  | .unify _ => .full
  | .validate _ => .full
  | .exportAs _ => .full

end Action

/-- A request: an action under an id. -/
structure Message where
  id : UInt64
  action : Action
  deriving DecidableEq, Repr

/-- Why a frame cannot be accepted. -/
inductive FrameFault where
  | notObject
  | noId
  | noAction
  | unknownAction (name : String)
  | badPayload (action : String) (error : DecodeError)
  deriving DecidableEq, Repr

/-- The wording of a fault. -/
def FrameFault.message : FrameFault → String
  | .notObject => "frame must be a JSON object"
  | .noId => "frame is missing a numeric id"
  | .noAction => "frame is missing an action name"
  | .unknownAction name => "Unknown action: " ++ name
  | .badPayload action error => "invalid " ++ action ++ " payload: " ++ error.message

/-- A frame that cannot be accepted, with its id if it has one. -/
structure FrameError where
  id : Option UInt64
  fault : FrameFault
  deriving DecidableEq, Repr

namespace Action

/-- A payload of an action, or the fault of a frame with this payload. -/
def payloadFor {α : Type} (name : String) (decoded : Decoded α) : Except FrameFault α :=
  decoded.mapError (.badPayload name)

/-- The action of a name with a payload. -/
def ofPayload (name : String) (v : Json) : Except FrameFault Action :=
  match name with
  | "init" => (payloadFor name (InitPayload.ofJson v)).map .init
  | "unify" => (payloadFor name (UnifyPayload.ofJson v)).map .unify
  | "validate" => (payloadFor name (ValidatePayload.ofJson v)).map .validate
  | "format" => (payloadFor name (CodePayload.ofJson v)).map .format
  | "parse" => (payloadFor name (CodePayload.ofJson v)).map .parse
  | "getSymbols" => (payloadFor name (CodePayload.ofJson v)).map .getSymbols
  | "export" => (payloadFor name (ExportPayload.ofJson v)).map .exportAs
  | other => .error (.unknownAction other)

end Action

namespace Message

/-- The normal form of a request. -/
def toFrame (m : Message) : Json :=
  .ofPairs [("id", .ofNat m.id.toNat), ("action", .str m.action.name),
    ("payload", m.action.payload)]

/-- The action that the fields of a frame ask for; an absent payload is an empty object. -/
def actionOf (fields : List (String × Json)) : Except FrameFault Action :=
  match Fields.find? "action" fields with
  | some (.str name) => Action.ofPayload name ((Fields.find? "payload" fields).getD (.obj []))
  | _ => .error .noAction

/-- The usable id of a frame: an integer in `0 .. 2^64 - 1`. -/
def idOf (frame : Json) : Option UInt64 :=
  (frame.get? "id").bind Json.natural?

/-- The request of a frame.  A missing id is reported before a missing action,
    and that before a bad payload. -/
def ofFrame (frame : Json) : Except FrameError Message :=
  match frame with
  | .obj fields =>
    match idOf frame with
    | none => .error ⟨none, .noId⟩
    | some id =>
      match actionOf fields with
      | .ok action => .ok ⟨id, action⟩
      | .error fault => .error ⟨some id, fault⟩
  | _ => .error ⟨none, .notObject⟩

end Message
end PhaseHost
