import PhaseHost.Json.Record
import PhaseHost.Wire.Code

/-! # Replies

    One reply answers one frame, under the id of that frame.  A successful reply
    has a result, possibly `null`; a failed one has a text and a code. -/

namespace PhaseHost

/-- A reply as it stands on the wire. -/
structure Reply where
  id : UInt64
  success : Bool
  result : Option Json
  error : Option String
  code : Option String
  deriving DecidableEq, Repr

namespace Reply

/-- The fields on the wire.  A result of `null` is written but reads as absent. -/
def record : Record [UInt64, Bool, Option Json, Option String, Option String] :=
  .cons (.required "id" Json.toUInt64 (fun n => .ofNat n.toNat)) <|
  .cons (.required "success" Json.toBool Json.bool) <|
  .cons (.optional "result" Except.ok (fun v => v)) <|
  .cons (.optional "error" Json.toText Json.str) <|
  .cons (.optional "code" Json.toText Json.str) .nil

/-- The values of the fields. -/
def values (r : Reply) : Values [UInt64, Bool, Option Json, Option String, Option String] :=
  (r.id, r.success, r.result, r.error, r.code, ())

/-- The reply with given field values. -/
def ofValues : Values [UInt64, Bool, Option Json, Option String, Option String] → Reply
  | (id, success, result, error, code, ()) => ⟨id, success, result, error, code⟩

/-- Read a reply. -/
def ofJson (v : Json) : Decoded Reply :=
  (record.decode "Reply" v).map ofValues

/-- Write a reply. -/
def toJson (r : Reply) : Json :=
  record.encode r.values

/-- A successful reply. -/
def ok (id : UInt64) (result : Json) : Reply :=
  ⟨id, true, some result, none, none⟩

/-- A failed reply with any code. -/
def failed (id : UInt64) (code message : String) : Reply :=
  ⟨id, false, none, some message, some code⟩

/-- A failed reply of a known kind. -/
def failure (id : UInt64) (code : FailureCode) (message : String) : Reply :=
  failed id code.text message

end Reply
end PhaseHost
