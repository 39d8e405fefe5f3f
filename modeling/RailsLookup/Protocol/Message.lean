import RailsLookup.Protocol.DocumentRange
import RailsLookup.Protocol.Params

/-! # Messages

What a client sends to a session and what comes back.
-/

namespace RailsLookup

/-- A message from a client. It is a request if it has an id. -/
structure Message where
  method : Text
  id? : Option Json := none
  params? : Option Json := none

inductive Refusal where
  | notInitialized
  | invalidRequest
  | unknownMethod (name : Text)
  | unservedMethod
  | unreadableParams
  | unknownCommand (name : Text)
  | badArguments
  | unreadableMessage

inductive Reply where
  | result (value : Json)
  | refusal (cause : Refusal)

inductive Announcement where
  | logged (message : Text)
  | shown (message : Text)
  deriving DecidableEq, Repr

def commandName : Text := "railsGoto.goToDefinition".toList

namespace Refusal

def code : Refusal → Int
  | notInitialized => -32002
  | invalidRequest => -32600
  | unknownMethod _ | unservedMethod => -32601
  | unreadableParams | unknownCommand _ | badArguments => -32602
  | unreadableMessage => -32700

def message : Refusal → Text
  | notInitialized => "Server not initialized".toList
  | invalidRequest => "Invalid request".toList
  | unknownMethod _ | unservedMethod => "Method not found".toList
  | unreadableParams => "Invalid params".toList
  | unknownCommand name => "unknown command: ".toList ++ name
  | badArguments => commandName ++ " expects [textDocumentPosition] or [uri, position]".toList
  | unreadableMessage => "Parse error".toList

def toJson (r : Refusal) : Json :=
  let data :=
    match r with
    | unknownMethod name => [("data", .str name)]
    | _ => []
  .mkObj ([("code", .int r.code), ("message", .str r.message)] ++ data)

end Refusal

namespace Reply

def toJson (id : Json) (r : Reply) : Json :=
  let body :=
    match r with
    | result value => ("result", value)
    | refusal cause => ("error", cause.toJson)
  .mkObj [("jsonrpc", .ofString "2.0"), body, ("id", id)]

end Reply

namespace Announcement

def method : Announcement → String
  | logged _ => "window/logMessage"
  | shown _ => "window/showMessage"

def message : Announcement → Text
  | logged m | shown m => m

/-- The parameters of the notification; every announcement is for information. -/
def params (a : Announcement) : Json :=
  .mkObj [("message", .str a.message), ("type", .ofNat 3)]

def toJson (a : Announcement) : Json :=
  .mkObj [("jsonrpc", .ofString "2.0"), ("method", .ofString a.method), ("params", a.params)]

end Announcement

namespace Message

def isId : Json → Bool
  | .int n => -0x8000000000000000 ≤ n && n < 0x8000000000000000
  | .str _ | .null => true
  | _ => false

def ofJson? (j : Json) : Option Message := do
  guard (((j.get? "jsonrpc").bind Json.text?) == some "2.0".toList)
  let id? := j.get? "id"
  guard (id?.all isId)
  let method ←
    match j.get? "method" with
    | some name => name.text?
    | none => some []
  return { method, id?, params? := j.get? "params" }

end Message

end RailsLookup
