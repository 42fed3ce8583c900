import Interaction.Template.Read

/-!
# Responses

A response is a status and a content. Whatever cannot be answered as asked is rejected with a
cause, which determines both.
-/

namespace Interaction

namespace Service

inductive Status where
  | ok
  | badRequest
  | notFound
  | methodNotAllowed
  | contentTooLarge
  | unsupportedMedia
  | unprocessable
  | badGateway
  | gatewayTimeout
  deriving DecidableEq, Repr

def Status.code : Status → Nat
  | ok => 200
  | badRequest => 400
  | notFound => 404
  | methodNotAllowed => 405
  | contentTooLarge => 413
  | unsupportedMedia => 415
  | unprocessable => 422
  | badGateway => 502
  | gatewayTimeout => 504

inductive Content where
  | empty
  | json (value : Json)
  | text (text : String)
  deriving Repr

structure Response where
  status : Status
  content : Content
  deriving Repr

/-- Why a request is not answered as asked. -/
inductive Rejection where
  | noEndpoint
  | methodNotAllowed
  | undeclaredBody
  | oversizedBody
  | unreadableBody
  /-- The body is JSON of another shape. -/
  | unsuitableBody
  | unreadableTemplate (cause : Template.Unreadable)
  /-- What was asked for cannot be made. -/
  | failure (cause : Failure)
  deriving DecidableEq, Repr

namespace Rejection

/-- The status of a failure: a chain that does not answer and a build that is over differ from what
lies with the request. -/
def statusOf : Failure → Status
  | .fetch _ _ _ _ => .badGateway
  | .cancelled => .gatewayTimeout
  | _ => .unprocessable

def status : Rejection → Status
  | noEndpoint => .notFound
  | methodNotAllowed => .methodNotAllowed
  | undeclaredBody => .unsupportedMedia
  | oversizedBody => .contentTooLarge
  | unreadableBody => .badRequest
  | unsuitableBody => .unprocessable
  | unreadableTemplate _ => .unprocessable
  | failure cause => statusOf cause

/-- An error that is reported as JSON. -/
def report (message : String) : Content :=
  .json (.object [("error", .string message)])

def content : Rejection → Content
  | noEndpoint => .empty
  | methodNotAllowed => .empty
  | undeclaredBody => .text "Expected request with `Content-Type: application/json`"
  | oversizedBody => .text "Failed to buffer the request body: length limit exceeded"
  | unreadableBody => .text "Failed to parse the request body as JSON"
  | unsuitableBody => .text "Failed to deserialize the JSON body into the target type"
  | unreadableTemplate cause => report cause.message
  | failure cause => report cause.message

def response (rejection : Rejection) : Response :=
  ⟨rejection.status, rejection.content⟩

end Rejection

end Service

end Interaction
