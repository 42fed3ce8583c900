import Interaction.Build.Basic
import Interaction.Json.Sorted
import Interaction.Service.Counters
import Interaction.Service.Request
import Interaction.Service.Response
import Interaction.Template.Verdict
import Interaction.Template.Written

/-!
# The service

A service answers requests with a builder: it builds templates, verifies them, makes the code that
runs on a network, and tells what its registry holds. Apart from its counters it keeps nothing
between requests. A build counts once its body and the earlier template in it have been accepted,
and a verification once it has a verdict.
-/

namespace Interaction

/-- A builder with counters of what it was used for. -/
structure Service where
  builder : Builder
  counters : Service.Counters := {}

namespace Service

def version : String := "1.0.0"

/-- What a decoder makes of the body of a request. The length of the body is looked at before
anything in it. -/
def Request.read {α : Type} (request : Request) (decoder : Json.Decoder α) : Except Rejection α :=
  if !request.isJson then .error .undeclaredBody
  else if !request.body.fits then .error .oversizedBody
  else
    match decoder.runFront (Utf8.symbols request.body.bytes) with
    | .ok value => .ok value
    | .error problem => .error (if problem.isOfText then .unreadableBody else .unsuitableBody)

def templateOf (document : Json) : Except Rejection Template :=
  (Template.parseText document.sorted.compress).mapError .unreadableTemplate

/-- What is asked of `generate`: a source and perhaps an earlier template. -/
def readOrder (request : Request) : Except Rejection (String × Option Template) := do
  let body ← request.read GenerateBody.decode
  match body.earlier with
  | none => return (body.code, none)
  | some document =>
    let earlier ← templateOf document
    return (body.code, some earlier)

def generate (service : Service) (conditions : Conditions) (request : Request) :
    Except Rejection Json × Counters :=
  match readOrder request with
  | .error rejection => (.error rejection, service.counters)
  | .ok (code, earlier) =>
    let session : Session := { context := service.builder.config.context }
    match (service.builder.build conditions session code earlier).1 with
    | .ok template => (.ok template.toJson.sorted, service.counters.countBuild true)
    | .error cause => (.error (.failure cause), service.counters.countBuild false)

def verdictJson (verdict : Verdict) : Json :=
  .object [("id", .string verdict.id), ("id_valid", .bool verdict.isIdValid),
    ("network_pins", .array (verdict.pins.map fun pin =>
      .object [("network", .string pin.1), ("valid", .bool pin.2)])),
    ("valid", .bool verdict.isValid)]

/-- The verdict on the template of a request. -/
def judge (request : Request) : Except Rejection Verdict := do
  let body ← request.read VerifyBody.decode
  let template ← templateOf body.template
  template.verdict.mapError .failure

def verify (service : Service) (request : Request) : Except Rejection Json × Counters :=
  match judge request with
  | .error rejection => (.error rejection, service.counters)
  | .ok verdict => (.ok (verdictJson verdict), service.counters.countVerification verdict.isValid)

def source (request : Request) : Except Rejection Json := do
  let body ← request.read SourceBody.decode
  let template ← templateOf body.template
  let code ← (template.view.executable body.network).mapError .failure
  let pin ← (template.view.networkPin body.network).mapError .failure
  return .object [("network", .string body.network), ("pin_self", .string pin.digest),
    ("source", .string code)]

def contractsJson (registry : Registry) : Json :=
  .object [("contracts",
    Json.table (fun networks => Json.table .string networks.entries) registry.addresses.entries)]

/-- The response with a value, or to a rejection. -/
def Response.ofResult : Except Rejection Json → Response
  | .ok value => ⟨.ok, .json value⟩
  | .error rejection => rejection.response

/-- Answers a request to an endpoint that may be asked so. -/
def answer (service : Service) (conditions : Conditions) (request : Request) :
    Endpoint → Response × Counters
  | .generate =>
    let found := service.generate conditions request
    (.ofResult found.1, found.2)
  | .verify =>
    let found := service.verify request
    (.ofResult found.1, found.2)
  | .source => (.ofResult (source request), service.counters)
  | .contracts => (⟨.ok, .json (contractsJson service.builder.registry)⟩, service.counters)
  | .health =>
    (⟨.ok, .json (.object [("status", .string "ok"), ("version", .string version)])⟩,
      service.counters)
  | .metrics =>
    (⟨.ok, .text (service.counters.report service.builder.config.format)⟩, service.counters)

/-- Answers a request. Whoever asks what would be allowed may do everything, whatever the path. -/
def respond (service : Service) (conditions : Conditions) (request : Request) :
    Response × Service :=
  if request.method = .options then (⟨.ok, .empty⟩, service)
  else
    match Endpoint.ofPath? request.path with
    | none => (Rejection.noEndpoint.response, service)
    | some endpoint =>
      if endpoint.allows request.method then
        let found := service.answer conditions request endpoint
        (if request.method = .head then ⟨found.1.status, .empty⟩ else found.1,
          { service with counters := found.2 })
      else (Rejection.methodNotAllowed.response, service)

end Service

end Interaction
