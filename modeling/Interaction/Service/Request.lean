import Interaction.Json.Decoder
import Interaction.Text.Utf8

/-!
# Requests

A request names an endpoint by its path and comes with a method and a body. The endpoints that take
a body take it as JSON, of which what follows the first value is not looked at. Only a body of at
most two mebibytes is looked at.
-/

namespace Interaction

namespace Service

/-- What a request asks to do. -/
inductive Method where
  | get
  | head
  | post
  /-- Asks what would be allowed. -/
  | options
  | other
  deriving DecidableEq, Repr

def Method.ofName (name : String) : Method :=
  if name = "GET" then get
  else if name = "HEAD" then head
  else if name = "POST" then post
  else if name = "OPTIONS" then options
  else other

/-- What the service offers. -/
inductive Endpoint where
  | generate
  | verify
  | source
  | contracts
  | health
  | metrics
  deriving DecidableEq, Repr

namespace Endpoint

def path : Endpoint → String
  | generate => "/v1/templates/generate"
  | verify => "/v1/templates/verify"
  | source => "/v1/templates/source"
  | contracts => "/v1/registry/contracts"
  | health => "/v1/health"
  | metrics => "/metrics"

def all : List Endpoint :=
  [generate, verify, source, contracts, health, metrics]

def ofPath? (path : String) : Option Endpoint :=
  all.find? fun endpoint => endpoint.path == path

def takesBody : Endpoint → Bool
  | generate => true
  | verify => true
  | source => true
  | _ => false

/-- Whether an endpoint may be asked by a method. -/
def allows (endpoint : Endpoint) (method : Method) : Bool :=
  if endpoint.takesBody then method == .post else method == .get || method == .head

end Endpoint

/-- What is sent along with a request. It need not be a text. -/
structure Body where
  bytes : List UInt8
  deriving DecidableEq, Repr

namespace Body

/-- A text is sent as its bytes. -/
instance : Coe String Body :=
  ⟨fun text => ⟨Utf8.ofText text⟩⟩

/-- How many bytes a body may have at most. -/
def limit : Nat := 2097152

/-- Whether a body is short enough to be looked at. -/
def fits (body : Body) : Bool :=
  body.bytes.length ≤ limit

end Body

structure Request where
  method : Method
  /-- The path, perhaps with a host before it and a query after it. -/
  target : String
  /-- Whether the body is declared to be JSON. -/
  isJson : Bool
  body : Body
  deriving DecidableEq, Repr

/-- The path of a request, which ends before a query and may be written behind a scheme and a
host. -/
def Request.path (request : Request) : String :=
  let whole := request.target.toList.takeWhile fun c => c != '?' && c != '#'
  String.ofList <|
    match whole with
    | '/' :: _ => whole
    | _ => ((whole.dropWhile fun c => c != ':').drop 3).dropWhile fun c => c != '/'

open Json.Decoder

structure GenerateBody where
  code : String
  /-- The document of an earlier template. -/
  earlier : Option Json := none

def GenerateBody.decode : Json.Decoder GenerateBody :=
  record "GenerateBody"
    [required "code" string fun v r => { r with code := v },
      defaulted "prefill" (nullable value) fun v r => { r with earlier := v }]
    { code := "" }

structure VerifyBody where
  template : Json

def VerifyBody.decode : Json.Decoder VerifyBody :=
  record "VerifyBody" [required "template" value fun v _ => ⟨v⟩] ⟨.null⟩

structure SourceBody where
  template : Json
  network : String

def SourceBody.decode : Json.Decoder SourceBody :=
  record "SourceBody"
    [required "template" value fun v r => { r with template := v },
      required "network" string fun v r => { r with network := v }]
    ⟨.null, ""⟩

end Service

end Interaction
