import Interaction.Service.Basic

/-!
# Exchanges with a service

An exchange is a request together with the service that it comes to, and so it determines the
response and what becomes of the service. A request is dealt with by the endpoint that its path
names if its method is allowed there, and by no endpoint otherwise. Endpoints that take a body
answer in full, since they may not be asked for the head of a response alone.
-/

namespace Interaction

namespace Service

/-- The endpoint that deals with a request. -/
def Request.endpoint? (request : Request) : Option Endpoint :=
  if request.method = .options then none
  else (Endpoint.ofPath? request.path).filter fun endpoint => endpoint.allows request.method

/-- A request as it comes to a service. -/
structure Exchange where
  service : Service
  conditions : Conditions
  request : Request

namespace Exchange

def response (exchange : Exchange) : Response :=
  (exchange.service.respond exchange.conditions exchange.request).1

/-- The service after the exchange. -/
def after (exchange : Exchange) : Service :=
  (exchange.service.respond exchange.conditions exchange.request).2

/-- What the endpoint makes of the request. -/
def answer (exchange : Exchange) (endpoint : Endpoint) : Response × Counters :=
  exchange.service.answer exchange.conditions exchange.request endpoint

variable {exchange : Exchange} {endpoint : Endpoint}

/-- A request that no endpoint deals with leaves the service as it is. -/
theorem after_of_endpoint?_none (h : exchange.request.endpoint? = none) :
    exchange.after = exchange.service := by
  rw [after, respond]
  rw [Request.endpoint?] at h
  split at h
  next hoptions => rw [if_pos hoptions]
  next hoptions =>
    rw [if_neg hoptions]
    cases hpath : Endpoint.ofPath? exchange.request.path with
    | none => rfl
    | some endpoint =>
        rw [hpath, Option.filter_some] at h
        split at h
        next => cases h
        next hallows =>
          simp only [Bool.not_eq_true] at hallows
          simp only [hallows, Bool.false_eq_true, if_false]

/-- How a request is answered that an endpoint deals with. -/
theorem respond_of_endpoint? (h : exchange.request.endpoint? = some endpoint) :
    endpoint.allows exchange.request.method = true ∧
      exchange.response = (if exchange.request.method = .head
        then ⟨(exchange.answer endpoint).1.status, .empty⟩ else (exchange.answer endpoint).1) ∧
      exchange.after = { exchange.service with counters := (exchange.answer endpoint).2 } := by
  rw [response, after, respond]
  rw [Request.endpoint?] at h
  split at h
  next => cases h
  next hoptions =>
    obtain ⟨hpath, hallows⟩ := Option.filter_eq_some_iff.1 h
    simp only [hoptions, if_false, hpath, hallows, if_true]
    exact ⟨trivial, rfl, rfl⟩

theorem after_of_endpoint? (h : exchange.request.endpoint? = some endpoint) :
    exchange.after = { exchange.service with counters := (exchange.answer endpoint).2 } :=
  (respond_of_endpoint? h).2.2

/-- An endpoint that takes a body answers in full. -/
theorem response_of_takesBody (h : exchange.request.endpoint? = some endpoint)
    (hbody : endpoint.takesBody = true) : exchange.response = (exchange.answer endpoint).1 := by
  obtain ⟨hallows, hresponse, -⟩ := respond_of_endpoint? h
  have hpost : exchange.request.method = .post := by
    simpa [Endpoint.allows, hbody] using hallows
  rw [hresponse, if_neg (by rw [hpost]; decide)]

/-- An exchange changes nothing but the counters. -/
theorem after_eq (exchange : Exchange) :
    exchange.after = { exchange.service with counters := exchange.after.counters } := by
  cases h : exchange.request.endpoint? with
  | none => rw [after_of_endpoint?_none h]
  | some endpoint => rw [after_of_endpoint? h]

end Exchange

/-- A member of the object that is sent. -/
def Response.member? (response : Response) (name : String) : Option Json :=
  match response.content with
  | .json (.object members) => members.lookup name
  | _ => none

def Response.text? (response : Response) (name : String) : Option String :=
  match response.member? name with
  | some (.string text) => some text
  | _ => none

def Response.flag? (response : Response) (name : String) : Option Bool :=
  match response.member? name with
  | some (.bool flag) => some flag
  | _ => none

/-- A rejection never has the status of success. -/
theorem Rejection.status_ne_ok (rejection : Rejection) : rejection.response.status ≠ .ok := by
  cases rejection with
  | failure cause => cases cause <;> exact nofun
  | _ => exact nofun

/-- The response with a verdict. -/
def verdictResponse (verdict : Verdict) : Response :=
  ⟨.ok, .json (verdictJson verdict)⟩

theorem flag?_verdictResponse (verdict : Verdict) :
    (verdictResponse verdict).flag? "valid" = some verdict.isValid := rfl

end Service

end Interaction
