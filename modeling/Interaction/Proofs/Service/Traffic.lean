import Interaction.Proofs.Service.Exchange

/-!
# Counting the traffic

A service meets requests one after the other, each as the exchange before it has left the service.
What it counts is the traffic itself: a build for each order that was accepted, by whether it came
to a template, and a verification for each verdict that was sent, by what the verdict says. So after
any traffic, and hence at every point of it, the counters are the numbers of such exchanges.
-/

namespace Interaction

namespace Service

/-- The exchanges of a service with requests that come one after the other. -/
def exchanges (service : Service) : List (Conditions × Request) → List Exchange
  | [] => []
  | (conditions, request) :: traffic =>
    let exchange : Exchange := ⟨service, conditions, request⟩
    exchange :: exchange.after.exchanges traffic

/-- The service after these requests. -/
def through (service : Service) : List (Conditions × Request) → Service
  | [] => service
  | (conditions, request) :: traffic =>
    (Exchange.after ⟨service, conditions, request⟩).through traffic

namespace Exchange

/-- A template was asked for and sent. -/
def isBuilt (exchange : Exchange) : Bool :=
  exchange.request.endpoint? == some .generate && exchange.response.status == .ok

/-- A template was asked for with a body and an earlier template that were accepted, but its build
failed. -/
def isFailed (exchange : Exchange) : Bool :=
  exchange.request.endpoint? == some .generate &&
    match readOrder exchange.request with
    | .error _ => false
    | .ok (code, earlier) =>
      let builder := exchange.service.builder
      !(builder.build exchange.conditions { context := builder.config.context } code
        earlier).1.isOk

/-- A verdict was asked for and sent, and it says whether the template is valid. -/
def isJudged (isValid : Bool) (exchange : Exchange) : Bool :=
  exchange.request.endpoint? == some .verify && exchange.response.status == .ok &&
    exchange.response.flag? "valid" == some isValid

def isCounted (exchange : Exchange) : Bool :=
  exchange.isBuilt || exchange.isFailed || exchange.isJudged true || exchange.isJudged false

end Exchange

/-- How many exchanges there were of each kind. -/
def tally (seen : List Exchange) : Counters where
  built := seen.countP Exchange.isBuilt
  failed := seen.countP Exchange.isFailed
  valid := seen.countP (Exchange.isJudged true)
  invalid := seen.countP (Exchange.isJudged false)

/-- Counts on top of others. -/
def Counters.plus (counters more : Counters) : Counters where
  built := counters.built + more.built
  failed := counters.failed + more.failed
  valid := counters.valid + more.valid
  invalid := counters.invalid + more.invalid

theorem tally_cons (exchange : Exchange) (seen : List Exchange) :
    tally (exchange :: seen) = (tally [exchange]).plus (tally seen) := by
  simp only [tally, Counters.plus, List.countP_cons, List.countP_nil, Nat.zero_add, Nat.add_comm]

theorem Counters.empty_plus (counters : Counters) : Counters.plus {} counters = counters := by
  simp only [plus, Nat.zero_add]

theorem Counters.plus_assoc (a b c : Counters) : (a.plus b).plus c = a.plus (b.plus c) := by
  simp only [plus, Nat.add_assoc]

namespace Exchange

variable {exchange : Exchange}

/-- An order that was accepted counts as a build that came to a template or not. -/
theorem counters_of_generate (h : exchange.request.endpoint? = some .generate) :
    exchange.after.counters = exchange.service.counters.plus (tally [exchange]) := by
  have hresponse := response_of_takesBody h rfl
  rw [after_of_endpoint? h]
  simp only [tally, Counters.plus, List.countP_singleton, isBuilt, isFailed, isJudged, h, hresponse,
    answer, Service.answer, generate]
  cases readOrder exchange.request with
  | error rejection => simp [Response.ofResult, Rejection.status_ne_ok]
  | ok order =>
      obtain ⟨code, earlier⟩ := order
      cases hbuild : (exchange.service.builder.build exchange.conditions
          { context := exchange.service.builder.config.context } code earlier).1 with
      | error failure =>
          simp [hbuild, Response.ofResult, Rejection.status_ne_ok, Counters.countBuild, Except.isOk,
            Except.toBool]
      | ok t => simp [hbuild, Response.ofResult, Counters.countBuild, Except.isOk, Except.toBool]

/-- A verdict that is sent counts as what it says. -/
theorem counters_of_verify (h : exchange.request.endpoint? = some .verify) :
    exchange.after.counters = exchange.service.counters.plus (tally [exchange]) := by
  have hresponse := response_of_takesBody h rfl
  rw [after_of_endpoint? h]
  simp only [tally, Counters.plus, List.countP_singleton, isBuilt, isFailed, isJudged, h, hresponse,
    answer, Service.answer, verify]
  cases judge exchange.request with
  | error rejection => simp [Response.ofResult, Rejection.status_ne_ok]
  | ok verdict =>
      have hsent : Response.ofResult (.ok (verdictJson verdict)) = verdictResponse verdict := rfl
      have hok : (verdictResponse verdict).status = .ok := rfl
      simp only [hsent, hok, flag?_verdictResponse, Counters.countVerification]
      cases verdict.isValid <;> simp

/-- The other endpoints count nothing, nor does a request that no endpoint deals with. -/
theorem after_of_ne (hgenerate : exchange.request.endpoint? ≠ some .generate)
    (hverify : exchange.request.endpoint? ≠ some .verify) :
    exchange.after = exchange.service := by
  cases h : exchange.request.endpoint? with
  | none => exact after_of_endpoint?_none h
  | some endpoint =>
      rw [after_of_endpoint? h]
      cases endpoint with
      | generate => exact absurd h hgenerate
      | verify => exact absurd h hverify
      | source | contracts | health | metrics => rfl

/-- What one exchange adds to the counters. -/
theorem counters_after (exchange : Exchange) :
    exchange.after.counters = exchange.service.counters.plus (tally [exchange]) := by
  by_cases hgenerate : exchange.request.endpoint? = some .generate
  · exact counters_of_generate hgenerate
  · by_cases hverify : exchange.request.endpoint? = some .verify
    · exact counters_of_verify hverify
    · have hnone : tally [exchange] = {} := by
        simp [tally, isBuilt, isFailed, isJudged, hgenerate, hverify]
      rw [after_of_ne hgenerate hverify, hnone]
      rfl

/-- An exchange of none of the kinds that are counted leaves the service as it is. -/
theorem after_of_uncounted (h : exchange.isCounted = false) :
    exchange.after = exchange.service := by
  simp only [isCounted, Bool.or_eq_false_iff] at h
  obtain ⟨⟨⟨hbuilt, hfailed⟩, hvalid⟩, hinvalid⟩ := h
  have hnone : tally [exchange] = {} := by
    simp [tally, hbuilt, hfailed, hvalid, hinvalid]
  have hcounters : exchange.after.counters = exchange.service.counters := by
    rw [counters_after, hnone]
    rfl
  rw [after_eq, hcounters]

end Exchange

/-- Up to some point of the traffic there have been the exchanges with the requests up to there. -/
theorem exchanges_take (service : Service) (traffic : List (Conditions × Request)) (n : Nat) :
    service.exchanges (traffic.take n) = (service.exchanges traffic).take n := by
  induction traffic generalizing service n with
  | nil => rw [List.take_nil, exchanges, List.take_nil]
  | cons asked traffic ih =>
      cases n with
      | zero => rfl
      | succ n => rw [List.take_succ_cons, exchanges, exchanges, List.take_succ_cons, ih]

/-- What all the traffic adds to the counters. -/
theorem counters_through (service : Service) (traffic : List (Conditions × Request)) :
    (service.through traffic).counters =
      service.counters.plus (tally (service.exchanges traffic)) := by
  induction traffic generalizing service with
  | nil => rfl
  | cons asked traffic ih =>
      rw [through, exchanges, ih, Exchange.counters_after, Counters.plus_assoc, ← tally_cons]

/-- What is reported under the name of a family and the value of its label. -/
def total? (service : Service) (name value : String) : Option Nat := do
  let families := service.counters.families service.builder.config.format
  let family ← families.find? fun family => family.name == name
  let sample ← family.samples.find? fun sample => sample.value == value
  return sample.count

/-- The service has counted these exchanges. -/
structure Counts (service : Service) (seen : List Exchange) : Prop where
  built : service.total? "flix_builds_total" "ok" = some (seen.countP Exchange.isBuilt)
  failed : service.total? "flix_builds_total" "error" = some (seen.countP Exchange.isFailed)
  valid : service.total? "flix_verifications_total" "valid" =
    some (seen.countP (Exchange.isJudged true))
  invalid : service.total? "flix_verifications_total" "invalid" =
    some (seen.countP (Exchange.isJudged false))
  /-- Whoever asks for the metrics is sent the report of these numbers. -/
  reported : ∀ conditions request, request.endpoint? = some .metrics → request.method = .get →
    (service.respond conditions request).1 =
      ⟨.ok, .text ((tally seen).report service.builder.config.format)⟩

theorem Counts.of_counters {service : Service} {seen : List Exchange}
    (h : service.counters = tally seen) : Counts service seen where
  built := by rw [total?, h]; rfl
  failed := by rw [total?, h]; rfl
  valid := by rw [total?, h]; rfl
  invalid := by rw [total?, h]; rfl
  reported := by
    intro conditions request hendpoint hmethod
    have hresponse : Exchange.response ⟨service, conditions, request⟩ = _ :=
      (Exchange.respond_of_endpoint? hendpoint).2.1
    rw [hmethod, if_neg nofun] at hresponse
    rw [← h]
    exact hresponse

/-- The counters match the traffic. At every point the builds that are reported as successes are
the templates that have been sent, those reported as errors are the accepted orders whose builds
failed, and the verifications are the verdicts that have been sent, by what they say. No other
exchange changes the service. -/
theorem counters_match_traffic (builder : Builder) (traffic : List (Conditions × Request)) :
    (∀ n, Counts (through { builder := builder } (traffic.take n))
      ((exchanges { builder := builder } traffic).take n)) ∧
    ∀ exchange : Exchange, exchange.isCounted = true ∨ exchange.after = exchange.service := by
  constructor
  · intro n
    refine .of_counters ?_
    rw [counters_through, exchanges_take]
    exact Counters.empty_plus _
  · intro exchange
    cases h : exchange.isCounted with
    | true => exact .inl rfl
    | false => exact .inr (exchange.after_of_uncounted h)

end Service

end Interaction
