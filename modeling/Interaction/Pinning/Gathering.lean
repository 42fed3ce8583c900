import Interaction.Chain
import Interaction.Digest
import Interaction.Pinning.Cache
import Interaction.Pinning.Session
import Interaction.Registry.Resolution
import Interaction.Source.Chunk

/-!
# Fetching contracts side by side

The contracts of one level of an import graph are fetched side by side, a limited number at a
time. They are asked for in their order, but the conditions decide in which order the answers
arrive. The first answer that is a failure ends the level, and contracts that were not asked for
by then never are.
-/

namespace Interaction

/-- Pins contracts on one network. -/
structure Engine where
  network : String
  chain : Chain
  registry : Registry
  /-- How many contracts may be fetched at a time; never none. -/
  limit : Nat := 8

structure Task where
  key : String
  answer : Except Failure Fetched
  /-- Whether the build is cancelled during this very fetch. -/
  isCancelling : Bool

namespace Engine

/-- What a contract imports, from its code. -/
def childrenOf (engine : Engine) (code : List Char) : Except Failure (List Site) :=
  (Import.distinct (Source.importsOf (String.ofList code))).mapM fun i =>
    (engine.registry.resolve i engine.network).map fun found => ⟨found.contract, found.address⟩

def read (engine : Engine) (site : Site) (code : List UInt8) : Except Failure Fetched :=
  match Utf8.decode code with
  | .error flaw => .error (.malformed (.notText site.name site.address flaw))
  | .ok text => (engine.childrenOf text).map fun children => ⟨site, Digest.ofBytes code, children⟩

/-- What the chain answers about a contract when nothing interferes. -/
def inspect (engine : Engine) (site : Site) : Except Failure Fetched := do
  let code ← engine.chain.fetch site.address site.name
  engine.read site code

/-- Starts to fetch a contract. A build that is over asks for nothing more. -/
def start (engine : Engine) (conditions : Conditions) (session : Session) (key : String)
    (site : Site) : Task × Session :=
  if session.context.isOver then (⟨key, .error .cancelled, false⟩, session.pass)
  else
    let asked := session.make conditions (.fetch engine.network site.address site.name)
    let answer :=
      if conditions.drops asked.calls then
        .error (.fetch site.name site.address engine.chain.network .accountUnavailable)
      else engine.inspect site
    (⟨key, answer, conditions.cancels asked.calls⟩, asked)

/-- The answer of a fetch as it arrives. A fetch that is still under way when the build is cancelled
is given up unless it is answered at once; the one during which that happens always is. -/
def Task.arrival (conditions : Conditions) (session : Session) (task : Task) :
    Except Failure Fetched :=
  if session.context.isOver && !task.isCancelling && !conditions.delivers session.moment then
    .error .cancelled
  else task.answer

/-- Which fetch is answered next, none if another is started first. -/
def choose (engine : Engine) (conditions : Conditions) (session : Session)
    (waiting underWay : Nat) : Option Nat :=
  if underWay = 0 then none
  else
    match conditions.answers session.moment underWay with
    | some i => some (i % underWay)
    | none => if waiting = 0 ∨ max engine.limit 1 ≤ underWay then some 0 else none

/-- Fetches the contracts that wait, and answers them in the order of their arrival. -/
def gather (engine : Engine) (conditions : Conditions) (session : Session)
    (waiting : List (String × Site)) (underWay : List Task) (arrived : List (String × Fetched)) :
    Except Failure (List (String × Fetched)) × Session :=
  match engine.choose conditions session waiting.length underWay.length with
  | some i =>
    match _h : underWay[i]? with
    | none => (.ok arrived, session)
    | some task =>
      match Task.arrival conditions session task with
      | .error failure => (.error failure, session.pass)
      | .ok contract =>
        gather engine conditions session.pass waiting (underWay.eraseIdx i)
          (arrived ++ [(task.key, contract)])
  | none =>
    match waiting with
    | [] => (.ok arrived, session)
    | (key, site) :: more =>
      let started := engine.start conditions session key site
      gather engine conditions started.2 more (underWay ++ [started.1]) arrived
termination_by 2 * waiting.length + underWay.length
decreasing_by
  · have := (List.getElem?_eq_some_iff.1 _h).1
    rw [List.length_eraseIdx_of_lt this]
    omega
  · simp
    omega

end Engine

end Interaction
