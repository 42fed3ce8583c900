import Interaction.Failure

/-!
# Sessions

A build reads chains while others may cancel it. Its session records what has happened so far: the
calls to chains, the latest first, and whether the build is cancelled. What happens around a build
is given by conditions: when it is cancelled, which calls fail in passing, in which order answers
arrive, and which network goes on. Under the plain conditions nothing interferes, every call is
answered before the next is made, and networks come one after the other.
-/

namespace Interaction

structure Context where
  isCancelled : Bool := false
  /-- Whether the time of the build is up. -/
  isExpired : Bool := false
  deriving DecidableEq, Repr

namespace Context

def isOver (context : Context) : Bool :=
  context.isCancelled || context.isExpired

/-- Fails if the build has to end. -/
def check (context : Context) : Except Failure Unit :=
  if context.isOver then .error .cancelled else .ok ()

def cancel (context : Context) : Context :=
  { context with isCancelled := true }

/-- What some work under a context comes to: an answer or none ever, and the context it leaves. -/
structure Outcome (α : Type) where
  answer : Option (Except Failure α)
  context : Context

/-- Does some work unless the build has to end. Work that does not end is given up once the build
is over; without that there is no answer. -/
def guarded {α : Type} (context : Context) (work : Context → Outcome α) : Outcome α :=
  if context.isOver then ⟨some (.error .cancelled), context⟩
  else
    let outcome := work context
    match outcome.answer with
    | some _ => outcome
    | none =>
      if outcome.context.isOver then ⟨some (.error .cancelled), outcome.context⟩ else outcome

end Context

inductive Call where
  | fetch (network address name : String)
  | height (network : String)
  deriving DecidableEq, Repr

/-- What happens around a build. -/
structure Conditions where
  /-- Whether the build is cancelled while the first of these calls is under way. -/
  cancels : List Call → Bool := fun _ => false
  /-- Whether the first of these calls fails in passing. -/
  drops : List Call → Bool := fun _ => false
  /-- At a given moment with so many calls under way, which of them is answered next; none if
  another is made first. -/
  answers : (moment underWay : Nat) → Option Nat := fun _ _ => some 0
  /-- Whether an answer that arrives at a given moment counts although the build is over by then. -/
  delivers : (moment : Nat) → Bool := fun _ => false
  /-- Whether, at a given moment, the work for a network goes on before that for so many other
  networks behind it. -/
  turns : (moment behind : Nat) → Bool := fun _ _ => true

/-- What has happened so far. -/
structure Session where
  context : Context := {}
  /-- The calls that have been made, the latest first. -/
  calls : List Call := []
  /-- How many calls have been answered or made. -/
  moment : Nat := 0
  deriving DecidableEq, Repr

namespace Session

def check (session : Session) : Except Failure Unit :=
  session.context.check

/-- Makes a call, during which the build may be cancelled. -/
def make (session : Session) (conditions : Conditions) (call : Call) : Session :=
  let calls := call :: session.calls
  { context :=
      if conditions.cancels calls then session.context.cancel else session.context
    calls := calls
    moment := session.moment + 1 }

/-- Lets time pass until the next event. -/
def pass (session : Session) : Session :=
  { session with moment := session.moment + 1 }

end Session

end Interaction
