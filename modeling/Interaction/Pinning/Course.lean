import Interaction.Pinning.Session

/-!
# Courses of work

Work that waits for chains goes on event by event. Between its events other work may go on in the
same session, so each event finds the session as all work before it has left it. Works that run
side by side take turns, and the first failure among them ends them all.
-/

namespace Interaction

/-- What work has ahead of it: nothing but its result, or an event, which changes the session, and
what is ahead then, which depends on the session that the event found. -/
inductive Course (α : Type) where
  | ended (result : α)
  | event (leaves : Session → Session) (goes : Session → Course α)

namespace Course

variable {α β γ : Type}

/-- Lets nothing else go on until the work has ended. -/
def run : Course α → Session → α × Session
  | ended result, session => (result, session)
  | event leaves goes, session => (goes session).run (leaves session)

def map (f : α → β) : Course α → Course β
  | ended result => ended (f result)
  | event leaves goes => event leaves fun session => (goes session).map f

/-- Goes on from the result of some work, in the session at its end; `now` is the session at its
start. -/
def andThen : Course α → (now : Session) → (Session → α → Course β) → Course β
  | ended result, now, next => next now result
  | event leaves goes, _, next =>
    event leaves fun session => (goes session).andThen (leaves session) next

/-- Work beside other work whose next event is given. -/
def beside (turn : Nat → Bool) (leaves : Session → Session)
    (goes : Session → Course (Except Failure α) → Course (Except Failure β)) :
    Course (Except Failure α) → Course (Except Failure β)
  | ended (.error failure) => ended (.error failure)
  | ended (.ok result) => event leaves fun session => goes session (ended (.ok result))
  | event leaves' goes' =>
    event
      (fun session => if turn session.moment then leaves session else leaves' session)
      fun session =>
        if turn session.moment then goes session (event leaves' goes')
        else (goes' session).beside turn leaves goes

/-- Two works side by side. At each moment it is decided whether the first of them goes on. -/
def both (turn : Nat → Bool) (join : α → β → γ) :
    Course (Except Failure α) → Course (Except Failure β) → Course (Except Failure γ)
  | ended (.error failure), _ => ended (.error failure)
  | ended (.ok result), other => other.map fun found => found.map (join result)
  | event leaves goes, other =>
    other.beside turn leaves fun session other => (goes session).both turn join other

/-- Works side by side. At each moment it is decided for each whether it goes on before those
behind it. -/
def all (turns : (moment behind : Nat) → Bool) :
    List (Course (Except Failure α)) → Course (Except Failure (List α))
  | [] => ended (.ok [])
  | work :: more => work.both (fun moment => turns moment more.length) List.cons (all turns more)

end Course

end Interaction
