/-!
# Flaws of a source text

Cutting a text into chunks never fails. What can be wrong is what its declarations say: each flaw
is a cause and the line it stands on.
-/

namespace Interaction

namespace Source

inductive Cause where
  | secondEntry
  | secondPragma
  | brokenPragma
  /-- A pragma field that is unknown or holds the wrong kind of value. -/
  | unexpectedField (name : String)
  /-- The same of a field of a pragma parameter. -/
  | unexpectedParameterField (name : String)
  | namelessParameter
  /-- A tag of a metadata block whose value cannot be read. -/
  | malformedTag (key value : String)
  deriving DecidableEq, Repr

def Cause.message : Cause → String
  | secondEntry => "more than one transaction or main declaration"
  | secondPragma => "duplicate #interaction pragma"
  | brokenPragma => "malformed #interaction pragma"
  | unexpectedField name => s!"unexpected pragma field `{name}`"
  | unexpectedParameterField name => s!"unexpected parameter field `{name}`"
  | namelessParameter => "pragma parameter without a name"
  | malformedTag key value => s!"malformed @{key} `{value}`"

structure Flaw where
  line : Nat
  cause : Cause
  deriving DecidableEq, Repr

def Flaw.message (flaw : Flaw) : String :=
  s!"line {flaw.line}: {flaw.cause.message}"

end Source

end Interaction
