import Interaction.Source.Flaw
import Interaction.Text.Utf8

/-!
# Failures

Why a template cannot be built, pinned or resolved. A failure is a cause; `Failure.message` is its
wording.
-/

namespace Interaction

/-- Why a chain did not answer. -/
inductive Refusal where
  | accountUnavailable
  | notDeployed
  | serves (network : String)
  /-- The contract was asked for before it was discovered. -/
  | neverFetched
  deriving DecidableEq, Repr

def Refusal.message : Refusal → String
  | accountUnavailable => "account unavailable"
  | notDeployed => "contract not deployed"
  | serves network => s!"reader serves {network}"
  | neverFetched => "contract was never fetched"

/-- What is wrong with a source. -/
inductive Malformation where
  | flaw (flaw : Source.Flaw)
  | noEntry
  /-- The pragma describes more parameters than the source declares. -/
  | tooManyDescribed (described declared : Nat)
  /-- The pragma describes a parameter under another name than the source gives it. -/
  | misnamed (index : Nat) (described declared : String)
  /-- Deployed code that is not UTF-8. -/
  | notText (name address : String) (flaw : Utf8.Flaw)
  deriving DecidableEq, Repr

def Malformation.message : Malformation → String
  | flaw f => f.message
  | noEntry => "no transaction or main declaration"
  | tooManyDescribed described declared =>
    s!"pragma describes {described} parameters, source declares {declared}"
  | misnamed index described declared =>
    s!"pragma parameter {index} is `{described}`, source parameter is `{declared}`"
  | notText name address f => s!"{name} at {address} is not UTF-8: {f.message}"

/-- Why something could not be done. -/
inductive Failure where
  /-- A contract that is neither known to the registry nor imported from an address. -/
  | unresolved (contract network : String)
  | notPlaced (contract network : String)
  | fetch (contract address network : String) (reason : Refusal)
  | malformed (cause : Malformation)
  | unsupportedVersion (tag : String)
  /-- A chain of imports that comes back to a contract it has passed. -/
  | cycle (path : List String)
  | cancelled
  /-- A template document that cannot be read. -/
  | schema (detail : String)
  deriving DecidableEq, Repr

def Failure.message : Failure → String
  | unresolved contract network =>
    s!"RESOLVE/contract {contract} not found for network {network}"
  | notPlaced contract network =>
    s!"NETWORK/network {network} not found for contract {contract} in dependencies"
  | fetch contract address network reason =>
    s!"FETCH/{contract} at {address} on {network}: {reason.message}"
  | malformed cause => s!"SOURCE/{cause.message}"
  | unsupportedVersion tag => s!"VERSION/unsupported template version: {tag}"
  | cycle path => "CYCLE/import cycle through " ++ " -> ".intercalate path
  | cancelled => "CANCEL/build cancelled"
  | schema detail => s!"SCHEMA/{detail}"

end Interaction
