import Interaction.Failure
import Interaction.Registry.Basic
import Interaction.Source.Import

/-!
# Resolving imports

An import is resolved to an address on a network. A bare import takes the registry's address. An
explicit one keeps its own, and the registry gives it a pin only if it knows the contract at that
very address. A contract that an interaction imports itself is placed on all networks at once: one
that the registry knows is placed where the registry has it, whatever the import spells out.
-/

namespace Interaction

/-- Where an import leads on one network. -/
structure Resolved where
  contract : String
  network : String
  address : String
  /-- The pin, if the registry has one for this deployment. -/
  pin : Option PinRecord
  deriving DecidableEq, Repr

namespace Registry

def resolveBare (registry : Registry) (name network : String) : Except Failure Resolved :=
  match registry.deployments? name with
  | none => .error (.unresolved name network)
  | some networks =>
    match networks.get? network with
    | none => .error (.notPlaced name network)
    | some found => .ok ⟨name, network, found.address, found.pin⟩

def resolveExplicit (registry : Registry) (name address network : String) : Resolved :=
  let address := Address.normalize address
  let known := (registry.entry? name network).filter fun found => found.address == address
  ⟨name, network, address, known.bind Registration.pin⟩

/-- Resolves an import on a network. -/
def resolve (registry : Registry) (i : Import) (network : String) : Except Failure Resolved :=
  match i.address with
  | none => registry.resolveBare i.name network
  | some address => .ok (registry.resolveExplicit i.name address network)

/-- Resolves an import on every network it can be placed on: the registry's networks if it knows
the contract, and otherwise the given ones. -/
def resolveAll (registry : Registry) (i : Import) (networks : List String) :
    Except Failure (List Resolved) :=
  match registry.deployments? i.name with
  | some known => known.names.mapM (registry.resolveBare i.name)
  | none =>
    if i.isExplicit then networks.mapM (registry.resolve i)
    else .error (.unresolved i.name (",".intercalate networks))

end Registry

end Interaction
