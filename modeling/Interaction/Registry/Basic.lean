import Interaction.Address
import Interaction.Table
import Interaction.Template.Pin

/-!
# The contract registry

The registry knows where contracts are deployed, by contract and network, and may know their pins.
It starts empty or with the core contracts and grows by changes, of which the latest counts:
overrides of a contract replace all that was known of it, the other changes one network only.
Addresses are normalised when they enter.
-/

namespace Interaction

/-- A deployment as the registry knows it. -/
structure Registration where
  address : String
  /-- A pin that was computed ahead of time. -/
  pin : Option PinRecord := none
  deriving DecidableEq, Repr

/-- Addresses by contract and network. -/
abbrev Addresses := Table (Table String)

/-- Deployments by contract and network. -/
structure Registry where
  contracts : Table (Table Registration) := ∅
  deriving DecidableEq, Repr

/-- A deployment without a pin. -/
def Registration.unpinned (address : String) : Registration :=
  { address := Address.normalize address }

namespace Registry

def empty : Registry := {}

/-- A change of a registry. -/
inductive Change where
  /-- Replaces all that is known of each contract. -/
  | override (addresses : Addresses)
  | place (name network address : String)
  /-- Places a contract with its pin tree on one network. -/
  | pin (name network address : String) (height : Nat) (tree : PinTree)
  deriving DecidableEq, Repr

def override (registry : Registry) (addresses : Addresses) : Registry :=
  ⟨addresses.entries.foldl
    (fun known entry => known.insert entry.1 (entry.2.map Registration.unpinned))
    registry.contracts⟩

def set (registry : Registry) (name network : String) (registration : Registration) : Registry :=
  ⟨registry.contracts.update name ∅ fun networks => networks.insert network registration⟩

def apply (registry : Registry) : Change → Registry
  | .override addresses => registry.override addresses
  | .place name network address => registry.set name network (.unpinned address)
  | .pin name network address height tree =>
    registry.set name network ⟨Address.normalize address, some (.ofTree height tree)⟩

/-- The addresses of the core contracts. -/
def coreAddresses : List (String × List (String × String)) := [
  ("FungibleToken", [
    ("emulator", "0xee82856bf20e2aa6"),
    ("mainnet", "0xf233dcee88fe0abe"),
    ("testnet", "0x9a0766d93b6608b7")]),
  ("NonFungibleToken", [
    ("emulator", "0xf8d6e0586b0a20c7"),
    ("mainnet", "0x1d7e57aa55817448"),
    ("testnet", "0x631e88ae7f1d7c20")]),
  ("MetadataViews", [
    ("mainnet", "0x1d7e57aa55817448"),
    ("testnet", "0x631e88ae7f1d7c20")]),
  ("FlowToken", [
    ("emulator", "0x0ae53cb6e3f42a79"),
    ("mainnet", "0x1654653399040a61"),
    ("testnet", "0x7e60df042a9c0868")])]

def core : Registry :=
  empty.override (Table.ofList (coreAddresses.map fun entry => (entry.1, Table.ofList entry.2)))

/-- The core contracts with overrides. -/
def coreWith (addresses : Addresses) : Registry :=
  core.override addresses

def deployments? (registry : Registry) (name : String) : Option (Table Registration) :=
  registry.contracts.get? name

def entry? (registry : Registry) (name network : String) : Option Registration :=
  (registry.deployments? name).bind fun networks => networks.get? network

def contains (registry : Registry) (name : String) : Bool :=
  registry.contracts.contains name

def names (registry : Registry) : List String :=
  registry.contracts.names

def size (registry : Registry) : Nat :=
  registry.contracts.size

def isEmpty (registry : Registry) : Bool :=
  registry.size == 0

def addresses (registry : Registry) : Addresses :=
  registry.contracts.map fun networks => networks.map Registration.address

end Registry

end Interaction
