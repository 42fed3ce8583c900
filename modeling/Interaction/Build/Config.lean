import Interaction.Kind
import Interaction.Pinning.Session
import Interaction.Registry.Basic

/-!
# Build configuration

What is fixed for all builds of a builder: the format of the templates, the networks that get a
network pin, the limits, and contracts that go on top of the core registry.
-/

namespace Interaction

structure Config where
  format : Format := .listed
  networks : List String := ["mainnet", "testnet"]
  fetchLimit : Nat := 8
  timeout : Option Nat := none
  contracts : Addresses := ∅
  deriving DecidableEq, Repr

namespace Config

/-- The core contracts with those of the configuration on top. -/
def registry (config : Config) : Registry :=
  .coreWith config.contracts

/-- The context of a new build. A build that is given no time is over at once. -/
def context (config : Config) : Context :=
  { isExpired := config.timeout == some 0 }

end Config

end Interaction
