import Interaction.Address
import Interaction.Table
import Interaction.Template.Pin

/-!
# The pin cache

While contracts are pinned, what is known of them is kept in a cache by their identity keys: each
contract once it has been fetched, and its pin tree once that has been put together. An entry of a
fetched contract is never replaced.
-/

namespace Interaction

/-- Where a contract is deployed on the network at hand. -/
structure Site where
  name : String
  address : String
  deriving DecidableEq, Repr

def Site.normalized (site : Site) : Site :=
  { site with address := Address.normalize site.address }

def Site.key (network : String) (site : Site) : String :=
  identityKey network site.address site.name

structure Fetched where
  site : Site
  /-- The digest of its code. -/
  own : String
  /-- What it imports, in the order of the source. -/
  children : List Site
  deriving DecidableEq, Repr

/-- What is known of the contracts of a run. -/
structure Cache where
  contracts : Table Fetched := ∅
  pins : Table PinTree := ∅
  deriving DecidableEq, Repr

namespace Cache

def contract? (cache : Cache) (key : String) : Option Fetched :=
  cache.contracts.get? key

def pin? (cache : Cache) (key : String) : Option PinTree :=
  cache.pins.get? key

/-- Stores a fetched contract unless there is one already, and answers the one that is kept. -/
def keep (cache : Cache) (key : String) (contract : Fetched) : Fetched × Cache :=
  match cache.contract? key with
  | some kept => (kept, cache)
  | none => (contract, { cache with contracts := cache.contracts.insert key contract })

def setPin (cache : Cache) (key : String) (tree : PinTree) : Cache :=
  { cache with pins := cache.pins.insert key tree }

def size (cache : Cache) : Nat :=
  cache.contracts.size

end Cache

end Interaction
