import Interaction.Pinning.Assembly
import Interaction.Pinning.Discovery

/-!
# Pinning contracts

Contracts are pinned in two passes over one cache: the import graph of all roots that have no pin
yet is discovered, and then the tree of each root is assembled. Roots share what they have in
common, and a cache may be shared by several runs on one network.
-/

namespace Interaction

namespace Engine

def latestHeight (engine : Engine) (conditions : Conditions) (session : Session) :
    Except Failure Nat × Session :=
  if session.context.isOver then (.error .cancelled, session)
  else (engine.chain.latestHeight engine.network,
    session.make conditions (.height engine.network))

def assembleRoots (engine : Engine) (context : Context) (roots : List Site) (cache : Cache) :
    Except Failure (List PinTree) × Cache :=
  Assembly.forEach
    (fun site => Assembly.assemble engine.network context (site.key engine.network)) roots cache

/-- Pins contracts, in the order in which they are given. -/
def computePins (engine : Engine) (conditions : Conditions) (roots : List Site) (height : Nat)
    (cache : Cache) (session : Session) : Except Failure (List PinRecord) × Cache × Session :=
  let roots := roots.map Site.normalized
  let missing := roots.filter fun site => (cache.pin? (site.key engine.network)).isNone
  match engine.discover conditions missing cache session with
  | (.error failure, cache, session) => (.error failure, cache, session)
  | (.ok (), cache, session) =>
    match engine.assembleRoots session.context roots cache with
    | (.error failure, cache) => (.error failure, cache, session)
    | (.ok trees, cache) => (.ok (trees.map (PinRecord.ofTree height)), cache, session)

end Engine

end Interaction
