import Interaction.Build.Config
import Interaction.Pinning.Concurrent
import Interaction.Template.View

/-!
# Dependencies of a build

Every distinct import of a source becomes a dependency with its placements. A placement that has
no pin in the registry is pinned on the chain of its network if one is attached. All placements of
a network are pinned together, and its height is read once before; a network without anything to
pin is not asked at all. The networks are pinned side by side.
-/

namespace Interaction

structure Builder where
  config : Config := {}
  registry : Registry
  /-- The chains by the networks they are attached to. -/
  chains : Table Chain := ∅

namespace Builder

def ofConfig (config : Config) : Builder :=
  { config := config, registry := config.registry }

def attach (builder : Builder) (network : String) (chain : Chain) : Builder :=
  { builder with chains := builder.chains.insert network chain }

/-- What is to be pinned on a network, of the places where imports lead. -/
def rootsOn (network : String) (places : List Resolved) : List Site :=
  (places.filter fun place => place.network == network && place.pin.isNone).map fun place =>
    ⟨place.contract, place.address⟩

/-- The networks with something to pin, each with its chain. -/
def workload (builder : Builder) (places : List Resolved) : List (String × Chain × List Site) :=
  (builder.chains.entries.map fun entry => (entry.1, entry.2, rootsOn entry.1 places)).filter
    fun work => work.2.2 ≠ []

/-- The pins of one network by the names of the contracts. -/
def pinNetwork (builder : Builder) (conditions : Conditions) (now : Session) (network : String)
    (chain : Chain) (roots : List Site) : Course (Except Failure (String × Table PinRecord)) :=
  let engine : Engine :=
    { network := network
      chain := chain
      registry := builder.registry
      limit := builder.config.fetchLimit }
  (engine.latestHeightCourse conditions).andThen now fun now read =>
    match read with
    | .error failure => .ended (.error failure)
    | .ok height =>
      (engine.computePinsCourse conditions roots height {} now).map fun computed =>
        computed.1.map fun records => (network, Table.ofList ((roots.map Site.name).zip records))

/-- The pins of all networks, side by side. -/
def pinNetworks (builder : Builder) (conditions : Conditions) (now : Session)
    (work : List (String × Chain × List Site)) :
    Course (Except Failure (List (String × Table PinRecord))) :=
  .all conditions.turns (work.map fun item =>
    builder.pinNetwork conditions now item.1 item.2.1 item.2.2)

/-- A placement, with the pin of the registry or else the computed one. -/
def placement (pinned : Table (Table PinRecord)) (place : Resolved) : Placement where
  network := place.network
  address := place.address
  pin := place.pin.orElse fun _ =>
    (pinned.get? place.network).bind fun records => records.get? place.contract

/-- The dependencies of a build, one for each import. -/
def dependencies (builder : Builder) (conditions : Conditions) (now : Session)
    (imports : List Import) : Course (Except Failure (List Dependency)) :=
  if now.context.isOver then .ended (.error .cancelled)
  else
    match imports.mapM fun i => builder.registry.resolveAll i builder.config.networks with
    | .error failure => .ended (.error failure)
    | .ok places =>
      (builder.pinNetworks conditions now (builder.workload places.flatten)).map fun pinned =>
        pinned.map fun records => (imports.zip places).map fun found =>
          ⟨found.1.name, found.2.map (placement (Table.ofList records))⟩

end Builder

end Interaction
