import Interaction.Failure
import Interaction.Source.Substitution
import Interaction.Table
import Interaction.Template.Canonical

/-!
# Executable code

What runs on a network is the body of a template with every import bound to an address of that
network. A network pin is the digest of that code. Code can be made exactly if every dependency is
placed on the network and every import of the body names a dependency; otherwise the first
contract that stands in the way is named. An import that names no dependency is noticed while the
body is rewritten, and what has been written by then is given up.
-/

namespace Interaction

namespace Executable

/-- Adds the address of a dependency on a network. -/
def bind (network : String) (known : Table String) (dependency : Dependency) :
    Except Failure (Table String) :=
  match dependency.on? network with
  | some placement => .ok (known.insert dependency.contract placement.address)
  | none => .error (.notPlaced dependency.contract network)

/-- The addresses of all dependencies on a network; of two with one name the later counts. -/
def addresses (dependencies : List Dependency) (network : String) :
    Except Failure (Table String) :=
  dependencies.foldlM (bind network) ∅

/-- Looks an import up, and notes the name of the first one that has no address. -/
def lookUp (known : Table String) (i : Import) : StateM (Option String) (Option String) := do
  match known.get? i.name with
  | some address => return some (Import.explicitText i.name address)
  | none =>
    modify fun noted => noted.or (some i.name)
    return none

/-- The body with its imports bound to their addresses, and the first name that has none. -/
def rewrite (known : Table String) (body : String) : String × Option String :=
  (Source.substituteImportsM (lookUp known) body).run none

end Executable

open Executable

/-- The code of a template on a network. -/
def View.executable (view : View) (network : String) : Except Failure String := do
  let known ← addresses view.dependencies network
  match rewrite known view.body with
  | (_, some name) => throw (.notPlaced name network)
  | (code, none) => return code

/-- The pin of a template on a network. -/
def View.networkPin (view : View) (network : String) : Except Failure NetworkPin :=
  (view.executable network).map fun code => ⟨network, Digest.ofText code⟩

namespace NetworkPin

def dropRepeated : List NetworkPin → List NetworkPin
  | [] => []
  | [pin] => [pin]
  | pin :: next :: more =>
    if pin.network = next.network then dropRepeated (pin :: more)
    else pin :: dropRepeated (next :: more)
termination_by pins => pins.length

end NetworkPin

/-- The pins of a template on several networks, in the order of the networks and one for each. -/
def View.allNetworkPins (view : View) (networks : List String) :
    Except Failure (List NetworkPin) := do
  let pins ← networks.mapM view.networkPin
  return NetworkPin.dropRepeated (NetworkPin.sort pins)

/-- Whether a pin is the one that belongs to the template on its network. -/
def View.verifyNetworkPin (view : View) (pin : NetworkPin) : Except Failure Bool :=
  (view.networkPin pin.network).map fun computed => computed.digest == pin.digest

end Interaction
