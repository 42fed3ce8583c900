import Interaction.Template.View

/-!
# Listed documents

The document format 1.1.0. Parameters and dependencies are kept in order, dependencies with the
trees of their pins, and the body has a pin for each network.
-/

namespace Interaction

namespace Listed

/-- A contract on one network, with the tree of its pin if it is pinned. -/
structure Deployment where
  network : String
  address : String
  height : Nat := 0
  pin : Option PinTree := none
  deriving DecidableEq, Repr

/-- A contract on the networks it is placed on. -/
structure Contract where
  contract : String
  networks : List Deployment := []
  deriving DecidableEq, Repr

structure Slot where
  label : String
  index : Nat := 0
  type : String
  messages : List Message := []
  deriving DecidableEq, Repr

structure Code where
  body : String
  networkPins : List NetworkPin := []
  deriving DecidableEq, Repr

structure Contents where
  kind : String
  interface : String := ""
  messages : List Message := []
  code : Code
  /-- Contracts, in groups. -/
  dependencies : List (List Contract) := []
  parameters : List Slot := []
  output : Option Slot := none
  deriving DecidableEq, Repr

structure Document where
  type : String
  version : String
  id : String := ""
  contents : Contents
  deriving DecidableEq, Repr

/-- A placement as it is stored: a pin without its tree is left out, and its height with it. -/
def Deployment.ofPlacement (placement : Placement) : Deployment :=
  match placement.pin with
  | some ⟨height, _, some tree⟩ => ⟨placement.network, placement.address, height, some tree⟩
  | _ => ⟨placement.network, placement.address, 0, none⟩

def Deployment.toPlacement (deployment : Deployment) : Placement where
  network := deployment.network
  address := deployment.address
  pin := deployment.pin.map fun tree => .ofTree deployment.height tree

def Slot.ofArgument (argument : Argument) : Slot :=
  ⟨argument.label, argument.index, argument.type, argument.messages⟩

def Slot.toArgument (isOutput : Bool) (slot : Slot) : Argument where
  label := slot.label
  index := slot.index
  type := slot.type
  messages := slot.messages
  isOutput := isOutput

namespace Document

/-- Lays a draft out as a document without an id and without network pins. Each dependency has a
group of its own. -/
def ofDraft (draft : Draft) : Document where
  type := documentType
  version := Format.listed.tag
  contents := {
    kind := (draft.kind.map Kind.name).getD ""
    interface := draft.interface
    messages := draft.messages
    code := { body := draft.body }
    dependencies := draft.dependencies.map fun dependency =>
      [⟨dependency.contract, dependency.placements.map Deployment.ofPlacement⟩]
    parameters := draft.parameters.map Slot.ofArgument
    output := draft.output.map Slot.ofArgument }

/-- The parameters in the order of their indices; those of one index keep their order. -/
def parameters (document : Document) : List Argument :=
  (document.contents.parameters.map (Slot.toArgument false)).mergeSort
    fun a b => a.index ≤ b.index

def dependencies (document : Document) : List Dependency :=
  document.contents.dependencies.flatten.map fun contract =>
    ⟨contract.contract, contract.networks.map Deployment.toPlacement⟩

def view (document : Document) : View where
  format := .listed
  id := document.id
  kind := Kind.ofName? document.contents.kind
  interface := document.contents.interface
  messages := document.contents.messages
  body := document.contents.code.body
  parameters := document.parameters
  output := document.contents.output.map (Slot.toArgument true)
  dependencies := document.dependencies
  networkPins := document.contents.code.networkPins

end Document

end Listed

end Interaction
